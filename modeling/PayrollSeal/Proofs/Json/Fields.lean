import Mathlib.Data.List.Nodup
import PayrollSeal.Proofs.Json.Rearranged

/-!
# Reading the fields of rearranged records

The names of a record's members differ, so each field is found in whatever order the members stand
(`Fields.exists_read`), and is read as the reader of that field says (`Fields.Shows.get_eq`).
-/

namespace PayrollSeal.Json

namespace Fields

/-! ## Members by name -/

section

variable {members : List (Text × Json)} {name : String}

theorem named_cons (name : String) (key : Text) (value : Json) (members : List (Text × Json)) :
    named name ((key, value) :: members) =
      if key = some name then value :: named name members else named name members := by
  rw [named, List.filterMap_cons]
  by_cases h : key = some name <;> simp only [h, if_true, if_false] <;> rfl

theorem named_eq_nil (h : some name ∉ members.map Prod.fst) : named name members = [] := by
  refine List.filterMap_eq_nil_iff.mpr fun member hmember => ?_
  have hname : member.1 ≠ some name := fun hname => h (List.mem_map.mpr ⟨member, hmember, hname⟩)
  exact if_neg hname

/-- A member whose name does not repeat is found by its name. -/
theorem named_eq_singleton {value : Json} (hnodup : (members.map Prod.fst).Nodup)
    (hmem : (some name, value) ∈ members) : named name members = [value] := by
  induction members with
  | nil => cases hmem
  | cons member members ih =>
    obtain ⟨key, other⟩ := member
    rw [List.map_cons, List.nodup_cons] at hnodup
    rw [named_cons]
    rcases List.mem_cons.mp hmem with heq | hrest
    · obtain ⟨rfl, rfl⟩ := Prod.mk.inj heq
      rw [if_pos rfl, named_eq_nil hnodup.1]
    · have hkey : key ≠ some name := by
        rintro rfl
        exact hnodup.1 (List.mem_map.mpr ⟨_, hrest, rfl⟩)
      rw [if_neg hkey, ih hnodup.2 hrest]

/-- If names do not repeat, each names one member at most. -/
theorem named_eq_toList (hnodup : (members.map Prod.fst).Nodup) (name : String) :
    named name members = (named name members).head?.toList := by
  by_cases h : some name ∈ members.map Prod.fst
  · obtain ⟨⟨key, value⟩, hmem, rfl⟩ := List.mem_map.mp h
    rw [named_eq_singleton hnodup hmem]
    rfl
  · rw [named_eq_nil h]
    rfl

/-- Members whose names do not repeat are picked in the order of the fields. -/
theorem ofMembers_eq_ok (hnodup : (members.map Prod.fst).Nodup) (names : List String) :
    ofMembers members names =
      .ok (names.flatMap fun name => (named name members).head?.toList.map (name, ·)) := by
  induction names with
  | nil => rfl
  | cons name names ih =>
    rw [ofMembers, ih, List.flatMap_cons, named_eq_toList hnodup name]
    cases (named name members).head? <;> rfl

end

/-- What is picked for a name is found by it. -/
theorem lookup_flatMap (names : List String) (f : String → Option Json) (name : String) :
    (names.flatMap fun name => (f name).toList.map (name, ·)).lookup name =
      if name ∈ names then f name else none := by
  induction names with
  | nil => rfl
  | cons key names ih =>
    rw [List.flatMap_cons, List.lookup_append, ih]
    by_cases hkey : name = key
    · subst hkey
      cases f name <;> simp
    · cases f key <;> simp [hkey, List.lookup_cons, beq_eq_false_iff_ne.mpr hkey]

/-! ## Members of a rearranged record -/

/-- The members of an object are those of a record, each rearranged, and there are no others. -/
structure Arranges (others : List (Text × Json)) (members : List (String × Json)) : Prop where
  isSome : others.all (·.1.isSome) = true
  nodup : (others.map Prod.fst).Nodup
  present : ∀ {name value}, (name, value) ∈ members →
    ∃ other, named name others = [other] ∧ value.Rearranged other
  absent : ∀ {name}, name ∉ members.map Prod.fst → named name others = []

theorem exists_arranges {members : List (String × Json)} (hnodup : (members.map Prod.fst).Nodup)
    {json : Json} (h : (record members).Rearranged json) :
    ∃ others, json = .object others ∧ Arranges others members := by
  obtain ⟨matched, others, rfl, hmatched, hperm⟩ := Rearranged.object_iff.mp h
  -- names are only reordered, so they differ still and none is new
  have hkeys : (others.map Prod.fst).Perm ((members.map Prod.fst).map some) := by
    have hfst := (forall₂_corresponds_iff.mp hmatched).1
    rw [List.map_map] at hfst ⊢
    exact (hperm.symm.map Prod.fst).trans (hfst ▸ List.Perm.refl _)
  have hdistinct : (others.map Prod.fst).Nodup :=
    hkeys.nodup_iff.mpr (List.Nodup.map (Option.some_injective _) hnodup)
  refine ⟨others, rfl, ?_, hdistinct, ?_, ?_⟩
  · refine List.all_eq_true.mpr fun member hmember => ?_
    have hkey := hkeys.subset (List.mem_map.mpr ⟨member, hmember, rfl⟩)
    obtain ⟨name, -, hname⟩ := List.mem_map.mp hkey
    rw [← hname]
    rfl
  · intro name value hmem
    obtain ⟨⟨key, other⟩, hother, rfl, hvalue⟩ :=
      exists_of_mem_left hmatched (List.mem_map.mpr ⟨(name, value), hmem, rfl⟩)
    exact ⟨other, named_eq_singleton hdistinct (hperm.subset hother), hvalue⟩
  · intro name hname
    refine named_eq_nil fun hkey => ?_
    obtain ⟨_, hmem, heq⟩ := List.mem_map.mp (hkeys.subset hkey)
    exact hname (Option.some_injective _ heq ▸ hmem)

/-! ## Fields of a record -/

/-- The fields are the members of a record, each rearranged, and there are no others. -/
structure Shows (fields : Fields) (members : List (String × Json)) : Prop where
  present : ∀ {name value}, (name, value) ∈ members →
    ∃ other, fields.lookup name = some other ∧ value.Rearranged other
  absent : ∀ {name}, name ∉ members.map Prod.fst → fields.lookup name = none

/-- The fields of a record, of which some may be left off, are found however it is arranged. -/
theorem exists_read {members : List (String × Json)} (names : List String) (optional : Nat)
    (hnodup : names.Nodup) (hnames : (members.map Prod.fst).Sublist names) {json : Json}
    (h : (record members).Rearranged json) :
    ∃ fields, read names optional json = .ok fields ∧ Shows fields members := by
  obtain ⟨others, rfl, hothers⟩ := exists_arranges (hnodup.sublist hnames) h
  refine ⟨_, (if_pos hothers.isSome).trans (ofMembers_eq_ok hothers.nodup names), ?_, ?_⟩
  · intro name value hmem
    obtain ⟨other, hnamed, hvalue⟩ := hothers.present hmem
    have hname : name ∈ names := hnames.subset (List.mem_map.mpr ⟨_, hmem, rfl⟩)
    refine ⟨other, ?_, hvalue⟩
    rw [lookup_flatMap, if_pos hname, hnamed]
    rfl
  · intro name hname
    rw [lookup_flatMap, hothers.absent hname]
    exact ite_self _

variable {α : Type} {fields : Fields} {members : List (String × Json)} {name : String}
  {value : Json} {read : Reader α} {result : α}

theorem Shows.get_eq (h : fields.Shows members) (name : String) (hmem : (name, value) ∈ members)
    (hread : Reads read value result) : fields.get name read = .ok result := by
  obtain ⟨other, hlookup, hother⟩ := h.present hmem
  rw [get, hlookup]
  exact hread other hother

theorem Shows.get?_eq_some (h : fields.Shows members) (hmem : (name, value) ∈ members)
    (hread : Reads read value result) : fields.get? name read = .ok (some result) := by
  obtain ⟨other, hlookup, hother⟩ := h.present hmem
  rw [get?, hlookup]
  show some <$> read other = .ok (some result)
  rw [hread other hother]
  rfl

theorem Shows.get?_eq_none (h : fields.Shows members) (hname : name ∉ members.map Prod.fst) :
    fields.get? name read = .ok none := by
  rw [get?, h.absent hname]

end Fields

/-- What is read goes on to the next field. -/
theorem ok_bind {ε α β : Type} (value : α) (rest : α → Except ε β) :
    (Except.ok value >>= rest) = rest value :=
  rfl

end PayrollSeal.Json
