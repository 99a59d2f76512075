import Mathlib.Data.List.Forall2
import PayrollSeal.Json.Read
import PayrollSeal.Proofs.Json.Builder

/-!
# Members in any order

Two values are `Rearranged` if they differ in nothing but the order of members, in the objects
inside as well. A reader `Reads` a value as something if it does so for every arrangement of it. For
records this follows from the readers of their fields (`Fields.exists_read`), because the names of
fields differ.
-/

namespace PayrollSeal.Json

/-! ## Arrangements -/

/-- What stands on the right of a list of pairs has a partner on the left. -/
theorem exists_of_mem_right {α β : Type} {R : α → β → Prop} {as : List α} {bs : List β}
    (h : List.Forall₂ R as bs) {b : β} (hb : b ∈ bs) : ∃ a ∈ as, R a b := by
  induction h with
  | nil => cases hb
  | cons hhead _ ih =>
    rcases List.mem_cons.mp hb with rfl | hb
    · exact ⟨_, List.mem_cons_self, hhead⟩
    · obtain ⟨a, ha, hab⟩ := ih hb
      exact ⟨a, List.mem_cons_of_mem _ ha, hab⟩

/-- What stands on the left of a list of pairs has a partner on the right. -/
theorem exists_of_mem_left {α β : Type} {R : α → β → Prop} {as : List α} {bs : List β}
    (h : List.Forall₂ R as bs) {a : α} (ha : a ∈ as) : ∃ b ∈ bs, R a b :=
  exists_of_mem_right h.flip ha

/-- The second value is the first with the members of every object in some order: the members
have the same names and rearranged values, and stand anywhere. -/
inductive Rearranged : Json → Json → Prop
  | null : Rearranged .null .null
  | bool (b : Bool) : Rearranged (.bool b) (.bool b)
  | number (n : Number) : Rearranged (.number n) (.number n)
  | text (t : Text) : Rearranged (.text t) (.text t)
  | array {items others : List Json} (h : List.Forall₂ Rearranged items others) :
    Rearranged (.array items) (.array others)
  | object {members matched others : List (Text × Json)}
    (hnames : members.map Prod.fst = matched.map Prod.fst)
    (hvalues : List.Forall₂ Rearranged (members.map Prod.snd) (matched.map Prod.snd))
    (hperm : matched.Perm others) : Rearranged (.object members) (.object others)

/-- Two members have one name, and the value of the second is the rearranged one of the first. -/
def Corresponds (a b : Text × Json) : Prop :=
  a.1 = b.1 ∧ a.2.Rearranged b.2

theorem forall₂_corresponds_iff {members matched : List (Text × Json)} :
    List.Forall₂ Corresponds members matched ↔
      members.map Prod.fst = matched.map Prod.fst ∧
        List.Forall₂ Rearranged (members.map Prod.snd) (matched.map Prod.snd) := by
  induction members generalizing matched with
  | nil => cases matched <;> simp
  | cons member members ih =>
    cases matched with
    | nil => simp
    | cons other matched =>
      simp only [List.forall₂_cons, List.map_cons, List.cons.injEq, ih, Corresponds]
      tauto

namespace Rearranged

/-- The objects that an object can be rearranged to. -/
theorem object_iff {members : List (Text × Json)} {json : Json} :
    (Json.object members).Rearranged json ↔
      ∃ matched others, json = .object others ∧ List.Forall₂ Corresponds members matched ∧
        matched.Perm others := by
  constructor
  · intro h
    cases h with
    | object hnames hvalues hperm =>
      exact ⟨_, _, rfl, forall₂_corresponds_iff.mpr ⟨hnames, hvalues⟩, hperm⟩
  · rintro ⟨matched, others, rfl, hmatched, hperm⟩
    obtain ⟨hnames, hvalues⟩ := forall₂_corresponds_iff.mp hmatched
    exact .object hnames hvalues hperm

mutual

/-- A value is an arrangement of itself. -/
theorem refl : ∀ value : Json, value.Rearranged value
  | .null => .null
  | .bool b => .bool b
  | .number n => .number n
  | .text t => .text t
  | .array items => .array (refl_items items)
  | .object members => .object rfl (refl_members members) (List.Perm.refl _)

theorem refl_items : ∀ items : List Json, List.Forall₂ Rearranged items items
  | [] => .nil
  | item :: items => .cons (refl item) (refl_items items)

theorem refl_members : ∀ members : List (Text × Json),
    List.Forall₂ Rearranged (members.map Prod.snd) (members.map Prod.snd)
  | [] => .nil
  | (_, value) :: members => .cons (refl value) (refl_members members)

end

/-- Members that are picked by their names can be rearranged by themselves. -/
theorem filter (p : Text → Bool) {members others : List (Text × Json)}
    (h : (Json.object members).Rearranged (.object others)) :
    (Json.object (members.filter (p ·.1))).Rearranged (.object (others.filter (p ·.1))) := by
  obtain ⟨matched, others, hothers, hmatched, hperm⟩ := object_iff.mp h
  cases hothers
  refine object_iff.mpr ⟨matched.filter (p ·.1), _, rfl, ?_, hperm.filter _⟩
  refine List.rel_filter (fun a b hab => ?_) hmatched
  show p a.1 = true ↔ p b.1 = true
  rw [hab.1]

/-- An arrangement of a plain value is plain. -/
theorem plain {depth : Nat} {value other : Json} (h : value.Rearranged other)
    (hplain : Plain depth value) : Plain depth other := by
  induction hplain generalizing other with
  | null =>
    cases h
    exact .null
  | bool b =>
    cases h
    exact .bool b
  | number hn =>
    cases h
    exact .number hn
  | text s =>
    cases h
    exact .text s
  | array hitems ih =>
    cases h with
    | array h =>
      refine .array fun item hitem => ?_
      obtain ⟨a, ha, hrearranged⟩ := exists_of_mem_right h hitem
      exact ih a ha hrearranged
  | object hnames hvalues ih =>
    obtain ⟨matched, others, rfl, hmatched, hperm⟩ := object_iff.mp h
    have hback : ∀ member ∈ others, ∃ a ∈ _, Corresponds a member := fun member hmember =>
      exists_of_mem_right hmatched (hperm.mem_iff.mpr hmember)
    refine .object (fun member hmember => ?_) fun member hmember => ?_
    · obtain ⟨a, ha, hname, -⟩ := hback member hmember
      exact hname ▸ hnames a ha
    · obtain ⟨a, ha, -, hvalue⟩ := hback member hmember
      exact ih a ha hvalue

end Rearranged

/-! ## Readers -/

/-- A reader reads a value, however it is arranged, as a given result. -/
def Reads {α : Type} (read : Reader α) (json : Json) (result : α) : Prop :=
  ∀ other, json.Rearranged other → read other = .ok result

variable {α : Type} {read : Reader α}

theorem Reads.eq_ok {json : Json} {result : α} (h : Reads read json result) :
    read json = .ok result :=
  h json (Rearranged.refl json)

/-- A text has one arrangement. -/
theorem reads_text_iff {t : Text} {result : α} :
    Reads read (.text t) result ↔ read (.text t) = .ok result := by
  refine ⟨Reads.eq_ok, fun h other hother => ?_⟩
  cases hother
  exact h

/-- A number has one arrangement. -/
theorem reads_number_iff {n : Number} {result : α} :
    Reads read (.number n) result ↔ read (.number n) = .ok result := by
  refine ⟨Reads.eq_ok, fun h other hother => ?_⟩
  cases hother
  exact h

/-- A list is read item by item. -/
theorem reads_list {write : α → Json} {results : List α}
    (h : ∀ result ∈ results, Reads read (write result) result) :
    Reads (readList read) (.array (results.map write)) results := by
  have hmapM : ∀ others, List.Forall₂ Rearranged (results.map write) others →
      others.mapM read = .ok results := by
    induction results with
    | nil =>
      intro others hothers
      cases hothers
      rfl
    | cons result results ih =>
      intro others hothers
      obtain ⟨hresult, hresults⟩ := List.forall_mem_cons.mp h
      cases hothers with
      | cons hitem hitems =>
        rw [List.mapM_cons, hresult _ hitem, ih hresults _ hitems]
        rfl
  intro other hother
  cases hother with
  | array hitems => exact hmapM _ hitems

end PayrollSeal.Json
