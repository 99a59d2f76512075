import PayrollSeal.Document.Order

/-!
# One arrangement of receipts

The canonical order of receipts is total and ties no two different ones, so sorting brings lists
of receipts to one arrangement exactly if they are permutations of each other
(`Receipt.sort_eq_sort_iff`).
-/

namespace PayrollSeal

open Std

/-! ## Tags -/

theorem Period.Kind.tag_inj {k l : Period.Kind} : k.tag = l.tag ↔ k = l := by
  cases k <;> cases l <;> decide

theorem Receipt.Kind.tag_inj {k l : Receipt.Kind} : k.tag = l.tag ↔ k = l := by
  cases k <;> cases l <;> decide

/-! ## Order -/

instance : TransOrd Digest :=
  inferInstanceAs (TransCmp (compareOn Digest.bytes))

instance : LawfulEqOrd Digest where
  eq_of_compare h := Digest.ext (LawfulEqOrd.eq_of_compare h)

namespace Receipt

/-- The canonical order compares the four keys one after the other. -/
instance : TransCmp order :=
  inferInstanceAs (TransCmp (compareLex (compareOn fun r : Receipt => r.anchor.height) <|
    compareLex (compareOn fun r => r.anchor.hash) <|
      compareLex (compareOn Receipt.inputsHash) (compareOn fun r => r.kind.tag)))

/-- Receipts that differ never tie. -/
instance : LawfulEqCmp order where
  eq_of_compare {a b} h := by
    obtain ⟨⟨_, _⟩, _, _⟩ := a
    obtain ⟨⟨_, _⟩, _, _⟩ := b
    simp only [order, Ordering.then_eq_eq, LawfulEqOrd.compare_eq_iff_eq, Kind.tag_inj] at h
    obtain ⟨rfl, rfl, rfl, rfl⟩ := h
    rfl

/-! ## Sorting -/

theorem sort_perm (receipts : List Receipt) : (sort receipts).Perm receipts :=
  List.mergeSort_perm receipts _

theorem pairwise_sort (receipts : List Receipt) :
    (sort receipts).Pairwise fun a b => (a.order b).isLE := by
  apply List.pairwise_mergeSort
  · intro a b c hab hbc
    exact TransCmp.isLE_trans hab hbc
  · intro a b
    have hswap : b.order a = (a.order b).swap := OrientedCmp.eq_swap
    rw [hswap]
    cases a.order b <;> rfl

/-- Lists of receipts are brought to one arrangement exactly if each is a permutation of the
other. -/
theorem sort_eq_sort_iff {a b : List Receipt} : sort a = sort b ↔ a.Perm b := by
  constructor
  · intro h
    exact (sort_perm a).symm.trans (h ▸ sort_perm b)
  · intro h
    have hperm : (sort a).Perm (sort b) := (sort_perm a).trans (h.trans (sort_perm b).symm)
    refine hperm.eq_of_pairwise (fun r s _ _ hrs hsr => ?_) (pairwise_sort a) (pairwise_sort b)
    exact LawfulEqCmp.eq_of_compare (OrientedCmp.isLE_antisymm hrs hsr)

/-- The arrangement that sorting leads to is the permutation that is in order. -/
theorem sort_eq_iff {a b : List Receipt} :
    sort a = b ↔ a.Perm b ∧ b.Pairwise fun r s => (r.order s).isLE := by
  constructor
  · rintro rfl
    exact ⟨(sort_perm a).symm, pairwise_sort a⟩
  · rintro ⟨hperm, hsorted⟩
    rw [sort_eq_sort_iff.mpr hperm]
    exact List.mergeSort_of_pairwise hsorted

/-- Sorting leads to the one arrangement that the order allows: every receipt stands in it as often
as in the list, no receipt stands before a smaller one, the list may come in any arrangement, and
no other arrangement is in order. -/
theorem sort_is_the_arrangement (receipts : List Receipt) :
    (sort receipts).Perm receipts ∧
      (∀ r, (sort receipts).count r = receipts.count r) ∧
      (∀ i j, (hij : i < j) → (hj : j < (sort receipts).length) →
        ((sort receipts)[i].order (sort receipts)[j]).isLE) ∧
      (∀ other : List Receipt, other.Perm receipts → sort other = sort receipts) ∧
      ∀ arranged : List Receipt, arranged.Perm receipts →
        (arranged.Pairwise fun r s => (r.order s).isLE) → sort receipts = arranged := by
  refine ⟨sort_perm receipts, (sort_perm receipts).count_eq, ?_, ?_, ?_⟩
  · intro i j hij hj
    exact List.pairwise_iff_getElem.mp (pairwise_sort receipts) i j (Nat.lt_trans hij hj) hj hij
  · intro other hperm
    exact sort_eq_sort_iff.mpr hperm
  · intro arranged hperm hsorted
    exact sort_eq_iff.mpr ⟨hperm.symm, hsorted⟩

/-- Receipts of one height: a receipt of the smaller anchor that stands twice in the list comes
first, and of two receipts that share the anchor the paystub comes first. -/
theorem sort_shared_height :
    sort [⟨⟨.filled 0xcc, 7⟩, .zero, .reversal⟩, ⟨⟨.filled 0x0a, 7⟩, .zero, .paystub⟩,
      ⟨⟨.filled 0xcc, 7⟩, .zero, .paystub⟩, ⟨⟨.filled 0x0a, 7⟩, .zero, .paystub⟩] =
    [⟨⟨.filled 0x0a, 7⟩, .zero, .paystub⟩, ⟨⟨.filled 0x0a, 7⟩, .zero, .paystub⟩,
      ⟨⟨.filled 0xcc, 7⟩, .zero, .paystub⟩, ⟨⟨.filled 0xcc, 7⟩, .zero, .reversal⟩] :=
  (sort_is_the_arrangement _).2.2.2.2 _ (by decide) (by decide)

end Receipt

end PayrollSeal
