import PayrollSeal.Proofs.Merkle.Messages

/-!
# Leaves and partners that were changed

Once the sides of a proof are fixed, a root is reached from one leaf and past one list of partners
at most (`fold_inj`), whoever made the root. So of a proof that is accepted neither the leaf nor a
partner can be changed (`verify_eq_false_of_tampered`).
-/

namespace PayrollSeal.Merkle

/-- A proof is made of its sides and its partners. -/
theorem eq_iff_sides_eq_and_siblings_eq {p q : List Step} :
    p = q ↔ p.map Step.side = q.map Step.side ∧ p.map Step.sibling = q.map Step.sibling := by
  constructor
  · rintro rfl
    exact ⟨rfl, rfl⟩
  · rintro ⟨hsides, hsiblings⟩
    -- the sides alone fix the length, so both proofs are taken apart step by step
    induction p generalizing q with
    | nil => exact (List.map_eq_nil_iff.mp hsides.symm).symm
    | cons s p ih =>
      cases q with
      | nil => cases hsides
      | cons t q =>
        rw [List.map_cons, List.map_cons, List.cons.injEq] at hsides hsiblings
        have hstep : s = t := by
          obtain ⟨a, side⟩ := s
          obtain ⟨b, side'⟩ := t
          rw [Step.mk.injEq]
          exact ⟨hsiblings.1, hsides.1⟩
        rw [hstep, ih hsides.2 hsiblings.2]

/-- Of the leaves and proofs with the sides of an accepted one, the root accepts no other, unless two
of the messages that are hashed on the two ways collide: if the leaf or a partner was changed, the
check fails. -/
theorem verify_eq_false_of_tampered {root x y : Digest} {p q : List Step}
    (hsides : p.map Step.side = q.map Step.side)
    (hfree : CollisionFree (foldMessages x p ++ foldMessages y q)) (hp : verify root x p = true) :
    (verify root y q = true ↔ x = y ∧ p.map Step.sibling = q.map Step.sibling) ∧
      (x ≠ y ∨ p.map Step.sibling ≠ q.map Step.sibling → verify root y q = false) := by
  have hiff : verify root y q = true ↔ x = y ∧ p.map Step.sibling = q.map Step.sibling := by
    constructor
    · intro hq
      -- the two ways meet at the root only, so they are taken back from there
      have hmeet : fold x p = fold y q := (beq_iff_eq.mp hp).trans (beq_iff_eq.mp hq).symm
      obtain ⟨hxy, rfl⟩ := fold_inj hfree (List.subset_append_left _ _)
        (List.subset_append_right _ _) hsides hmeet
      exact ⟨hxy, rfl⟩
    · rintro ⟨rfl, hsiblings⟩
      rw [← eq_iff_sides_eq_and_siblings_eq.mpr ⟨hsides, hsiblings⟩]
      exact hp
  refine ⟨hiff, fun hchanged => ?_⟩
  rw [Bool.eq_false_iff]
  intro hq
  obtain ⟨hxy, hsiblings⟩ := hiff.mp hq
  rcases hchanged with hleaf | hpartner
  · exact hleaf hxy
  · exact hpartner hsiblings

/-- A hash one bit away from that of equal bytes. -/
def nearDigest : Digest := ⟨0x0b :: List.replicate 31 0x0a, rfl⟩

/-- A proof of three steps; the second partner stands on the left. -/
def threeSteps (second : Digest) : List Step :=
  [⟨.filled 0x0b, .right⟩, ⟨second, .left⟩, ⟨.filled 0x0c, .right⟩]

/-- The root that the three steps lead to. -/
def threeStepsRoot : Digest := fold (.filled 0x0a) (threeSteps (.filled 0x0a))

/-- One bit of the second partner is changed, and then one bit of the leaf. -/
theorem verify_eq_false_of_bit_changed :
    verify threeStepsRoot (.filled 0x0a) (threeSteps nearDigest) = false ∧
      verify threeStepsRoot nearDigest (threeSteps (.filled 0x0a)) = false := by
  have haccepted : verify threeStepsRoot (.filled 0x0a) (threeSteps (.filled 0x0a)) = true :=
    beq_iff_eq.mpr rfl
  constructor
  · have hsides : (threeSteps (.filled 0x0a)).map Step.side =
        (threeSteps nearDigest).map Step.side := rfl
    have hfree : CollisionFree (foldMessages (.filled 0x0a) (threeSteps (.filled 0x0a)) ++
        foldMessages (.filled 0x0a) (threeSteps nearDigest)) := by
      decide +kernel
    have hchanged : (threeSteps (.filled 0x0a)).map Step.sibling ≠
        (threeSteps nearDigest).map Step.sibling := by
      decide
    exact (verify_eq_false_of_tampered hsides hfree haccepted).2 (.inr hchanged)
  · have hfree : CollisionFree (foldMessages (.filled 0x0a) (threeSteps (.filled 0x0a)) ++
        foldMessages nearDigest (threeSteps (.filled 0x0a))) := by
      decide +kernel
    have hchanged : Digest.filled 0x0a ≠ nearDigest := by decide
    exact (verify_eq_false_of_tampered rfl hfree haccepted).2 (.inl hchanged)

end PayrollSeal.Merkle
