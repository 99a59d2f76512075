import PayrollSeal.Proofs.Merkle.Levels
import PayrollSeal.Proofs.Merkle.Position

/-!
# Every leaf has a proof

A root, a proof and the fold of a proof each go up the levels on their own. They meet because a
node climbs with its partner to the node above, at the halved index (`climb_partner`); from this
step the run from a leaf to the root follows by induction over the levels (`fold_path`). Proofs of a
tree are as long as the tree is high and spell the index that they were made for.
-/

namespace PayrollSeal.Merkle

/-! ## One level -/

/-- The node at `i` is the parent of its children, and an odd last child is there twice. -/
theorem getElem_pairUp (level : List Digest) (i : Nat) (hi : 2 * i < level.length)
    (h : i < (pairUp level).length) :
    (pairUp level)[i] = parent level[2 * i] ((level[2 * i + 1]?).getD level[2 * i]) := by
  have hm : i < (pairMessages level).length := by rwa [length_pairMessages, ← length_pairUp]
  simp only [pairUp_eq_map, List.getElem_map, getElem_pairMessages level i hi hm, parent_eq_hash]

theorem half_lt_length_pairUp {level : List Digest} {index : Nat} (h : index < level.length) :
    index / 2 < (pairUp level).length := by
  rw [length_pairUp]
  omega

/-- A node climbs with its partner to the node above both. -/
theorem climb_partner (level : List Digest) (index : Nat) (h : index < level.length)
    (hhalf : index / 2 < (pairUp level).length) :
    climb level[index] (partner level index h) = (pairUp level)[index / 2] := by
  rw [getElem_pairUp level (index / 2) (by omega)]
  by_cases heven : index % 2 = 0
  · have hleft : 2 * (index / 2) = index := by omega
    simp only [partner, if_pos heven, climb, hleft]
  · have hleft : 2 * (index / 2) = index - 1 := by omega
    have hright : index - 1 + 1 = index := by omega
    simp only [partner, if_neg heven, climb, hleft, hright, List.getElem?_eq_getElem h,
      Option.getD_some]

/-! ## All levels -/

theorem path_eq_singleton {level : List Digest} {index : Nat} (h : index < level.length)
    (hn : (pairUp level).length = 1) : path level index h = [partner level index h] := by
  rw [path, dif_pos hn]

theorem path_eq_cons {level : List Digest} {index : Nat} (h : index < level.length)
    (hn : 1 < (pairUp level).length) :
    path level index h =
      partner level index h :: path (pairUp level) (index / 2) (half_lt_length_pairUp h) := by
  rw [path, dif_neg (Nat.ne_of_gt hn)]

/-- The proof of a node leads from it to the root. -/
theorem fold_path (level : List Digest) (hne : level ≠ []) (index : Nat)
    (h : index < level.length) : fold level[index] (path level index h) = top level hne := by
  induction level, hne using level_induction generalizing index with
  | last level hne hn =>
    have hhalf := half_lt_length_pairUp h
    have hzero : index / 2 = 0 := by omega
    calc fold level[index] (path level index h)
        = climb level[index] (partner level index h) := by rw [path_eq_singleton h hn]; rfl
      _ = (pairUp level)[index / 2] := climb_partner level index h hhalf
      _ = top level hne := by simp only [hzero, top_eq_getElem hne hn]
  | step level hne hn ih =>
    have hhalf := half_lt_length_pairUp h
    calc fold level[index] (path level index h)
        = fold (climb level[index] (partner level index h))
            (path (pairUp level) (index / 2) hhalf) := by rw [path_eq_cons h hn]; rfl
      _ = fold (pairUp level)[index / 2] (path (pairUp level) (index / 2) hhalf) := by
          rw [climb_partner level index h hhalf]
      _ = top (pairUp level) (pairUp_ne_nil hne) := ih (index / 2) hhalf
      _ = top level hne := (top_eq_top_pairUp hne hn).symm

/-- The proof of a node has a step for each level above it. -/
theorem length_path (level : List Digest) (index : Nat) (h : index < level.length) :
    (path level index h).length = height level.length := by
  have hne : level ≠ [] := List.ne_nil_of_length_pos (Nat.zero_lt_of_lt h)
  induction level, hne using level_induction generalizing index with
  | last level hne hn => rw [path_eq_singleton h hn, height_eq_one hn, List.length_singleton]
  | step level hne hn ih =>
    rw [path_eq_cons h hn, List.length_cons, ih (index / 2) (half_lt_length_pairUp h),
      height_eq_height_pairUp hn]

/-- The partner of a node stands on the left exactly if the node's index is odd. -/
theorem side_partner (level : List Digest) (index : Nat) (h : index < level.length) :
    (if (partner level index h).side = .left then 1 else 0) = index % 2 := by
  unfold partner
  by_cases heven : index % 2 = 0
  · rw [if_pos heven, heven]
    rfl
  · have hodd : index % 2 = 1 := by omega
    rw [if_neg heven, hodd]
    rfl

/-- The proof of a node spells the node's index. -/
theorem position_path (level : List Digest) (index : Nat) (h : index < level.length) :
    position (path level index h) = index := by
  have hne : level ≠ [] := List.ne_nil_of_length_pos (Nat.zero_lt_of_lt h)
  induction level, hne using level_induction generalizing index with
  | last level hne hn =>
    have hlt := half_lt_length_pairUp h
    rw [path_eq_singleton h hn, position, position, side_partner]
    omega
  | step level hne hn ih =>
    rw [path_eq_cons h hn, position, side_partner, ih (index / 2) (half_lt_length_pairUp h)]
    omega

/-! ## Roots and proofs of leaves -/

theorem root_eq_ok {leaves : List Digest} (h : leaves ≠ []) : root leaves = .ok (top leaves h) := by
  rw [root, dif_neg h]

theorem proof_eq_ok {leaves : List Digest} {index : Nat} (h : index < leaves.length) :
    proof leaves index = .ok (path leaves index h) := by
  have hne : leaves ≠ [] := List.ne_nil_of_length_pos (Nat.zero_lt_of_lt h)
  rw [proof, if_neg hne, dif_pos h]

/-- There is no root over no leaves, and over no others. -/
theorem root_eq_error_iff {leaves : List Digest} {rejection : Rejection} :
    root leaves = .error rejection ↔
      leaves = [] ∧ rejection = .unusable "merkle root over zero leaves" := by
  unfold root
  by_cases h : leaves = []
  · rw [dif_pos h, Except.error.injEq, eq_comm, and_iff_right h]
  · rw [dif_neg h]
    simp only [reduceCtorEq, h, false_and]

/-- An index has no proof exactly if no leaf stands there. -/
theorem proof_eq_error_iff {leaves : List Digest} {index : Nat} {rejection : Rejection} :
    proof leaves index = .error rejection ↔
      leaves = [] ∧ rejection = .unusable "merkle proof over zero leaves" ∨
        leaves ≠ [] ∧ leaves.length ≤ index ∧
          rejection =
            .unusable s!"proof index {index} out of range for {leaves.length} leaves" := by
  unfold proof
  by_cases hne : leaves = []
  · simp only [hne, if_true, Except.error.injEq, eq_comm, true_and, ne_eq, not_true_eq_false,
      false_and, or_false]
  · by_cases h : index < leaves.length
    · simp [hne, h]
    · simp [hne, h, Nat.le_of_not_lt h, eq_comm]

/-- Every leaf has a proof that leads from it to the root, and nothing is refused but a root over no
leaves and the proof of an index at which no leaf stands. -/
theorem exists_proof_verify (leaves : List Digest) (index : Nat) :
    (∀ h : index < leaves.length, ∃ r steps, root leaves = .ok r ∧
      proof leaves index = .ok steps ∧ verify r leaves[index] steps = true) ∧
    (∀ rejection, root leaves = .error rejection ↔
      leaves = [] ∧ rejection = .unusable "merkle root over zero leaves") ∧
    (∀ rejection, proof leaves index = .error rejection ↔
      leaves = [] ∧ rejection = .unusable "merkle proof over zero leaves" ∨
        leaves ≠ [] ∧ leaves.length ≤ index ∧
          rejection =
            .unusable s!"proof index {index} out of range for {leaves.length} leaves") := by
  refine ⟨fun h => ?_, fun _ => root_eq_error_iff, fun _ => proof_eq_error_iff⟩
  have hne : leaves ≠ [] := List.ne_nil_of_length_pos (Nat.zero_lt_of_lt h)
  have hfold := fold_path leaves hne index h
  exact ⟨_, _, root_eq_ok hne, proof_eq_ok h, beq_iff_eq.mpr hfold⟩

/-- Five leaves, so that the last node is paired with itself on two levels. -/
def fiveLeaves : List Digest :=
  [.filled 0, .filled 1, .filled 2, .filled 3, .filled 4]

theorem exists_proof_verify_last_of_five :
    4 < fiveLeaves.length ∧ ∃ r steps, root fiveLeaves = .ok r ∧
      proof fiveLeaves 4 = .ok steps ∧ verify r (.filled 4) steps = true :=
  ⟨by decide, (exists_proof_verify fiveLeaves 4).1 (by decide)⟩

end PayrollSeal.Merkle
