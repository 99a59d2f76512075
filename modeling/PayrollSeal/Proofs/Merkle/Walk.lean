import PayrollSeal.Proofs.Merkle.Completeness

/-!
# The walk up a tree

The root and the proofs of a tree come from reducing its leaves level by level. This file says what
stands on level `k` (`levelAt`), how many reductions lead to the root (`levelAt_height`), and from
which level and index each step of a proof is taken (`getElem_path`). The sides of the steps are the
bits of the index, and they are read back in words that no sum outgrows.
-/

namespace PayrollSeal.Merkle

/-! ## Levels -/

/-- What is left of a level after `k` reductions. -/
def levelAt (level : List Digest) (k : Nat) : List Digest :=
  pairUp^[k] level

theorem levelAt_succ (level : List Digest) (k : Nat) :
    levelAt level (k + 1) = levelAt (pairUp level) k := rfl

/-- The index that is left of one in range is in range on its level. -/
theorem index_lt_length_levelAt {level : List Digest} {index : Nat} (h : index < level.length)
    (k : Nat) : index / 2 ^ k < (levelAt level k).length := by
  induction k generalizing level index with
  | zero =>
    rw [Nat.pow_zero, Nat.div_one]
    exact h
  | succ k ih =>
    rw [levelAt_succ, Nat.pow_succ', ← Nat.div_div_eq_div_mul]
    exact ih (half_lt_length_pairUp h)

/-- As many reductions as the tree is high leave the root alone. -/
theorem levelAt_height (level : List Digest) (hne : level ≠ []) :
    levelAt level (height level.length) = [top level hne] := by
  induction level, hne using level_induction with
  | last level hne hn =>
    obtain ⟨node, hnode⟩ := List.length_eq_one_iff.mp hn
    have hlevel : levelAt level 1 = pairUp level := rfl
    rw [height_eq_one hn, top_eq_getElem hne hn, hlevel]
    simp only [hnode, List.getElem_cons_zero]
  | step level hne hn ih =>
    rw [height_eq_height_pairUp hn, levelAt_succ, ih, top_eq_top_pairUp hne hn]

/-- Fewer reductions, but at least one, leave more than one node. -/
theorem one_lt_length_levelAt (level : List Digest) (hne : level ≠ []) {k : Nat} (hpos : 0 < k)
    (hk : k < height level.length) : 1 < (levelAt level k).length := by
  induction level, hne using level_induction generalizing k with
  | last level hne hn =>
    rw [height_eq_one hn] at hk
    omega
  | step level hne hn ih =>
    obtain ⟨k, rfl⟩ : ∃ j, k = j + 1 := ⟨k - 1, by omega⟩
    rw [height_eq_height_pairUp hn] at hk
    rw [levelAt_succ]
    by_cases hzero : k = 0
    · subst hzero
      exact hn
    · exact ih (by omega) (by omega)

/-! ## Steps -/

/-- Step `k` of a proof is the partner, on the level after `k` reductions, of the index halved as
often. -/
theorem getElem_path (level : List Digest) (index : Nat) (h : index < level.length) (k : Nat)
    (hk : k < (path level index h).length) :
    (path level index h)[k] =
      partner (levelAt level k) (index / 2 ^ k) (index_lt_length_levelAt h k) := by
  have hne : level ≠ [] := List.ne_nil_of_length_pos (Nat.zero_lt_of_lt h)
  induction level, hne using level_induction generalizing index k with
  | last level hne hn =>
    simp only [path_eq_singleton h hn, List.length_singleton, Nat.lt_one_iff] at hk
    subst hk
    simp only [path_eq_singleton h hn, List.getElem_cons_zero, Nat.pow_zero, Nat.div_one]
    rfl
  | step level hne hn ih =>
    cases k with
    | zero =>
      simp only [path_eq_cons h hn, List.getElem_cons_zero, Nat.pow_zero, Nat.div_one]
      rfl
    | succ k =>
      simp only [path_eq_cons h hn, List.getElem_cons_succ]
      rw [ih (index / 2) (half_lt_length_pairUp h)]
      simp only [levelAt_succ, Nat.pow_succ', Nat.div_div_eq_div_mul]

/-! ## Bits -/

/-- The bits of a position are the sides of its proof. -/
theorem testBit_position (proof : List Step) (k : Nat) :
    (position proof).testBit k = true ↔ proof[k]?.map Step.side = some .left := by
  induction proof generalizing k with
  | nil => simp [position]
  | cons step rest ih =>
    rw [position]
    cases k with
    | zero =>
      rw [Nat.testBit_zero]
      by_cases hs : step.side = .left <;> simp [hs]
    | succ k =>
      have hhalf : ((if step.side = .left then 1 else 0) + 2 * position rest) / 2 =
          position rest := by
        split <;> omega
      rw [Nat.testBit_succ, hhalf, ih, List.getElem?_cons_succ]

/-- A step stands on the left exactly if its bit of the index is one. -/
theorem side_getElem_path (level : List Digest) (index : Nat) (h : index < level.length) (k : Nat)
    (hk : k < (path level index h).length) :
    (path level index h)[k].side = .left ↔ index.testBit k = true := by
  have hbit := testBit_position (path level index h) k
  rw [position_path, List.getElem?_eq_getElem hk, Option.map_some, Option.some_inj] at hbit
  exact hbit.symm

/-! ## Words -/

/-- Only proofs of 64 or more steps have no position. -/
theorem position?_eq_none_iff {proof : List Step} :
    position? proof = none ↔ 64 ≤ proof.length := by
  rw [position?_eq]
  split
  · next h => exact iff_of_false (Option.some_ne_none _) (Nat.not_le.mpr h)
  · next h => exact iff_of_true rfl (Nat.le_of_not_lt h)

/-- A word holds the number of the sides. -/
theorem exists_position?_eq (proof : List Step) (h : proof.length < 64) :
    ∃ w, position? proof = some w ∧ w.toNat = position proof := by
  have hlt : position proof < 2 ^ 64 :=
    Nat.lt_trans (position_lt proof) (Nat.pow_lt_pow_right Nat.one_lt_two h)
  exact ⟨_, (position?_eq_some_iff hlt).mpr ⟨h, rfl⟩, UInt64.toNat_ofNat_of_lt' hlt⟩

/-- The bits of the word are the sides. -/
theorem testBit_of_position?_eq {proof : List Step} {w : UInt64} (hw : position? proof = some w)
    (k : Nat) : w.toNat.testBit k = true ↔ proof[k]?.map Step.side = some .left := by
  have hshort : proof.length < 64 := by
    by_contra hlong
    rw [position?_eq_none_iff.mpr (Nat.le_of_not_lt hlong)] at hw
    cases hw
  obtain ⟨v, hv, hnat⟩ := exists_position?_eq proof hshort
  obtain rfl : v = w := Option.some_inj.mp (hv.symm.trans hw)
  rw [hnat]
  exact testBit_position proof k

/-- Each step adds a shift to the sum over the steps before it, or leaves it as it is, and neither
the shift nor the sum outgrows a word. -/
theorem exists_sum_of_take {proof : List Step} {k : Nat} (hk : k < proof.length)
    (h : proof.length < 64) :
    ∃ sum, position? (proof.take k) = some sum ∧
      position? (proof.take (k + 1)) =
        some (if proof[k].side = .left then sum + 1 <<< k.toUInt64 else sum) ∧
      ((1 : UInt64) <<< k.toUInt64).toNat = 2 ^ k ∧ sum.toNat + 2 ^ k < 2 ^ 64 := by
  have hlen : (proof.take k).length = k := List.length_take_of_le (Nat.le_of_lt hk)
  obtain ⟨sum, hsum, hnat⟩ := exists_position?_eq (proof.take k) (by omega)
  have hlt : position (proof.take k) < 2 ^ k := by
    have := position_lt (proof.take k)
    rwa [hlen] at this
  have hpow : 2 ^ (k + 1) < 2 ^ 64 := Nat.pow_lt_pow_right Nat.one_lt_two (by omega)
  refine ⟨sum, hsum, ?_, ?_, ?_⟩
  · have hsucc : k + [proof[k]].length < 64 := Nat.lt_of_le_of_lt hk h
    unfold position? at hsum ⊢
    rw [hlen, if_pos (Nat.lt_trans hk h), Option.some_inj] at hsum
    rw [← List.take_append_getElem hk, List.zipIdx_append, List.foldl_append, hsum, hlen,
      List.length_append, hlen, if_pos hsucc, Nat.zero_add]
    rfl
  · rw [one_shiftLeft (by omega)]
    exact UInt64.toNat_ofNat_of_lt' (Nat.pow_lt_pow_right Nat.one_lt_two (Nat.lt_trans hk h))
  · rw [hnat]
    omega

/-! ## Roots, proofs and positions -/

/-- The tree over `n` leaves is reduced `max 1 ⌈log₂ n⌉` times, and no fewer reductions leave one
node. The proof of a leaf has as many steps: step `k` is the partner of the index halved `k` times,
which is in range after `k` reductions, and it stands on the left exactly if bit `k` of the index is
one. A position reads the index back from up to `2 ^ 63` leaves. All proofs but those of 64 or more
steps have one: its bits are the sides, and it is summed up step by step within a word. -/
theorem proof_walks_levels_and_spells_index (leaves : List Digest) :
    (leaves ≠ [] →
      (∃ r, root leaves = .ok r ∧ levelAt leaves (max 1 (Nat.clog 2 leaves.length)) = [r]) ∧
      ∀ k, 0 < k → k < max 1 (Nat.clog 2 leaves.length) → 1 < (levelAt leaves k).length) ∧
    (∀ index, index < leaves.length → ∃ steps, proof leaves index = .ok steps ∧
      steps.length = max 1 (Nat.clog 2 leaves.length) ∧
      (∀ k (hk : k < steps.length), ∃ hi : index / 2 ^ k < (levelAt leaves k).length,
        steps[k] = partner (levelAt leaves k) (index / 2 ^ k) hi ∧
        (steps[k].side = .left ↔ index.testBit k = true)) ∧
      (leaves.length ≤ 2 ^ 63 → ∃ w, position? steps = some w ∧ w.toNat = index)) ∧
    ∀ steps : List Step,
      (position? steps = none ↔ 64 ≤ steps.length) ∧
      (∀ w, position? steps = some w → ∀ k,
        w.toNat.testBit k = true ↔ steps[k]?.map Step.side = some .left) ∧
      ∀ k (hk : k < steps.length), steps.length < 64 →
        ∃ sum, position? (steps.take k) = some sum ∧
          position? (steps.take (k + 1)) =
            some (if steps[k].side = .left then sum + 1 <<< k.toUInt64 else sum) ∧
          ((1 : UInt64) <<< k.toUInt64).toNat = 2 ^ k ∧ sum.toNat + 2 ^ k < 2 ^ 64 := by
  refine ⟨fun hne => ⟨⟨_, root_eq_ok hne, levelAt_height leaves hne⟩, fun k =>
    one_lt_length_levelAt leaves hne⟩, fun index h => ?_, fun steps =>
      ⟨position?_eq_none_iff, fun w => testBit_of_position?_eq, fun k => exists_sum_of_take⟩⟩
  have hlen : (path leaves index h).length = max 1 (Nat.clog 2 leaves.length) :=
    length_path leaves index h
  refine ⟨_, proof_eq_ok h, hlen, fun k hk => ⟨index_lt_length_levelAt h k,
    getElem_path leaves index h k hk, side_getElem_path leaves index h k hk⟩, fun hsize => ?_⟩
  have hclog : Nat.clog 2 leaves.length ≤ 63 := Nat.clog_le_of_le_pow hsize
  obtain ⟨w, hw, hnat⟩ := exists_position?_eq (path leaves index h) (by omega)
  exact ⟨w, hw, hnat.trans (position_path leaves index h)⟩

/-- The last of five leaves is three levels below the root, paired with itself on two of them. -/
theorem proof_walks_levels_of_five :
    fiveLeaves ≠ [] ∧ 4 < fiveLeaves.length ∧ fiveLeaves.length ≤ 2 ^ 63 ∧
      1 < (levelAt fiveLeaves 2).length ∧
      ∃ steps : List Step, proof fiveLeaves 4 = .ok steps ∧ steps.length = 3 ∧
        (∃ step, steps[2]? = some step ∧ step.side = .left) ∧
        (∃ w, position? steps = some w ∧ w.toNat = 4) ∧
        ∃ sum, position? (steps.take 2) = some sum ∧ sum.toNat + 2 ^ 2 < 2 ^ 64 := by
  have hclog : max 1 (Nat.clog 2 fiveLeaves.length) = 3 := by decide
  obtain ⟨hroot, hproof, hposition⟩ := proof_walks_levels_and_spells_index fiveLeaves
  obtain ⟨-, hlevels⟩ := hroot (by decide)
  obtain ⟨steps, hsteps, hlen, hwalk, hindex⟩ := hproof 4 (by decide)
  rw [hclog] at hlevels hlen
  obtain ⟨-, -, hside⟩ := hwalk 2 (by omega)
  obtain ⟨sum, hsum, -, -, hlt⟩ := (hposition steps).2.2 2 (by omega) (by omega)
  exact ⟨by decide, by decide, by decide, hlevels 2 (by decide) (by decide), steps, hsteps, hlen,
    ⟨_, List.getElem?_eq_getElem (by omega), hside.mpr (by decide)⟩, hindex (by decide), sum, hsum,
    hlt⟩

end PayrollSeal.Merkle
