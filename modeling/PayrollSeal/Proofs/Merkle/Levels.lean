import Mathlib.Data.Nat.Log
import PayrollSeal.Proofs.Merkle.Messages

/-!
# Levels of a tree

A level is halved, with an odd last node paired with itself, until one node is left. This file
has the induction over the levels, the number of levels above `n` nodes (`height`) and the
children of each node.
-/

namespace PayrollSeal.Merkle

/-! ## From one level to the next -/

theorem pairUp_ne_nil {level : List Digest} (h : level ≠ []) : pairUp level ≠ [] := by
  have hpos : 0 < level.length := List.length_pos_iff.mpr h
  rw [← List.length_pos_iff, length_pairUp]
  omega

theorem top_eq_getElem {level : List Digest} (h : level ≠ []) (hn : (pairUp level).length = 1) :
    top level h = (pairUp level)[0] := by
  rw [top]
  split
  · next hp => exact (pairUp_ne_nil h hp).elim
  · next root hp => simp only [hp, List.getElem_cons_zero]
  · next left right rest hp => simp [hp] at hn

theorem top_eq_top_pairUp {level : List Digest} (h : level ≠ [])
    (hn : 1 < (pairUp level).length) : top level h = top (pairUp level) (pairUp_ne_nil h) := by
  rw [top]
  split
  · next hp => exact (pairUp_ne_nil h hp).elim
  · next root hp => simp [hp] at hn
  · next left right rest hp => simp only [hp]

/-- Induction over the levels of a tree: from the level below the root downwards. -/
@[elab_as_elim]
theorem level_induction {motive : (level : List Digest) → level ≠ [] → Prop}
    (last : ∀ level h, (pairUp level).length = 1 → motive level h)
    (step : ∀ level h, 1 < (pairUp level).length → motive (pairUp level) (pairUp_ne_nil h) →
      motive level h) (level : List Digest) (h : level ≠ []) : motive level h := by
  have hpos : 0 < (pairUp level).length := List.length_pos_iff.mpr (pairUp_ne_nil h)
  by_cases hn : (pairUp level).length = 1
  · exact last level h hn
  · exact step level h (by omega) (level_induction last step (pairUp level) (pairUp_ne_nil h))
termination_by level.length
decreasing_by
  rw [length_pairUp] at *
  omega

/-! ## Heights -/

/-- The number of levels above `n` nodes: one more for each doubling, and at least one. -/
def height (n : Nat) : Nat :=
  max 1 (Nat.clog 2 n)

theorem height_of_le_two {n : Nat} (h : n ≤ 2) : height n = 1 := by
  have hc : Nat.clog 2 n ≤ 1 := Nat.clog_le_of_le_pow (by omega)
  rw [height]
  omega

theorem height_eq_succ {n : Nat} (h : 2 < n) : height n = height ((n + 1) / 2) + 1 := by
  have hc : Nat.clog 2 n = Nat.clog 2 ((n + 1) / 2) + 1 := Nat.clog_of_two_le Nat.one_lt_two h.le
  have hpos : 0 < Nat.clog 2 ((n + 1) / 2) := Nat.clog_pos Nat.one_lt_two (by omega)
  rw [height, height]
  omega

theorem height_eq_one {level : List Digest} (hn : (pairUp level).length = 1) :
    height level.length = 1 := by
  rw [length_pairUp] at hn
  exact height_of_le_two (by omega)

theorem height_eq_height_pairUp {level : List Digest} (hn : 1 < (pairUp level).length) :
    height level.length = height (pairUp level).length + 1 := by
  rw [length_pairUp] at hn ⊢
  exact height_eq_succ (by omega)

/-! ## Children -/

theorem length_pairMessages (level : List Digest) :
    (pairMessages level).length = (level.length + 1) / 2 := by
  rw [← length_pairUp, pairUp_eq_map, List.length_map]

/-- The children of the node at `i`: the left one is at `2 * i`, and it stands for the right one
at an odd end. -/
theorem getElem_pairMessages (level : List Digest) (i : Nat) (hi : 2 * i < level.length)
    (h : i < (pairMessages level).length) :
    (pairMessages level)[i] =
      parentMessage level[2 * i] ((level[2 * i + 1]?).getD level[2 * i]) := by
  fun_induction pairMessages level generalizing i with
  | case1 => exact (Nat.not_lt_zero _ hi).elim
  | case2 last =>
    obtain rfl : i = 0 := by
      rw [List.length_singleton] at hi
      omega
    rfl
  | case3 left right rest ih =>
    cases i with
    | zero => rfl
    | succ i =>
      rw [List.length_cons, List.length_cons] at hi
      exact ih i (by omega) (Nat.lt_of_succ_lt_succ h)

/-! ## Three leaves -/

/-- The tree over three leaves pairs the last of them with itself. -/
theorem top_three (a b c : Digest) (h : [a, b, c] ≠ []) :
    top [a, b, c] h = parent (parent a b) (parent c c) := by
  have hlen : 1 < (pairUp [a, b, c]).length := Nat.one_lt_two
  rw [top_eq_top_pairUp h hlen, top_eq_getElem _ rfl]
  rfl

theorem treeMessages_three (a b c : Digest) :
    treeMessages [a, b, c] =
      [parentMessage a b, parentMessage c c, parentMessage (parent a b) (parent c c)] := by
  have hlen : ¬ (pairUp [a, b, c]).length ≤ 1 := Nat.not_le.mpr Nat.one_lt_two
  have hlen' : (pairUp (pairUp [a, b, c])).length ≤ 1 := Nat.le_refl 1
  rw [treeMessages, if_neg hlen, treeMessages, if_pos hlen']
  rfl

end PayrollSeal.Merkle
