import Mathlib.Algebra.Ring.Nat
import PayrollSeal.Merkle.Proof

/-!
# Positions

The sides of a proof are the binary digits of a number, lowest first, and `position?` computes it
in a word of 64 bits (`position?_eq`).
-/

namespace PayrollSeal.Merkle

/-! ## The number that sides spell -/

/-- The number whose binary digits are the sides of a proof, lowest first; a partner on the left
is a one. -/
def position : List Step → Nat
  | [] => 0
  | step :: rest => (if step.side = .left then 1 else 0) + 2 * position rest

theorem position_lt (proof : List Step) : position proof < 2 ^ proof.length := by
  induction proof with
  | nil => exact Nat.one_pos
  | cons step rest ih =>
    rw [position, List.length_cons, Nat.pow_succ]
    split <;> omega

/-- Proofs of one length that spell one number have the same sides. -/
theorem sides_eq_of_position_eq {p q : List Step} (hlen : p.length = q.length)
    (h : position p = position q) : p.map Step.side = q.map Step.side := by
  induction p generalizing q with
  | nil =>
    obtain rfl : q = [] := List.length_eq_zero_iff.mp hlen.symm
    rfl
  | cons s p ih =>
    obtain ⟨t, q, rfl⟩ := List.exists_cons_of_length_eq_add_one hlen.symm
    obtain ⟨a, side⟩ := s
    obtain ⟨b, side'⟩ := t
    rw [List.length_cons, List.length_cons, Nat.add_right_cancel_iff] at hlen
    simp only [position] at h
    -- the lowest digit is the parity of the number
    have hside : side = side' := by
      cases side <;> cases side' <;> simp at h ⊢ <;> omega
    subst hside
    have hrest : position p = position q := by omega
    rw [List.map_cons, List.map_cons, ih hlen hrest]

theorem position_append (p q : List Step) :
    position (p ++ q) = position p + 2 ^ p.length * position q := by
  induction p with
  | nil => rw [List.nil_append, position, List.length_nil, Nat.pow_zero, Nat.one_mul, Nat.zero_add]
  | cons step rest ih =>
    rw [List.cons_append, position, position, ih, List.length_cons, Nat.pow_succ, Nat.mul_add,
      Nat.add_assoc, Nat.mul_comm _ 2, Nat.mul_assoc]

/-- A proof spells zero exactly if every partner stands on the right. -/
theorem position_eq_zero_iff {proof : List Step} :
    position proof = 0 ↔ proof.map Step.side = List.replicate proof.length .right := by
  induction proof with
  | nil => exact iff_of_true rfl rfl
  | cons step rest ih =>
    rw [position, List.map_cons, List.length_cons, List.replicate_succ, List.cons.injEq, ← ih]
    obtain ⟨_, side⟩ := step
    cases side with
    | left =>
      rw [if_pos rfl]
      exact iff_of_false (by omega) (fun h => Side.noConfusion h.1)
    | right =>
      rw [if_neg (show ¬ Side.right = Side.left by decide), eq_self, true_and]
      omega

/-- A shift of one is a power of two. -/
theorem one_shiftLeft {level : Nat} (h : level < 64) :
    (1 : UInt64) <<< level.toUInt64 = (2 ^ level).toUInt64 := by
  have hpow : 2 ^ level < 2 ^ 64 := Nat.pow_lt_pow_right Nat.one_lt_two h
  apply UInt64.toNat_inj.mp
  rw [UInt64.toNat_shiftLeft]
  simp only [Nat.toUInt64_eq, UInt64.toNat_ofNat', UInt64.toNat_one]
  rw [Nat.one_shiftLeft, Nat.mod_eq_of_lt (show level < 2 ^ 64 by omega), Nat.mod_eq_of_lt h]

private theorem foldl_zipIdx_eq (proof : List Step) (level : Nat) (sum : UInt64)
    (h : level + proof.length ≤ 64) :
    (proof.zipIdx level).foldl (fun sum (step, level) =>
      if step.side = .left then sum + 1 <<< level.toUInt64 else sum) sum =
      sum + (2 ^ level * position proof).toUInt64 := by
  induction proof generalizing level sum with
  | nil => simp [position]
  | cons step rest ih =>
    rw [List.length_cons] at h
    -- the rest of the proof counts from the next level on, so its number is doubled once more
    rw [List.zipIdx_cons, List.foldl_cons, ih (level + 1) _ (by omega), position]
    dsimp only
    by_cases hs : step.side = .left
    · rw [if_pos hs, if_pos hs, one_shiftLeft (by omega), UInt64.add_assoc]
      simp only [Nat.toUInt64_eq, ← UInt64.ofNat_add]
      congr 2
      rw [Nat.pow_succ, Nat.mul_add, Nat.mul_one, Nat.mul_assoc]
    · rw [if_neg hs, if_neg hs]
      congr 2
      rw [Nat.pow_succ, Nat.zero_add, Nat.mul_assoc]

/-- Proofs of fewer than 64 steps spell the number of their sides, and longer ones none. -/
theorem position?_eq (proof : List Step) :
    position? proof = if proof.length < 64 then some (position proof).toUInt64 else none := by
  unfold position?
  split
  · next h =>
    rw [foldl_zipIdx_eq proof 0 0 (by omega), Nat.pow_zero, Nat.one_mul, UInt64.zero_add]
  · rfl

/-- A proof stands at a position if it has fewer than 64 steps and its sides spell it. -/
theorem position?_eq_some_iff {proof : List Step} {n : Nat} (hn : n < 2 ^ 64) :
    position? proof = some n.toUInt64 ↔ proof.length < 64 ∧ position proof = n := by
  rw [position?_eq]
  by_cases h : proof.length < 64
  · have hlt : position proof < 2 ^ 64 :=
      Nat.lt_trans (position_lt proof) (Nat.pow_lt_pow_right Nat.one_lt_two h)
    rw [if_pos h, Option.some_inj]
    constructor
    · intro heq
      have hnat := congrArg UInt64.toNat heq
      simp only [Nat.toUInt64_eq, UInt64.toNat_ofNat'] at hnat
      rw [Nat.mod_eq_of_lt hlt, Nat.mod_eq_of_lt hn] at hnat
      exact ⟨h, hnat⟩
    · rintro ⟨-, rfl⟩
      rfl
  · rw [if_neg h]
    exact ⟨fun heq => (Option.some_ne_none _ heq.symm).elim, fun heq => (h heq.1).elim⟩

end PayrollSeal.Merkle
