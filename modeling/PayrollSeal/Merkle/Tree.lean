import PayrollSeal.Domain

/-!
# Merkle trees

Each level pairs adjacent nodes from the left, and an odd last node is paired with itself. The
reduction runs at least once, so the root of a single leaf is the parent of the leaf and itself.
-/

namespace PayrollSeal.Merkle

/-- The parent of two nodes. -/
def parent (left right : Digest) : Digest :=
  Domain.merkleNode.hashParts [left.bytes, right.bytes]

/-- The level above a level. -/
def pairUp : List Digest → List Digest
  | [] => []
  | [last] => [parent last last]
  | left :: right :: rest => parent left right :: pairUp rest

theorem length_pairUp (level : List Digest) :
    (pairUp level).length = (level.length + 1) / 2 := by
  fun_induction pairUp level with
  | case1 => simp
  | case2 => simp
  | case3 left right rest ih =>
    simp only [List.length_cons, ih]
    omega

/-- The top of the tree over a level, reached by at least one reduction. -/
def top (level : List Digest) (h : level ≠ []) : Digest :=
  match hn : pairUp level with
  | [] => level.head h
  | [root] => root
  | left :: right :: rest => top (left :: right :: rest) (by simp)
termination_by level.length
decreasing_by
  have hl := length_pairUp level
  simp only [hn, List.length_cons] at hl ⊢
  omega

/-- The root over leaves in the given order. -/
def root (leaves : List Digest) : Except Rejection Digest :=
  if h : leaves = [] then .error (.unusable "merkle root over zero leaves")
  else .ok (top leaves h)

end PayrollSeal.Merkle
