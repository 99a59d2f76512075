import PayrollSeal.Merkle.Tree

/-!
# Merkle proofs

A proof lists the partner of the running node on each level, lowest first. The sides of the
partners spell the position of the leaf in binary.
-/

namespace PayrollSeal.Merkle

/-- The side on which a partner stands. -/
inductive Side where
  | left
  | right
deriving DecidableEq

/-- The other side. -/
def Side.flip : Side → Side
  | left => right
  | right => left

/-- One level of a proof: the partner of the running node and its side. -/
structure Step where
  sibling : Digest
  side : Side
deriving DecidableEq

/-- The partner of the node at `index`: the one to its right, or itself at an odd end, for an
even index, and the one to its left for an odd index. -/
def partner (level : List Digest) (index : Nat) (h : index < level.length) : Step :=
  if index % 2 = 0 then ⟨(level[index + 1]?).getD level[index], .right⟩
  else ⟨level[index - 1], .left⟩

/-- The partners on the way from the node at `index` to the top. -/
def path (level : List Digest) (index : Nat) (h : index < level.length) : List Step :=
  if hn : (pairUp level).length = 1 then [partner level index h]
  else partner level index h :: path (pairUp level) (index / 2) (by
    rw [length_pairUp]
    omega)
termination_by level.length
decreasing_by
  rw [length_pairUp] at hn ⊢
  omega

/-- The proof of the leaf at `index`. -/
def proof (leaves : List Digest) (index : Nat) : Except Rejection (List Step) :=
  if leaves = [] then .error (.unusable "merkle proof over zero leaves")
  else if h : index < leaves.length then .ok (path leaves index h)
  else .error (.unusable s!"proof index {index} out of range for {leaves.length} leaves")

/-- The node above a running node and its partner. -/
def climb (node : Digest) (step : Step) : Digest :=
  match step.side with
  | .left => parent step.sibling node
  | .right => parent node step.sibling

/-- The root that a proof leads to from a leaf. -/
def fold (leaf : Digest) (proof : List Step) : Digest :=
  proof.foldl climb leaf

/-- Whether a proof leads from a leaf to a root. -/
def verify (root leaf : Digest) (proof : List Step) : Bool :=
  fold leaf proof == root

/-- Checks a proof whose hashes come as byte strings. The first one of another length than a
hash is named, root and leaf before the partners. -/
def verifyBytes (root leaf : Bytes) (proof : List (Bytes × Side)) : Except Rejection Bool := do
  let root ← Digest.ofBytes "merkle_root" root
  let leaf ← Digest.ofBytes "merkle_leaf" leaf
  let steps ← proof.mapM fun (sibling, side) =>
    return ⟨← Digest.ofBytes "merkle_sibling" sibling, side⟩
  return verify root leaf steps

/-- The position that the sides of a proof spell: a partner on the left of level `k` stands for
`2 ^ k`. Proofs of 64 or more steps spell none. -/
def position? (proof : List Step) : Option UInt64 :=
  if proof.length < 64 then
    some <| proof.zipIdx.foldl (fun sum (step, level) =>
      if step.side = .left then sum + 1 <<< level.toUInt64 else sum) 0
  else none

end PayrollSeal.Merkle
