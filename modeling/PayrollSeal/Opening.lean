import PayrollSeal.Statement

/-!
# Openings

An opening carries the bytes of one leaf and the proof that ties it to a root. A verifier learns
that leaf and nothing about the other two. The root inside an opening comes from its sender; only
a root obtained elsewhere says which document was sealed.
-/

namespace PayrollSeal

/-- One opened leaf and its proof. -/
@[ext]
structure Opening where
  leaf : Leaf
  /-- The tag of the leaf's object kind. -/
  kindTag : UInt16
  leafBytes : Bytes
  leafHash : Digest
  proof : List Merkle.Step
  root : Digest
deriving DecidableEq

namespace Opening

/-- The object kind of the leaf, if its tag is known. -/
def kind? (opening : Opening) : Option Object.Kind :=
  Object.Kind.ofTag? opening.kindTag

/-- Whether the header names the kind of a leaf, with the tag and version that it should have. -/
def headerMatches (opening : Opening) : Bool :=
  match Object.header? opening.leafBytes with
  | some (kind, version) =>
    kind.isLeaf && kind.tag == opening.kindTag && version == Object.version
  | none => false

/-- Whether the first chunk names the leaf. -/
def namesLeaf (opening : Opening) : Bool :=
  (opening.leafBytes.drop Object.headerLength).take (Chunk.headerLength + 1) ==
    Chunk.bytes ⟨.u8, [opening.leaf.tag]⟩

/-- Whether an opening is consistent: its bytes are those of the leaf, they have the leaf's hash,
and the proof stands at the leaf's position and leads to the root. -/
def verify (opening : Opening) : Bool :=
  opening.headerMatches && opening.namesLeaf &&
    Domain.leaf.hash opening.leafBytes == opening.leafHash &&
    Merkle.position? opening.proof == some opening.leaf.index.toUInt64 &&
    Merkle.verify opening.root opening.leafHash opening.proof

/-- Whether an opening is consistent and belongs to a root obtained elsewhere. -/
def opens (opening : Opening) (anchoredRoot : Digest) : Bool :=
  opening.root == anchoredRoot && opening.verify

end Opening

end PayrollSeal
