import PayrollSeal.Document.Encode
import PayrollSeal.Merkle.Proof

/-!
# Statements and their leaves

A pay period or a summary is a statement: it splits into three leaves, which can be opened one at
a time. Each leaf repeats the agreement and the period so that it stands alone. The root of a
statement is the Merkle root over the hashes of its leaves.
-/

namespace PayrollSeal

/-- The part of a statement that a leaf holds. -/
inductive Leaf where
  /-- The names and the period. -/
  | binding
  /-- The currency and the amounts. -/
  | amounts
  /-- Input hashes and anchors. -/
  | provenance
deriving DecidableEq

namespace Leaf

/-- Every leaf, in tree order. -/
def all : List Leaf := [binding, amounts, provenance]

/-- The tag written for a leaf. -/
def tag : Leaf → UInt8
  | binding => 1
  | amounts => 2
  | provenance => 3

/-- The leaf with a tag. -/
def ofTag? (tag : UInt8) : Option Leaf :=
  all.find? (·.tag == tag)

/-- The position of a leaf in the tree. -/
def index : Leaf → Nat
  | binding => 0
  | amounts => 1
  | provenance => 2

/-- The name of a leaf in messages. -/
def name : Leaf → String
  | binding => "Binding"
  | amounts => "Amounts"
  | provenance => "Provenance"

end Leaf

/-- The hashes of a statement's leaves. -/
structure LeafHashes where
  binding : Digest
  amounts : Digest
  provenance : Digest
deriving DecidableEq

namespace LeafHashes

/-- The hash of one leaf. -/
def get (hashes : LeafHashes) : Leaf → Digest
  | .binding => hashes.binding
  | .amounts => hashes.amounts
  | .provenance => hashes.provenance

/-- The hashes in tree order. -/
def toList (hashes : LeafHashes) : List Digest :=
  [hashes.binding, hashes.amounts, hashes.provenance]

end LeafHashes

/-- The fields of a pay period's leaf in the order of their bytes. -/
def PayPeriod.leafLayout (doc : PayPeriod) (leaf : Leaf) : Layout :=
  [.u8 leaf.tag, .hash doc.agreement, .u32 doc.epoch] ++
    match leaf with
    | .binding => [.element doc.worker, .element doc.employer]
    | .amounts => [.u8 doc.currency, .amounts doc.amounts]
    | .provenance =>
      [.hash doc.inputsHash, .anchor doc.receipt, .anchor doc.audit, .hash doc.timeHash]

/-- The fields of a summary's leaf in the order of their bytes. -/
def Summary.leafLayout (doc : Summary) (leaf : Leaf) : Layout :=
  [.u8 leaf.tag, .hash doc.agreement, .u8 doc.period.kind.tag] ++
    match leaf with
    | .binding =>
      [.u32 doc.period.start, .u32 doc.period.stop, .element doc.worker, .element doc.employer]
    | .amounts => [.u8 doc.currency, .amounts doc.totals]
    | .provenance => [.hash doc.inputsHash, .anchor doc.audit]

/-- A document that splits into leaves. -/
inductive Statement where
  | payPeriod (doc : PayPeriod)
  | summary (doc : Summary)
deriving DecidableEq

/-- The statement that a document is, if it has leaves. -/
def Document.statement? : Document → Option Statement
  | payPeriod doc => some (.payPeriod doc)
  | summary doc => some (.summary doc)
  | inputs _ => none

namespace Statement

def versions : Statement → Versions
  | payPeriod doc => doc.versions
  | summary doc => doc.versions

def agreement : Statement → Digest
  | payPeriod doc => doc.agreement
  | summary doc => doc.agreement

/-- The hash of the whole document. -/
def docHash : Statement → Except Rejection Digest
  | payPeriod doc => doc.hash
  | summary doc => doc.hash

/-- The kind of object that every leaf is written as. -/
def leafKind : Statement → Object.Kind
  | payPeriod _ => .payPeriodLeaf
  | summary _ => .summaryLeaf

/-- The fields of a leaf in the order of their bytes. -/
def leafLayout : Statement → Leaf → Layout
  | payPeriod doc => doc.leafLayout
  | summary doc => doc.leafLayout

/-- The bytes of a leaf. -/
def leafBytes (statement : Statement) (leaf : Leaf) : Except Rejection Bytes :=
  Object.ofLayout statement.leafKind (statement.leafLayout leaf)

/-- The hash of a leaf. -/
def leafHash (statement : Statement) (leaf : Leaf) : Except Rejection Digest :=
  return Domain.leaf.hash (← statement.leafBytes leaf)

/-- The hashes of all leaves; the first leaf that cannot be encoded decides the error. -/
def leafHashes (statement : Statement) : Except Rejection LeafHashes :=
  return ⟨← statement.leafHash .binding, ← statement.leafHash .amounts,
    ← statement.leafHash .provenance⟩

/-- The Merkle root over the leaves. -/
def root (statement : Statement) : Except Rejection Digest := do
  Merkle.root (← statement.leafHashes).toList

/-- The proof of a leaf. -/
def proof (statement : Statement) (leaf : Leaf) : Except Rejection (List Merkle.Step) := do
  Merkle.proof (← statement.leafHashes).toList leaf.index

end Statement

end PayrollSeal
