import PayrollSeal.Proofs.Document.Encodable
import PayrollSeal.Proofs.Statement.Leaves

/-!
# Which statements can be encoded

The leaves of a statement hold the decimals of the document, in the same order
(`Statement.flatMap_decimals_leafLayout`). So the document and the hashes of the leaves are rejected
together, for the first decimal that is too long.
-/

namespace PayrollSeal

/-! ## Decimals -/

/-- The decimals of a pay period in the order of their bytes. -/
def PayPeriod.decimals (doc : PayPeriod) : List Decimal :=
  [doc.worker, doc.employer, doc.amounts.gross, doc.amounts.net, doc.amounts.taxWithheld,
    doc.amounts.fee]

/-- The decimals of a summary in the order of their bytes. -/
def Summary.decimals (doc : Summary) : List Decimal :=
  [doc.worker, doc.employer, doc.totals.gross, doc.totals.net, doc.totals.taxWithheld,
    doc.totals.fee]

namespace Statement

/-- The decimals of a statement in the order of their bytes: the two names and the four amounts. -/
def decimals : Statement → List Decimal
  | payPeriod doc => doc.decimals
  | summary doc => doc.decimals

/-- Why a statement cannot be encoded, if it cannot: its first decimal that is too long. -/
def refusal? (statement : Statement) : Option Rejection :=
  statement.decimals.findSome? Decimal.refusal?

theorem refusal?_eq_none_iff {statement : Statement} :
    statement.refusal? = none ↔ ∀ d ∈ statement.decimals, d.bytes.length ≤ 65535 :=
  Decimal.findSome?_refusal?_eq_none_iff

/-- The leaves hold the decimals of the document, in the same order. -/
theorem flatMap_decimals_leafLayout (statement : Statement) :
    (Leaf.all.flatMap fun leaf => Layout.decimals (statement.leafLayout leaf)) =
      statement.decimals := by
  cases statement <;> rfl

theorem decimals_leafLayout_subset (statement : Statement) (leaf : Leaf) :
    Layout.decimals (statement.leafLayout leaf) ⊆ statement.decimals := by
  intro d hd
  rw [← flatMap_decimals_leafLayout]
  exact List.mem_flatMap.mpr ⟨leaf, leaf.mem_all, hd⟩

/-! ## The document -/

/-- The hash of the document, if no decimal is too long. -/
def digest : Statement → Digest
  | payPeriod doc => Domain.document.hash (Object.bytes .payPeriod doc.layout)
  | summary doc => Domain.document.hash (Object.bytes .summary doc.layout)

theorem docHash_eq (statement : Statement) :
    statement.docHash = statement.refusal?.elim (.ok statement.digest) .error := by
  have hhash : ∀ kind layout, Layout.decimals layout = statement.decimals →
      (do return Domain.document.hash (← Object.ofLayout kind layout)) =
        statement.refusal?.elim (.ok (Domain.document.hash (Object.bytes kind layout))) .error := by
    intro kind layout hdecimals
    rw [Object.ofLayout_eq_of_decimals, hdecimals, refusal?]
    cases statement.decimals.findSome? Decimal.refusal? <;> rfl
  cases statement with
  | payPeriod doc => exact hhash .payPeriod doc.layout rfl
  | summary doc => exact hhash .summary doc.layout rfl

/-! ## The leaves -/

/-- The bytes of a leaf, if none of its decimals is too long. -/
def leafObject (statement : Statement) (leaf : Leaf) : Bytes :=
  Object.bytes statement.leafKind (statement.leafLayout leaf)

/-- The first decimal of a leaf that is too long decides the rejection. -/
theorem leafBytes_eq (statement : Statement) (leaf : Leaf) :
    statement.leafBytes leaf =
      ((Layout.decimals (statement.leafLayout leaf)).findSome? Decimal.refusal?).elim
        (.ok (statement.leafObject leaf)) .error :=
  Object.ofLayout_eq_of_decimals _ _

/-- The hashes of the leaves are rejected exactly as the document is. -/
theorem leafHashes_eq (statement : Statement) :
    statement.leafHashes =
      statement.refusal?.elim (.ok (.ofBytes statement.leafObject)) .error := by
  rw [refusal?, ← flatMap_decimals_leafLayout]
  simp only [Leaf.all, List.flatMap_cons, List.flatMap_nil, List.append_nil,
    List.findSome?_append]
  unfold leafHashes leafHash
  rw [leafBytes_eq, leafBytes_eq, leafBytes_eq]
  -- the first leaf that is rejected is the one that the first long decimal lies in
  cases (Layout.decimals (statement.leafLayout .binding)).findSome? Decimal.refusal? with
  | some rejection => rfl
  | none =>
    cases (Layout.decimals (statement.leafLayout .amounts)).findSome? Decimal.refusal? with
    | some rejection => rfl
    | none =>
      cases (Layout.decimals (statement.leafLayout .provenance)).findSome? Decimal.refusal? <;> rfl

/-- If no decimal is too long, every leaf can be encoded. -/
theorem hasLeaves_leafObject {statement : Statement} (h : statement.refusal? = none) :
    statement.HasLeaves statement.leafObject := by
  intro leaf
  have hleaf : (Layout.decimals (statement.leafLayout leaf)).findSome? Decimal.refusal? = none :=
    Decimal.findSome?_refusal?_eq_none_iff.mpr fun d hd =>
      refusal?_eq_none_iff.mp h d (statement.decimals_leafLayout_subset leaf hd)
  rw [leafBytes_eq, hleaf, Option.elim_none]

/-- A statement has a root only if all of its leaves can be encoded. -/
theorem exists_hasLeaves_of_root_eq_ok {statement : Statement} {r : Digest}
    (h : statement.root = .ok r) : ∃ bytes, statement.HasLeaves bytes := by
  cases hrefusal : statement.refusal? with
  | none => exact ⟨_, hasLeaves_leafObject hrefusal⟩
  | some rejection =>
    unfold root at h
    rw [leafHashes_eq, hrefusal] at h
    cases h

end Statement

end PayrollSeal
