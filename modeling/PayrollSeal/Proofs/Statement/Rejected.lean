import PayrollSeal.Proofs.Merkle.Completeness
import PayrollSeal.Proofs.Statement.Encodable
import PayrollSeal.Reference

/-!
# Documents and leaves are rejected together

Each leaf is rejected for its own decimals alone: the first leaf for the names, the second one for
the amounts, the third one never. Whatever is made of all leaves is rejected for the first decimal
of the whole statement that is too long, as the document is
(`Statement.encode_and_leaves_rejected_together`).
-/

namespace PayrollSeal

theorem isOk_elim_iff {ε α : Type} {refusal? : Option ε} {value : α} :
    (refusal?.elim (.ok value) .error : Except ε α).isOk ↔ refusal? = none := by
  cases refusal? with
  | none => exact iff_of_true rfl rfl
  | some refusal => exact iff_of_false Bool.false_ne_true (Option.some_ne_none refusal)

theorem isOk_bind {ε α β : Type} {answer : Except ε α} {next : α → Except ε β}
    (hnext : ∀ value, (next value).isOk) : (answer >>= next).isOk = answer.isOk := by
  cases answer with
  | ok value => exact hnext value
  | error refusal => rfl

/-! ## Decimals -/

namespace Decimal

/-- The first decimal that is too long decides the rejection. -/
theorem findSome?_refusal?_eq_some_iff {decimals : List Decimal} {rejection : Rejection} :
    decimals.findSome? refusal? = some rejection ↔
      ∃ d, decimals.find? (65535 < ·.bytes.length) = some d ∧
        rejection = .outOfRange "tlv_length" d.bytes.length 16 := by
  induction decimals with
  | nil => simp only [List.findSome?_nil, List.find?_nil, reduceCtorEq, false_and, exists_false]
  | cons d decimals ih =>
    rw [List.findSome?_cons, List.find?_cons, refusal?_eq]
    by_cases h : d.bytes.length ≤ 65535
    · simp only [h, if_true, Nat.not_lt.mpr h, decide_false, ih]
    · simp only [h, if_false, Nat.lt_of_not_le h, decide_true, Option.some.injEq,
        exists_eq_left', eq_comm]

/-- The decimal of `n + 1` digits `1`. -/
def repunit (n : Nat) : Decimal where
  digits := List.replicate (n + 1) '1'
  isCanonical := by
    refine ⟨List.cons_ne_nil _ _, List.all_replicate.trans ?_, fun h => ?_⟩
    · rfl
    · rw [List.replicate_succ, List.head?_cons, Option.some.injEq] at h
      exact absurd h (by decide)

theorem length_bytes_repunit (n : Nat) : (repunit n).bytes.length = n + 1 := by
  rw [length_bytes, repunit, List.length_replicate]

end Decimal

namespace Statement

/-- The document that a statement is. -/
def document : Statement → Document
  | payPeriod doc => .payPeriod doc
  | summary doc => .summary doc

/-- The hashes of the worker's and of the employer's name. -/
def names : Statement → List Decimal
  | payPeriod doc => [doc.worker, doc.employer]
  | summary doc => [doc.worker, doc.employer]

/-- Gross, net, tax and fee. -/
def sums : Statement → List Decimal
  | payPeriod doc =>
    [doc.amounts.gross, doc.amounts.net, doc.amounts.taxWithheld, doc.amounts.fee]
  | summary doc =>
    [doc.totals.gross, doc.totals.net, doc.totals.taxWithheld, doc.totals.fee]

variable (statement : Statement)

theorem decimals_eq : statement.decimals = statement.names ++ statement.sums := by
  cases statement <;> rfl

/-- The first leaf holds the names, the second one the amounts, and the third one no decimals. -/
theorem decimals_leafLayout (leaf : Leaf) :
    Layout.decimals (statement.leafLayout leaf) =
      match leaf with
      | .binding => statement.names
      | .amounts => statement.sums
      | .provenance => [] := by
  cases statement <;> cases leaf <;> rfl

/-! ## The document -/

/-- The canonical bytes of the document, if no decimal is too long. -/
def bytes : Statement → Bytes
  | payPeriod doc => Object.bytes .payPeriod doc.layout
  | summary doc => Object.bytes .summary doc.layout

theorem encode_document_eq :
    statement.document.encode = statement.refusal?.elim (.ok statement.bytes) .error := by
  cases statement with
  | payPeriod doc => exact Object.ofLayout_eq_of_decimals .payPeriod doc.layout
  | summary doc => exact Object.ofLayout_eq_of_decimals .summary doc.layout

theorem isOk_encode_document_iff :
    statement.document.encode.isOk ↔
      ∀ d ∈ statement.names ++ statement.sums, d.bytes.length ≤ 65535 := by
  rw [encode_document_eq, isOk_elim_iff, refusal?_eq_none_iff, decimals_eq]

theorem encode_document_eq_error_iff (rejection : Rejection) :
    statement.document.encode = .error rejection ↔
      ∃ d, (statement.names ++ statement.sums).find? (65535 < ·.bytes.length) = some d ∧
        rejection = .outOfRange "tlv_length" d.bytes.length 16 := by
  rw [encode_document_eq, elim_eq_error_iff, refusal?, decimals_eq,
    Decimal.findSome?_refusal?_eq_some_iff]

/-! ## The leaves -/

theorem isOk_leafBytes_iff (leaf : Leaf) :
    (statement.leafBytes leaf).isOk ↔
      ∀ d ∈ Layout.decimals (statement.leafLayout leaf), d.bytes.length ≤ 65535 := by
  rw [leafBytes_eq, isOk_elim_iff, Decimal.findSome?_refusal?_eq_none_iff]

/-- The document can be encoded exactly if every leaf can. -/
theorem isOk_encode_document_iff_leafBytes :
    statement.document.encode.isOk ↔ ∀ leaf, (statement.leafBytes leaf).isOk := by
  rw [encode_document_eq, isOk_elim_iff, refusal?_eq_none_iff, ← flatMap_decimals_leafLayout]
  simp only [isOk_leafBytes_iff, List.mem_flatMap, Leaf.mem_all, true_and]
  exact ⟨fun h leaf d hd => h d ⟨leaf, hd⟩, fun h d ⟨leaf, hd⟩ => h leaf d hd⟩

/-! ## The tree -/

theorem isOk_leafHashes : statement.leafHashes.isOk = statement.document.encode.isOk := by
  rw [leafHashes_eq, encode_document_eq]
  cases statement.refusal? <;> rfl

/-- Hashes of leaves always have a root. -/
theorem isOk_root : statement.root.isOk = statement.document.encode.isOk := by
  rw [← isOk_leafHashes, root]
  apply isOk_bind
  intro hashes
  rw [Merkle.root_eq_ok hashes.toList_ne_nil]
  rfl

/-- Hashes of leaves always have a proof of each leaf. -/
theorem isOk_proof (leaf : Leaf) :
    (statement.proof leaf).isOk = statement.document.encode.isOk := by
  rw [← isOk_leafHashes, proof]
  apply isOk_bind
  intro hashes
  rw [Merkle.proof_eq_ok (show leaf.index < hashes.toList.length from leaf.index_lt)]
  rfl

theorem leafHashes_eq_error_iff (rejection : Rejection) :
    statement.leafHashes = .error rejection ↔ statement.document.encode = .error rejection := by
  rw [leafHashes_eq, encode_document_eq, elim_eq_error_iff, elim_eq_error_iff]

end Statement

/-! ## Inputs -/

namespace Inputs

theorem isOk_encode_iff (inputs : Inputs) :
    inputs.encode.isOk ↔ 1 ≤ inputs.receipts.length ∧ inputs.receipts.length ≤ 2 ^ 32 - 1 := by
  have hmax : IntType.u32.max = 2 ^ 32 - 1 := rfl
  rw [encode_eq, isOk_elim_iff, refusal?_eq_none_iff, hmax, Nat.one_le_iff_ne_zero, ne_eq, ne_eq,
    List.length_eq_zero_iff]

theorem encode_eq_error_iff (inputs : Inputs) (rejection : Rejection) :
    inputs.encode = .error rejection ↔
      inputs.receipts = [] ∧
          rejection = .unusable "inputs set must contain at least one item" ∨
        2 ^ 32 - 1 < inputs.receipts.length ∧
          rejection = .outOfRange "item_count" inputs.receipts.length 32 := by
  rw [encode_eq, elim_eq_error_iff, refusal?]
  by_cases hempty : inputs.receipts = []
  · simp [hempty, eq_comm]
  · by_cases hlen : 2 ^ 32 - 1 < inputs.receipts.length
    · simp only [hempty, hlen, if_false, if_true, Option.some.injEq, false_and, true_and, false_or,
        eq_comm]
    · simp only [hempty, hlen, if_false, reduceCtorEq, false_and, or_false]

end Inputs

namespace Statement

/-- A document is rejected for its first decimal that is too long, and for nothing else. The first
leaf is rejected exactly if a name is too long, the second one exactly if an amount is, the third
one never. So the document can be encoded exactly if all leaves can, and exactly if there are hashes
of the leaves, a root and a proof of each leaf; the hashes are rejected for the reason for which the
document is. Inputs are rejected for the number of their receipts alone. -/
theorem encode_and_leaves_rejected_together :
    (∀ statement : Statement,
      (statement.document.encode.isOk ↔
        ∀ d ∈ statement.names ++ statement.sums, d.bytes.length ≤ 65535) ∧
      (∀ rejection, statement.document.encode = .error rejection ↔
        ∃ d, (statement.names ++ statement.sums).find? (65535 < ·.bytes.length) = some d ∧
          rejection = .outOfRange "tlv_length" d.bytes.length 16) ∧
      ((statement.leafBytes .binding).isOk ↔ ∀ d ∈ statement.names, d.bytes.length ≤ 65535) ∧
      ((statement.leafBytes .amounts).isOk ↔ ∀ d ∈ statement.sums, d.bytes.length ≤ 65535) ∧
      (statement.leafBytes .provenance).isOk ∧
      (statement.document.encode.isOk ↔ ∀ leaf, (statement.leafBytes leaf).isOk) ∧
      statement.leafHashes.isOk = statement.document.encode.isOk ∧
      statement.root.isOk = statement.document.encode.isOk ∧
      (∀ leaf, (statement.proof leaf).isOk = statement.document.encode.isOk) ∧
      ∀ rejection,
        statement.leafHashes = .error rejection ↔ statement.document.encode = .error rejection) ∧
    ∀ inputs : Inputs,
      (inputs.encode.isOk ↔
        1 ≤ inputs.receipts.length ∧ inputs.receipts.length ≤ 2 ^ 32 - 1) ∧
      ∀ rejection, inputs.encode = .error rejection ↔
        inputs.receipts = [] ∧
            rejection = .unusable "inputs set must contain at least one item" ∨
          2 ^ 32 - 1 < inputs.receipts.length ∧
            rejection = .outOfRange "item_count" inputs.receipts.length 32 := by
  refine ⟨fun statement => ⟨statement.isOk_encode_document_iff,
    statement.encode_document_eq_error_iff, ?_, ?_, ?_,
    statement.isOk_encode_document_iff_leafBytes, statement.isOk_leafHashes, statement.isOk_root,
    statement.isOk_proof, statement.leafHashes_eq_error_iff⟩,
    fun inputs => ⟨inputs.isOk_encode_iff, inputs.encode_eq_error_iff⟩⟩
  · rw [isOk_leafBytes_iff, decimals_leafLayout]
  · rw [isOk_leafBytes_iff, decimals_leafLayout]
  · rw [isOk_leafBytes_iff, decimals_leafLayout]
    exact List.forall_mem_nil _

/-- The reference pay period with other decimals for the worker and the fee. -/
def withWorkerAndFee (worker fee : Decimal) : Statement :=
  payPeriod { Reference.payPeriod with
    worker := worker
    amounts := { Reference.payPeriod.amounts with fee := fee } }

/-- If worker and fee are both too long, the document and the hashes of its leaves are rejected for
the worker, and the leaf of the amounts is rejected too. The longest worker leads to a root. -/
theorem longWorker_and_longerFee_rejected :
    (let statement := withWorkerAndFee (.repunit 65535) (.repunit 70000)
    statement.document.encode = .error (.outOfRange "tlv_length" 65536 16) ∧
      statement.leafHashes = .error (.outOfRange "tlv_length" 65536 16) ∧
      ¬ (statement.leafBytes .amounts).isOk ∧ (statement.leafBytes .provenance).isOk) ∧
    (withWorkerAndFee (.repunit 65534) .zero).root.isOk := by
  constructor
  · intro statement
    obtain ⟨-, hdocument, -, hamounts, hprovenance, -, -, -, -, hhashes⟩ :=
      encode_and_leaves_rejected_together.1 statement
    have hlong : ∀ n, 65535 ≤ n → 65535 < (Decimal.repunit n).bytes.length := by
      intro n hn
      rw [Decimal.length_bytes_repunit]
      omega
    have hfirst : statement.document.encode = .error (.outOfRange "tlv_length" 65536 16) := by
      refine (hdocument _).mpr ⟨.repunit 65535, ?_, ?_⟩
      · exact List.find?_cons_of_pos (decide_eq_true (hlong _ (Nat.le_refl _)))
      · rw [Decimal.length_bytes_repunit]
    refine ⟨hfirst, (hhashes _).mpr hfirst, fun h => ?_, hprovenance⟩
    have hfee := hamounts.mp h (.repunit 70000) (by simp [statement, withWorkerAndFee, sums])
    exact absurd (hlong 70000 (by decide)) (Nat.not_lt.mpr hfee)
  · obtain ⟨hdocument, -, -, -, -, -, -, hroot, -⟩ :=
      encode_and_leaves_rejected_together.1 (withWorkerAndFee (.repunit 65534) .zero)
    rw [hroot]
    apply hdocument.mpr
    show ∀ d ∈ Decimal.repunit 65534 :: _, d.bytes.length ≤ 65535
    rw [List.forall_mem_cons]
    refine ⟨?_, by decide +kernel⟩
    rw [Decimal.length_bytes_repunit]

end Statement

end PayrollSeal
