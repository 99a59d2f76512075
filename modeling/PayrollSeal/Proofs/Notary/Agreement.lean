import PayrollSeal.Proofs.Notary.Causes

/-!
# What notaries agree on

Notaries that accept the same currencies return the same, whether they check their proofs or not
(`Notary.sealPayPeriod_congr`, `Notary.sealSummary_congr`, `Notary.openLeaf_congr`). What one of
them opens belongs to what any other seals, because both follow from the statement
(`Notary.seal_and_open_agree`).
-/

namespace PayrollSeal

variable {notary a b : Notary} {statement : Statement} {leaf : Leaf} {bundle : Bundle}
  {opening : Opening}

/-- Causes refuse with nothing but the refusals that they list. -/
theorem Cause.first?_ne_some {causes : List Cause} {refusal : Refusal}
    (h : ∀ cause ∈ causes, cause.refusal ≠ refusal) : first? causes ≠ some refusal := by
  intro hfirst
  rw [first?, Option.map_eq_some_iff] at hfirst
  obtain ⟨cause, hfind, hrefusal⟩ := hfirst
  exact h cause (List.mem_of_find?_eq_some hfind) hrefusal

namespace Notary

/-! ## Whether proofs are checked -/

theorem unsupported_congr (h : ∀ code, code ∈ a.currencies ↔ code ∈ b.currencies) (code : UInt8) :
    Cause.unsupported a code = Cause.unsupported b code := by
  simp only [Cause.unsupported, h code]

theorem sealPayPeriod_congr (h : ∀ code, code ∈ a.currencies ↔ code ∈ b.currencies)
    (doc : PayPeriod) : a.sealPayPeriod doc = b.sealPayPeriod doc := by
  rw [sealPayPeriod_eq, sealPayPeriod_eq, payPeriodCauses, payPeriodCauses, unsupported_congr h]

theorem sealSummary_congr (h : ∀ code, code ∈ a.currencies ↔ code ∈ b.currencies) (doc : Summary)
    (inputs : Inputs) (periodId : UInt32) :
    a.sealSummary doc inputs periodId = b.sealSummary doc inputs periodId := by
  rw [sealSummary_eq, sealSummary_eq, summaryCauses, summaryCauses, unsupported_congr h]

/-- An opening does not depend on the notary, not even on its currencies. -/
theorem openLeaf_congr (a b : Notary) (statement : Statement) (leaf : Leaf) :
    a.openLeaf statement leaf = b.openLeaf statement leaf := by
  rw [openLeaf_eq_of_decimals, openLeaf_eq_of_decimals]

/-! ## No proof fails -/

theorem sealPayPeriod_ne_proofFails (notary : Notary) (doc : PayPeriod) (leaf : Leaf) :
    notary.sealPayPeriod doc ≠ .error (.proofFails leaf) := by
  rw [sealPayPeriod_eq, ne_eq, elim_eq_error_iff]
  refine Cause.first?_ne_some fun cause hcause => ?_
  simp only [payPeriodCauses, Cause.unsupported, Cause.tooLong, List.mem_append, List.mem_map,
    List.mem_singleton] at hcause
  obtain rfl | ⟨d, -, rfl⟩ := hcause <;> simp only [ne_eq, reduceCtorEq, not_false_eq_true]

theorem sealSummary_ne_proofFails (notary : Notary) (doc : Summary) (inputs : Inputs)
    (periodId : UInt32) (leaf : Leaf) :
    notary.sealSummary doc inputs periodId ≠ .error (.proofFails leaf) := by
  rw [sealSummary_eq, ne_eq, elim_eq_error_iff]
  refine Cause.first?_ne_some fun cause hcause => ?_
  simp only [summaryCauses, Cause.unsupported, Cause.mismatches, Cause.inputsFaults, Cause.tooLong,
    List.mem_append, List.mem_map, List.mem_cons, List.not_mem_nil, or_false] at hcause
  obtain ((rfl | rfl | rfl | rfl) | (rfl | rfl) | ⟨computed, -, rfl⟩) | ⟨d, -, rfl⟩ := hcause <;>
    simp only [ne_eq, reduceCtorEq, not_false_eq_true]

theorem openLeaf_ne_proofFails (notary : Notary) (statement : Statement) (leaf failing : Leaf) :
    notary.openLeaf statement leaf ≠ .error (.proofFails failing) := by
  rw [openLeaf_eq_of_decimals, ne_eq, elim_eq_error_iff, Option.map_eq_some_iff]
  rintro ⟨rejection, -, h⟩
  cases h

/-! ## What is opened -/

/-- The leaf of a statement is opened exactly if the statement can be encoded. -/
theorem openLeaf_eq_ok_iff :
    notary.openLeaf statement leaf = .ok opening ↔
      statement.refusal? = none ∧
        .ofLeaves statement.leafKind statement.leafObject leaf = opening := by
  have hnone : (Layout.decimals (statement.leafLayout leaf) ++ statement.decimals).findSome?
      Decimal.refusal? = none ↔ statement.refusal? = none := by
    rw [Decimal.findSome?_refusal?_eq_none_iff, Statement.refusal?_eq_none_iff,
      List.forall_mem_append]
    exact and_iff_right_of_imp fun h d hd => h d (statement.decimals_leafLayout_subset leaf hd)
  rw [openLeaf_eq_of_decimals, elim_eq_ok_iff, Option.map_eq_none_iff, hnone]

theorem exists_openLeaf_eq_ok_iff :
    (∃ opening, notary.openLeaf statement leaf = .ok opening) ↔
      ∀ d ∈ statement.decimals, d.bytes.length ≤ 65535 := by
  simp only [openLeaf_eq_ok_iff, exists_and_left, exists_eq', and_true,
    Statement.refusal?_eq_none_iff]

/-! ## What is sealed -/

/-- The notary seals the statement in the bundle: a summary against some inputs and for some
period. -/
def Seals (notary : Notary) : Statement → Bundle → Prop
  | .payPeriod doc, bundle => notary.sealPayPeriod doc = .ok bundle
  | .summary doc, bundle => ∃ inputs periodId, notary.sealSummary doc inputs periodId = .ok bundle

theorem Seals.exists_eq_of (h : notary.Seals statement bundle) :
    ∃ inputsHash scope periodId, Bundle.of statement inputsHash scope periodId = bundle := by
  cases statement with
  | payPeriod doc =>
    rw [Seals, sealPayPeriod_eq, elim_eq_ok_iff] at h
    exact ⟨_, _, _, h.2⟩
  | summary doc =>
    obtain ⟨inputs, periodId, h⟩ := h
    rw [sealSummary_eq, elim_eq_ok_iff] at h
    exact ⟨_, _, _, h.2⟩

/-- Whether proofs are checked leaves no trace, and no proof ever fails. A leaf is opened exactly if
no decimal of the statement is too long, and then by every notary alike; the opening has the leaf
hash and the root of every bundle in which the statement is sealed, and is accepted under that
root. -/
theorem seal_and_open_agree (a b : Notary) :
    ((∀ code, code ∈ a.currencies ↔ code ∈ b.currencies) →
      (∀ doc, a.sealPayPeriod doc = b.sealPayPeriod doc) ∧
      (∀ doc inputs periodId,
        a.sealSummary doc inputs periodId = b.sealSummary doc inputs periodId) ∧
      ∀ statement leaf, a.openLeaf statement leaf = b.openLeaf statement leaf) ∧
    (∀ failing : Leaf,
      (∀ doc, a.sealPayPeriod doc ≠ .error (.proofFails failing)) ∧
      (∀ doc inputs periodId, a.sealSummary doc inputs periodId ≠ .error (.proofFails failing)) ∧
      ∀ statement leaf, a.openLeaf statement leaf ≠ .error (.proofFails failing)) ∧
    (∀ statement leaf, (∃ opening, a.openLeaf statement leaf = .ok opening) ↔
      ∀ d ∈ statement.decimals, d.bytes.length ≤ 65535) ∧
    ∀ statement leaf bundle opening, a.Seals statement bundle →
      b.openLeaf statement leaf = .ok opening →
      bundle.leafHashes.toList[leaf.index]? = some opening.leafHash ∧
        opening.root = bundle.root ∧ opening.verify = true ∧
        opening.opens bundle.root = true := by
  refine ⟨fun h => ⟨sealPayPeriod_congr h, sealSummary_congr h, openLeaf_congr a b⟩,
    fun failing => ⟨fun doc => a.sealPayPeriod_ne_proofFails doc failing,
      fun doc inputs periodId => a.sealSummary_ne_proofFails doc inputs periodId failing,
      fun statement leaf => a.openLeaf_ne_proofFails statement leaf failing⟩,
    fun statement leaf => exists_openLeaf_eq_ok_iff, ?_⟩
  intro statement leaf bundle opening hseals hopening
  obtain ⟨inputsHash, scope, periodId, rfl⟩ := hseals.exists_eq_of
  obtain ⟨hrefusal, rfl⟩ := openLeaf_eq_ok_iff.mp hopening
  have h := Statement.hasLeaves_leafObject hrefusal
  refine ⟨?_, rfl, Opening.verify_ofLeaves h leaf, Opening.opens_ofLeaves h leaf⟩
  rw [LeafHashes.getElem?_toList, Bundle.of, LeafHashes.get_ofBytes, Opening.ofLeaves]

/-- What a notary that checks no proofs opens of the reference pay period belongs to what a notary
that checks them seals. -/
theorem seal_and_open_agree_reference :
    ∃ bundle opening, sealPayPeriod {} Reference.payPeriod = .ok bundle ∧
      openLeaf { checksProofs := false } (.payPeriod Reference.payPeriod) .provenance =
        .ok opening ∧
      opening.root = bundle.root ∧ opening.opens bundle.root = true := by
  obtain ⟨hsame, -, hopens, hagree⟩ := seal_and_open_agree {} { checksProofs := false }
  have hseal : sealPayPeriod {} Reference.payPeriod =
      .ok (.of (.payPeriod Reference.payPeriod) .zero .cycle 1) := by
    have hcauses : Cause.first? (payPeriodCauses {} Reference.payPeriod) = none := by
      decide +kernel
    rw [sealPayPeriod_eq, hcauses]
    rfl
  obtain ⟨opening, hopening⟩ := (hopens (.payPeriod Reference.payPeriod) .provenance).mpr
    (by decide +kernel)
  rw [(hsame fun _ => Iff.rfl).2.2] at hopening
  obtain ⟨-, hroot, -, haccepted⟩ := hagree (.payPeriod Reference.payPeriod) _ _ _ hseal hopening
  exact ⟨_, opening, hseal, hopening, hroot, haccepted⟩

end Notary

end PayrollSeal
