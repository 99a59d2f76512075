import PayrollSeal.Proofs.Notary.Causes

/-!
# What a notary accepts

No cause of refusal applies exactly if the currency is on the notary's list, summary and inputs
agree, the inputs have the hash that the summary declares, and no decimal is too long
(`Notary.sealPayPeriod_eq_ok_iff`, `Notary.sealSummary_eq_ok_iff`).
-/

namespace PayrollSeal

variable {notary : Notary} {inputs : Inputs} {bundle : Bundle}

/-! ## Causes that do not apply -/

namespace Cause

theorem first?_append_eq_none_iff {xs ys : List Cause} :
    first? (xs ++ ys) = none ↔ first? xs = none ∧ first? ys = none := by
  rw [first?_append, Option.or_eq_none_iff]

theorem first?_unsupported_eq_none_iff {code : UInt8} :
    first? [unsupported notary code] = none ↔ code ∈ notary.currencies := by
  simp only [first?_eq_none_iff, List.mem_singleton, forall_eq, unsupported,
    decide_eq_false_iff_not, Decidable.not_not]

theorem first?_mismatches_eq_none_iff {doc : Summary} :
    first? (mismatches doc inputs) = none ↔ doc.agreement = inputs.agreement ∧
      doc.period = inputs.period ∧ doc.currency = inputs.currency := by
  simp only [first?_eq_none_iff, mismatches, List.forall_mem_cons, List.not_mem_nil, false_imp_iff,
    implies_true, and_true, decide_eq_false_iff_not, ne_eq, Decidable.not_not]

theorem first?_inputsFaults_eq_none_iff {declared : Digest} :
    first? (inputsFaults declared inputs) = none ↔ inputs.hash = .ok declared := by
  refine ⟨hash_eq_of_first?_inputsFaults, fun h => ?_⟩
  have hrefusal : inputs.refusal? = none := by
    rw [inputs.hash_eq, elim_eq_ok_iff] at h
    exact h.1
  obtain ⟨hempty, hlength⟩ := Inputs.refusal?_eq_none_iff.mp hrefusal
  have hmax : ¬ 2 ^ 32 - 1 < inputs.receipts.length := Nat.not_lt.mpr hlength
  rw [inputsFaults, h, first?_eq_none_iff]
  simp only [Except.toOption, Option.toList_some, List.map_cons, List.map_nil, List.cons_append,
    List.nil_append, List.forall_mem_cons, List.not_mem_nil, false_imp_iff, implies_true, and_true,
    decide_eq_false_iff_not, ne_eq, not_true_eq_false, not_false_eq_true]
  exact ⟨hempty, hmax⟩

theorem first?_tooLong_eq_none_iff {decimals : List Decimal} :
    first? (tooLong decimals) = none ↔ ∀ d ∈ decimals, d.bytes.length ≤ 65535 := by
  rw [first?_tooLong, Option.map_eq_none_iff, Decimal.findSome?_refusal?_eq_none_iff]

end Cause

/-! ## Sealing -/

namespace Notary

theorem sealPayPeriod_eq_ok_iff {doc : PayPeriod} :
    notary.sealPayPeriod doc = .ok bundle ↔ doc.currency ∈ notary.currencies ∧
      (∀ d ∈ doc.decimals, d.bytes.length ≤ 65535) ∧
      Bundle.of (.payPeriod doc) doc.inputsHash .cycle doc.epoch = bundle := by
  rw [sealPayPeriod_eq, elim_eq_ok_iff, payPeriodCauses, Cause.first?_append_eq_none_iff,
    Cause.first?_unsupported_eq_none_iff, Cause.first?_tooLong_eq_none_iff, and_assoc]

theorem sealSummary_eq_ok_iff {doc : Summary} {periodId : UInt32} :
    notary.sealSummary doc inputs periodId = .ok bundle ↔ doc.currency ∈ notary.currencies ∧
      (doc.agreement = inputs.agreement ∧ doc.period = inputs.period ∧
        doc.currency = inputs.currency) ∧
      inputs.hash = .ok doc.inputsHash ∧ (∀ d ∈ doc.decimals, d.bytes.length ≤ 65535) ∧
      Bundle.of (.summary doc) doc.inputsHash (.ofKind doc.period.kind) periodId = bundle := by
  rw [sealSummary_eq, elim_eq_ok_iff, summaryCauses, Cause.first?_append_eq_none_iff,
    Cause.first?_append_eq_none_iff, Cause.first?_append_eq_none_iff,
    Cause.first?_unsupported_eq_none_iff, Cause.first?_mismatches_eq_none_iff,
    Cause.first?_inputsFaults_eq_none_iff, Cause.first?_tooLong_eq_none_iff, and_assoc, and_assoc,
    and_assoc]

end Notary

end PayrollSeal
