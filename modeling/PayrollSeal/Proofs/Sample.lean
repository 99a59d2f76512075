import PayrollSeal.Proofs.Document.Order
import PayrollSeal.Proofs.Notary.Accepted
import PayrollSeal.Sample

/-!
# Sample documents are accepted

The heights of sample receipts fall from their number to one (`Sample.heights_inputs`). This alone
keeps them apart and fixes their order, because their hashes come back every 256 receipts. A summary
over inputs agrees with them in all that a notary compares, so that only a total can be at fault
(`Sample.exists_sealSummary_eq_ok`).
-/

namespace PayrollSeal

/-! ## Receipts whose heights fall -/

namespace Receipt

/-- The height decides first. -/
theorem order_eq_lt {a b : Receipt} (h : a.anchor.height < b.anchor.height) : a.order b = .lt := by
  rw [order, Std.compare_eq_lt.mpr h]
  rfl

/-- Receipts whose heights fall are in order the other way round. -/
theorem sort_eq_reverse {receipts : List Receipt}
    (h : receipts.Pairwise fun a b => b.anchor.height < a.anchor.height) :
    sort receipts = receipts.reverse := by
  refine sort_eq_iff.mpr ⟨(List.reverse_perm receipts).symm, List.pairwise_reverse.mpr ?_⟩
  refine h.imp fun hlt => ?_
  rw [order_eq_lt hlt]
  rfl

end Receipt

/-! ## Decimals of words -/

/-- The digits of a word are never too many for a chunk. -/
theorem Decimal.length_bytes_ofNat_le {n : Nat} (h : n < 2 ^ 64) :
    (ofNat n).bytes.length ≤ 65535 := by
  have hdigits : (Nat.toDigits 10 n).length ≤ 20 :=
    (Nat.length_toDigits_le_iff (by decide) (by decide)).mpr (Nat.lt_trans h (by decide))
  rw [length_bytes]
  exact Nat.le_trans hdigits (by decide)

namespace Sample

variable {notary : Notary}

/-! ## Inputs -/

section Inputs

/-- The position of a receipt is a word and can be taken off the number of receipts. -/
theorem toNat_toUInt32_and_le {count : UInt32} {i : Nat} (h : i < count.toNat) :
    i.toUInt32.toNat = i ∧ i.toUInt32 ≤ count := by
  have hi : i.toUInt32.toNat = i := UInt32.toNat_ofNat_of_lt' (Nat.lt_trans h count.toNat_lt)
  exact ⟨hi, UInt32.le_iff_toNat_le.mpr (by omega)⟩

theorem toNat_height_receipt {count : UInt32} {i : Nat} (h : i < count.toNat) :
    (receipt count i).anchor.height.toNat = count.toNat - i := by
  obtain ⟨hi, hle⟩ := toNat_toUInt32_and_le h
  rw [receipt, UInt32.toNat_sub_of_le _ _ hle, hi]

variable (sample : Sample) (period : Period) (count : UInt32)

theorem length_inputs : (sample.inputs period count).receipts.length = count.toNat := by
  rw [inputs, List.length_map, List.length_range]

/-- The heights fall from the number of receipts to one. -/
theorem heights_inputs :
    (sample.inputs period count).receipts.map (·.anchor.height.toNat) =
      (List.range' 1 count.toNat).reverse := by
  rw [inputs, List.map_map, List.reverse_range']
  refine List.map_congr_left fun i hi => ?_
  rw [Function.comp_apply, toNat_height_receipt (List.mem_range.mp hi)]
  omega

theorem pairwise_inputs :
    (sample.inputs period count).receipts.Pairwise
      fun a b => b.anchor.height < a.anchor.height := by
  have hfall : ((sample.inputs period count).receipts.map (·.anchor.height.toNat)).Pairwise
      fun a b => b < a := by
    rw [heights_inputs]
    exact List.pairwise_reverse.mpr List.pairwise_lt_range'
  exact (List.pairwise_map.mp hfall).imp UInt32.lt_iff_toNat_lt.mpr

theorem nodup_inputs : (sample.inputs period count).receipts.Nodup := by
  refine (pairwise_inputs sample period count).imp ?_
  rintro a b hlt rfl
  exact UInt32.lt_irrefl _ hlt

/-- The number of receipts is a word, so inputs can only be rejected for having none. -/
theorem refusal?_inputs :
    (sample.inputs period count).refusal? =
      if count = 0 then some (.unusable "inputs set must contain at least one item") else none := by
  by_cases h : count = 0
  · subst h
    rfl
  · rw [if_neg h, Inputs.refusal?_eq_none_iff, ne_eq, ← List.length_eq_zero_iff, length_inputs]
    exact ⟨fun hzero => h (UInt32.toNat_inj.mp hzero), Nat.le_of_lt_succ count.toNat_lt⟩

end Inputs

/-! ## Summaries -/

/-- The summary over inputs that are not rejected. -/
def summaryOver (inputs : Inputs) (totals : Amounts) : Summary where
  versions := inputs.versions
  agreement := inputs.agreement
  period := inputs.period
  worker := .ofNat 1
  employer := .ofNat 2
  currency := inputs.currency
  totals := totals
  inputsHash := inputs.digest
  audit := .absent

theorem summary_eq (inputs : Inputs) (totals : Amounts) :
    summary inputs totals =
      inputs.refusal?.elim (.ok (summaryOver inputs totals)) .error := by
  rw [summary, inputs.hash_eq]
  cases inputs.refusal? <;> rfl

/-- A summary over inputs is sealed against them, if its currency is accepted and no total is too
long. -/
theorem exists_sealSummary_eq_ok {inputs : Inputs} {totals : Amounts} (periodId : UInt32)
    (hrefusal : inputs.refusal? = none) (hcurrency : inputs.currency ∈ notary.currencies)
    (htotals : ∀ d ∈ [totals.gross, totals.net, totals.taxWithheld, totals.fee],
      d.bytes.length ≤ 65535) :
    ∃ bundle, notary.sealSummary (summaryOver inputs totals) inputs periodId = .ok bundle ∧
      bundle.inputsHash = (summaryOver inputs totals).inputsHash ∧
      (Statement.summary (summaryOver inputs totals)).root = .ok bundle.root ∧
      bundle.scope = .ofKind inputs.period.kind ∧
      Scope.Follows inputs.period.kind bundle.scope := by
  have hhash : inputs.hash = .ok (summaryOver inputs totals).inputsHash := by
    rw [inputs.hash_eq, hrefusal]
    rfl
  have hnames : ∀ d ∈ [Decimal.ofNat 1, Decimal.ofNat 2], d.bytes.length ≤ 65535 := by
    decide
  have hdecimals : ∀ d ∈ (summaryOver inputs totals).decimals, d.bytes.length ≤ 65535 :=
    List.forall_mem_append.mpr ⟨hnames, htotals⟩
  have hencodes : (Statement.summary (summaryOver inputs totals)).refusal? = none :=
    Statement.refusal?_eq_none_iff.mpr hdecimals
  obtain ⟨-, -, hroot⟩ :=
    Bundle.hashes_of hencodes inputs.digest (.ofKind inputs.period.kind) periodId
  refine ⟨_, Notary.sealSummary_eq_ok_iff.mpr ?_, rfl, hroot, rfl, Scope.follows_ofKind _⟩
  exact ⟨hcurrency, ⟨rfl, rfl, rfl⟩, hhash, hdecimals, rfl⟩

/-! ## Pay periods -/

section PayPeriods

variable (sample : Sample) (epoch : UInt32) (gross tax fee : UInt64)

/-- The net is the exact difference, unless that is negative: where taking off the tax has come to
zero, taking off the fee changes nothing. -/
theorem toNat_net_payPeriod :
    ((sample.payPeriod epoch gross tax fee).amounts.net.toNat : Int) =
      max 0 ((gross.toNat : Int) - tax.toNat - fee.toNat) := by
  unfold payPeriod Amounts.ofUnits
  rw [Decimal.toNat_ofNat]
  omega

/-- The height of the receipt stops at the largest word. -/
theorem toNat_height_payPeriod :
    (sample.payPeriod epoch gross tax fee).receipt.height.toNat =
      min (epoch.toNat * 10) (2 ^ 32 - 1) := by
  have hmax : min (epoch.toNat * 10) IntType.u32.max < UInt32.size :=
    Nat.lt_of_le_of_lt (Nat.min_le_right _ _) (by decide)
  exact UInt32.toNat_ofNat_of_lt' hmax

theorem length_decimals_payPeriod :
    ∀ d ∈ (sample.payPeriod epoch gross tax fee).decimals, d.bytes.length ≤ 65535 := by
  have hdecimals : (sample.payPeriod epoch gross tax fee).decimals =
      [1, 2, gross.toNat, gross.toNat - tax.toNat - fee.toNat, tax.toNat, fee.toNat].map
        Decimal.ofNat := rfl
  have hgross := gross.toNat_lt
  have htax := tax.toNat_lt
  have hfee := fee.toNat_lt
  rw [hdecimals]
  simp only [List.forall_mem_map, List.forall_mem_cons, List.not_mem_nil, false_imp_iff,
    implies_true, and_true]
  -- each of the six numbers is a word
  refine ⟨?_, ?_, ?_, ?_, ?_, ?_⟩ <;> apply Decimal.length_bytes_ofNat_le <;> omega

theorem exists_sealPayPeriod_eq_ok (hcurrency : Currency.usdcx ∈ notary.currencies) :
    ∃ bundle, notary.sealPayPeriod (sample.payPeriod epoch gross tax fee) = .ok bundle :=
  ⟨_, Notary.sealPayPeriod_eq_ok_iff.mpr
    ⟨hcurrency, length_decimals_payPeriod sample epoch gross tax fee, rfl⟩⟩

end PayPeriods

/-! ## Acceptance -/

/-- The sample of an agreement builds as many receipts as it is asked for. They differ from each
other, their heights fall to one without passing it, and sorting turns them round. There is a
summary over them unless there are none, and the notary of the sample seals it against them in any
order, if no total is too long. The notary seals every pay period as well; its net is the exact
difference of the amounts, or nothing if that is negative. -/
theorem documents_are_accepted (agreement : Digest) :
    let sample : Sample := { agreement }
    (∀ (period : Period) (count : UInt32),
      let inputs := sample.inputs period count
      (inputs.receipts.length = count.toNat ∧ inputs.receipts.Nodup ∧
        inputs.receipts.map (·.anchor.height.toNat) = (List.range' 1 count.toNat).reverse ∧
        (∀ i < count.toNat, i.toUInt32.toNat = i ∧ i.toUInt32 ≤ count) ∧
        Receipt.sort inputs.receipts = inputs.receipts.reverse) ∧
      ∀ totals : Amounts,
        (∀ rejection, summary inputs totals = .error rejection ↔
          count = 0 ∧ rejection = .unusable "inputs set must contain at least one item") ∧
        (count ≠ 0 →
          (∀ d ∈ [totals.gross, totals.net, totals.taxWithheld, totals.fee],
            d.bytes.length ≤ 65535) →
          ∃ doc, summary inputs totals = .ok doc ∧
            ∀ (receipts : List Receipt) (periodId : UInt32), receipts.Perm inputs.receipts →
              ∃ bundle,
                sample.notary.sealSummary doc { inputs with receipts } periodId = .ok bundle ∧
                bundle.inputsHash = doc.inputsHash ∧
                (Statement.summary doc).root = .ok bundle.root ∧
                bundle.scope = .ofKind period.kind ∧
                Scope.Follows period.kind bundle.scope)) ∧
    ∀ (epoch : UInt32) (gross tax fee : UInt64),
      let doc := sample.payPeriod epoch gross tax fee
      (∃ bundle, sample.notary.sealPayPeriod doc = .ok bundle) ∧
        (doc.amounts.net.toNat : Int) = max 0 ((gross.toNat : Int) - tax.toNat - fee.toNat) ∧
        doc.amounts.net.toNat < 2 ^ 64 ∧
        doc.receipt.height.toNat = min (epoch.toNat * 10) (2 ^ 32 - 1) := by
  intro sample
  have hcurrency : Currency.usdcx ∈ sample.notary.currencies := List.mem_singleton_self _
  refine ⟨fun period count => ⟨?_, fun totals => ⟨fun rejection => ?_, fun hcount htotals => ?_⟩⟩,
    fun epoch gross tax fee => ?_⟩
  · exact ⟨length_inputs sample period count, nodup_inputs sample period count,
      heights_inputs sample period count, fun i hi => toNat_toUInt32_and_le hi,
      Receipt.sort_eq_reverse (pairwise_inputs sample period count)⟩
  · rw [summary_eq, elim_eq_error_iff, refusal?_inputs]
    split
    · next hzero => simp only [hzero, true_and, Option.some.injEq, eq_comm]
    · next hzero => simp only [hzero, false_and, reduceCtorEq]
  · have hrefusal := (sample.refusal?_inputs period count).trans (if_neg hcount)
    refine ⟨summaryOver (sample.inputs period count) totals, ?_, fun receipts periodId hperm => ?_⟩
    · rw [summary_eq, hrefusal, Option.elim_none]
    · rw [Notary.sealSummary_perm _ _ _ _ hperm]
      exact exists_sealSummary_eq_ok periodId hrefusal hcurrency htotals
  · have hnet := toNat_net_payPeriod sample epoch gross tax fee
    have hgross := gross.toNat_lt
    exact ⟨exists_sealPayPeriod_eq_ok sample epoch gross tax fee hcurrency, hnet, by omega,
      toNat_height_payPeriod sample epoch gross tax fee⟩

/-- A year of three hundred receipts is sealed in reverse order too, and a pay period whose
deductions are larger than its gross has no net. -/
theorem three_hundred_receipts_are_accepted :
    let sample : Sample := { agreement := .filled 0x22 }
    let inputs := sample.inputs ⟨.yearToDate, 1, 52⟩ 300
    (∃ doc bundle, summary inputs (.ofUnits 5 5 0 0) = .ok doc ∧
      sample.notary.sealSummary doc { inputs with receipts := inputs.receipts.reverse } 2026 =
        .ok bundle ∧
      bundle.inputsHash = doc.inputsHash ∧ bundle.scope = .yearToDate) ∧
    ((sample.payPeriod 3 500 499 2).amounts.net.toNat : Int) = 0 := by
  intro sample inputs
  obtain ⟨hinputs, hpay⟩ := documents_are_accepted (.filled 0x22)
  obtain ⟨doc, hdoc, hseal⟩ :=
    ((hinputs ⟨.yearToDate, 1, 52⟩ 300).2 (.ofUnits 5 5 0 0)).2 (by decide) (by decide)
  obtain ⟨bundle, hbundle, hhash, -, hscope, -⟩ := hseal _ 2026 (List.reverse_perm _)
  exact ⟨⟨doc, bundle, hdoc, hbundle, hhash, hscope⟩, (hpay 3 500 499 2).2.1⟩

end Sample

end PayrollSeal
