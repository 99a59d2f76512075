import PayrollSeal.Proofs.Document.Canonical
import PayrollSeal.Proofs.Notary.Checks
import PayrollSeal.Proofs.RecordId
import PayrollSeal.Reference

/-!
# Why a notary refuses to seal

A notary goes through a fixed list of causes and refuses for the first that applies; if none does,
there is a bundle (`Notary.sealPayPeriod_eq`, `Notary.sealSummary_eq`). The list is data, so what is
refused can be read off it: no cause looks at the order of receipts or at whether proofs are
checked.
-/

namespace PayrollSeal

/-- A condition and the refusal that it leads to. -/
structure Cause where
  applies : Bool
  refusal : Refusal

namespace Cause

/-! ## Lists of causes -/

/-- The refusal of the first cause that applies. -/
def first? (causes : List Cause) : Option Refusal :=
  (causes.find? applies).map refusal

/-- Refuses for the first cause that applies. -/
def check (causes : List Cause) : Except Refusal Unit :=
  (first? causes).elim (.ok ()) .error

theorem first?_cons (cause : Cause) (causes : List Cause) :
    first? (cause :: causes) = if cause.applies then some cause.refusal else first? causes := by
  rw [first?, List.find?_cons]
  cases cause.applies <;> rfl

theorem first?_append (xs ys : List Cause) : first? (xs ++ ys) = (first? xs).or (first? ys) := by
  rw [first?, List.find?_append, Option.map_or]
  rfl

theorem first?_eq_none_iff {causes : List Cause} :
    first? causes = none ↔ ∀ cause ∈ causes, cause.applies = false := by
  rw [first?, Option.map_eq_none_iff, List.find?_eq_none]
  simp only [Bool.not_eq_true]

theorem check_bind_ok {α : Type} (causes : List Cause) (value : α) :
    (check causes >>= fun _ => .ok value) = (first? causes).elim (.ok value) .error := by
  rw [check]
  cases first? causes <;> rfl

theorem check_cons (cause : Cause) (causes : List Cause) :
    check (cause :: causes) = if cause.applies then .error cause.refusal else check causes := by
  rw [check, first?_cons]
  cases cause.applies <;> rfl

theorem check_append (xs ys : List Cause) : check (xs ++ ys) = check xs >>= fun _ => check ys := by
  rw [check, first?_append, check]
  cases first? xs <;> rfl

/-! ## The causes of a notary -/

/-- The currency is not on the notary's list. -/
def unsupported (notary : Notary) (code : UInt8) : Cause :=
  ⟨code ∉ notary.currencies, .unsupportedCurrency code⟩

/-- A summary and inputs differ in agreement, period or currency. -/
def mismatches (doc : Summary) (inputs : Inputs) : List Cause :=
  [⟨doc.agreement ≠ inputs.agreement, .agreementsDiffer doc.agreement inputs.agreement⟩,
    ⟨doc.period ≠ inputs.period, .periodsDiffer doc.period inputs.period⟩,
    ⟨doc.currency ≠ inputs.currency, .currenciesDiffer doc.currency inputs.currency⟩]

/-- Inputs have no receipts, too many, or another hash than the one that was declared. -/
def inputsFaults (declared : Digest) (inputs : Inputs) : List Cause :=
  [⟨inputs.receipts = [],
      .rejected (.unusable "inputs set must contain at least one item")⟩,
    ⟨2 ^ 32 - 1 < inputs.receipts.length,
      .rejected (.outOfRange "item_count" inputs.receipts.length 32)⟩] ++
  inputs.hash.toOption.toList.map fun computed =>
    ⟨computed ≠ declared, .inputsDiffer declared computed⟩

/-- A decimal is too long for a chunk. -/
def tooLong (decimals : List Decimal) : List Cause :=
  decimals.map fun d =>
    ⟨65535 < d.bytes.length, .rejected (.outOfRange "tlv_length" d.bytes.length 16)⟩

theorem first?_tooLong (decimals : List Decimal) :
    first? (tooLong decimals) = (decimals.findSome? Decimal.refusal?).map .rejected := by
  induction decimals with
  | nil => rfl
  | cons d decimals ih =>
    rw [tooLong, List.map_cons, first?_cons, List.findSome?_cons, Decimal.refusal?_eq]
    by_cases h : d.bytes.length ≤ 65535
    · simp only [h, if_true, Nat.not_lt.mpr h, decide_false]
      exact ih
    · simp only [h, if_false, Nat.lt_of_not_le h, decide_true]
      rfl

/-- Inputs without faults have the declared hash. -/
theorem hash_eq_of_first?_inputsFaults {declared : Digest} {inputs : Inputs}
    (h : first? (inputsFaults declared inputs) = none) : inputs.hash = .ok declared := by
  rw [first?_eq_none_iff, inputsFaults] at h
  have hempty := h _ (List.mem_append_left _ List.mem_cons_self)
  have hlen := h _ (List.mem_append_left _ (List.mem_cons_of_mem _ List.mem_cons_self))
  rw [decide_eq_false_iff_not] at hempty hlen
  have hhash : inputs.hash = .ok inputs.digest := by
    rw [inputs.hash_eq, Inputs.refusal?_eq_none_iff.mpr ⟨hempty, Nat.le_of_not_lt hlen⟩,
      Option.elim_none]
  rw [hhash] at h
  have hdigest := h _ (List.mem_append_right _ List.mem_cons_self)
  rw [decide_eq_false_iff_not, not_not] at hdigest
  rw [hhash, hdigest]

end Cause

namespace Notary

/-- Why a notary refuses to seal a pay period, in the order in which the causes decide. -/
def payPeriodCauses (notary : Notary) (doc : PayPeriod) : List Cause :=
  [Cause.unsupported notary doc.currency] ++ Cause.tooLong doc.decimals

/-- Why a notary refuses to seal a summary against inputs, in the order in which the causes
decide. -/
def summaryCauses (notary : Notary) (doc : Summary) (inputs : Inputs) : List Cause :=
  [Cause.unsupported notary doc.currency] ++ Cause.mismatches doc inputs ++
    Cause.inputsFaults doc.inputsHash inputs ++ Cause.tooLong doc.decimals

/-! ## The checks -/

theorem requireCurrency_eq (notary : Notary) (code : UInt8) :
    notary.requireCurrency code = Cause.check [Cause.unsupported notary code] := by
  unfold requireCurrency Cause.unsupported
  by_cases h : code ∈ notary.currencies
  · simp only [Cause.check_cons, List.contains_eq_mem, h, decide_true, not_true_eq_false,
      decide_false]
    rfl
  · simp only [Cause.check_cons, List.contains_eq_mem, h, decide_false, not_false_eq_true,
      decide_true]
    rfl

theorem requireMatch_eq (doc : Summary) (inputs : Inputs) :
    requireMatch doc inputs = Cause.check (Cause.mismatches doc inputs) := by
  simp only [Cause.mismatches, Cause.check_cons, decide_eq_true_eq]
  unfold requireMatch
  split
  · rfl
  · split
    · rfl
    · split <;> rfl

/-- What comes after the inputs is done with the declared hash. -/
theorem requireInputs_eq {α : Type} (declared : Digest) (inputs : Inputs)
    (rest : Digest → Except Refusal α) :
    (do
      let computed ← inputs.hash.mapError .rejected
      if computed ≠ declared then
        throw (.inputsDiffer declared computed)
      rest computed) =
      Cause.check (Cause.inputsFaults declared inputs) >>= fun _ => rest declared := by
  rw [Cause.inputsFaults, List.cons_append, List.cons_append, Cause.check_cons, Cause.check_cons,
    inputs.hash_eq, Inputs.refusal?]
  by_cases hempty : inputs.receipts = []
  · simp only [hempty, if_true, decide_true]
    rfl
  · by_cases hlen : 2 ^ 32 - 1 < inputs.receipts.length
    · simp only [hempty, hlen, if_true, if_false, decide_true, decide_false, Bool.false_eq_true]
      rfl
    · simp only [hempty, hlen, if_false, decide_false, Bool.false_eq_true]
      -- what is left is to compare the two hashes
      change (if inputs.digest ≠ declared then _ else _) =
        Cause.check [⟨inputs.digest ≠ declared, .inputsDiffer declared inputs.digest⟩] >>= _
      rw [Cause.check_cons]
      by_cases hhash : inputs.digest = declared
      · rw [hhash]
        simp only [ne_eq, not_true_eq_false, if_false, decide_false, Bool.false_eq_true]
        rfl
      · simp only [ne_eq, hhash, not_false_eq_true, if_true, decide_true]
        rfl

theorem bundle_eq_check (notary : Notary) (statement : Statement) (inputsHash : Digest)
    (scope : Scope) (periodId : UInt32) :
    notary.bundle statement inputsHash scope periodId = do
      Cause.check (Cause.tooLong statement.decimals)
      return .of statement inputsHash scope periodId := by
  rw [notary.bundle_eq, Statement.refusal?, ← Cause.first?_tooLong]
  exact (Cause.check_bind_ok _ _).symm

/-! ## Sealing -/

/-- A notary refuses to seal a pay period for the first cause that applies, and for nothing else. -/
theorem sealPayPeriod_eq (notary : Notary) (doc : PayPeriod) :
    notary.sealPayPeriod doc =
      (Cause.first? (notary.payPeriodCauses doc)).elim
        (.ok (.of (.payPeriod doc) doc.inputsHash .cycle doc.epoch)) .error := by
  have hlong : Cause.tooLong doc.decimals = Cause.tooLong (Statement.payPeriod doc).decimals := rfl
  unfold sealPayPeriod
  rw [← Cause.check_bind_ok]
  simp only [payPeriodCauses, hlong, Cause.check_append, requireCurrency_eq, bundle_eq_check,
    bind_assoc]
  rfl

/-- A notary refuses to seal a summary for the first cause that applies, and for nothing else. -/
theorem sealSummary_eq (notary : Notary) (doc : Summary) (inputs : Inputs) (periodId : UInt32) :
    notary.sealSummary doc inputs periodId =
      (Cause.first? (notary.summaryCauses doc inputs)).elim
        (.ok (.of (.summary doc) doc.inputsHash (.ofKind doc.period.kind) periodId)) .error := by
  have hlong : Cause.tooLong doc.decimals = Cause.tooLong (Statement.summary doc).decimals := rfl
  unfold sealSummary
  rw [← Cause.check_bind_ok]
  simp only [summaryCauses, hlong, Cause.check_append, requireCurrency_eq, requireMatch_eq,
    bundle_eq_check, requireInputs_eq, bind_assoc]
  rfl

/-- If no cause applies, the inputs have the hash that the summary declares, and the summary can be
encoded. -/
theorem hash_eq_of_first?_summaryCauses {notary : Notary} {doc : Summary} {inputs : Inputs}
    (h : Cause.first? (notary.summaryCauses doc inputs) = none) :
    inputs.hash = .ok doc.inputsHash ∧ (Statement.summary doc).refusal? = none := by
  rw [summaryCauses, Cause.first?_append, Cause.first?_append, Option.or_eq_none_iff,
    Option.or_eq_none_iff] at h
  obtain ⟨⟨-, hinputs⟩, hlong⟩ := h
  rw [Cause.first?_tooLong, Option.map_eq_none_iff] at hlong
  exact ⟨Cause.hash_eq_of_first?_inputsFaults hinputs, hlong⟩

/-- The order of the receipts leaves no trace, neither in a bundle nor in a refusal. -/
theorem sealSummary_perm (notary : Notary) (doc : Summary) (inputs : Inputs) (periodId : UInt32)
    {receipts : List Receipt} (h : receipts.Perm inputs.receipts) :
    notary.sealSummary doc { inputs with receipts } periodId =
      notary.sealSummary doc inputs periodId := by
  have hsame : Inputs.Same { inputs with receipts } inputs := ⟨rfl, rfl, rfl, rfl, h⟩
  have hhash : Inputs.hash { inputs with receipts } = inputs.hash := by
    rw [Inputs.hash, Inputs.hash, hsame.encode_eq]
  unfold sealSummary
  rw [hhash]
  rfl

/-- A notary refuses to seal a summary exactly for the first cause that applies. If none does, it
returns the bundle of the summary over the hash of the inputs, as the record of the scope that
follows the kind of the period. The order of the receipts leaves no trace in either. -/
theorem sealSummary_outcome (notary : Notary) (doc : Summary) (inputs : Inputs)
    (periodId : UInt32) :
    (∀ refusal, notary.sealSummary doc inputs periodId = .error refusal ↔
      Cause.first? (notary.summaryCauses doc inputs) = some refusal) ∧
    (Cause.first? (notary.summaryCauses doc inputs) = none →
      ∃ bundle, notary.sealSummary doc inputs periodId = .ok bundle ∧
        doc.hash = .ok bundle.docHash ∧ inputs.hash = .ok bundle.inputsHash ∧
        bundle.inputsHash = doc.inputsHash ∧
        (Statement.summary doc).leafHashes = .ok bundle.leafHashes ∧
        (Statement.summary doc).root = .ok bundle.root ∧
        bundle.scope = .ofKind doc.period.kind ∧ Scope.Follows doc.period.kind bundle.scope ∧
        bundle.versions = doc.versions ∧
        bundle.agreement = doc.agreement ∧ bundle.periodId = periodId ∧
        bundle.idMatches = true) ∧
    ∀ receipts, receipts.Perm inputs.receipts →
      notary.sealSummary doc { inputs with receipts } periodId =
        notary.sealSummary doc inputs periodId := by
  refine ⟨fun refusal => ?_, fun h => ?_, fun _ => notary.sealSummary_perm doc inputs periodId⟩
  · rw [sealSummary_eq, elim_eq_error_iff]
  · obtain ⟨hinputs, hrefusal⟩ := hash_eq_of_first?_summaryCauses h
    obtain ⟨hdoc, hleaves, hroot⟩ :=
      Bundle.hashes_of hrefusal doc.inputsHash (.ofKind doc.period.kind) periodId
    have hseal : notary.sealSummary doc inputs periodId =
        .ok (.of (.summary doc) doc.inputsHash (.ofKind doc.period.kind) periodId) := by
      rw [sealSummary_eq, h, Option.elim_none]
    exact ⟨_, hseal, hdoc, hinputs, rfl, hleaves, hroot, rfl, Scope.follows_ofKind _, rfl, rfl, rfl,
      beq_iff_eq.mpr rfl⟩

/-- The reference inputs have the hash that the reference summary declares. -/
theorem reference_inputs_hash : Reference.inputs.hash = .ok Reference.summary.inputsHash := by
  have hsort : Receipt.sort Reference.inputs.receipts = Reference.inputs.receipts.reverse :=
    Receipt.sort_eq_iff.mpr ⟨(List.reverse_perm _).symm, by decide +kernel⟩
  have hdigest : Reference.inputs.digest = Reference.summary.inputsHash := by
    rw [Inputs.digest, Inputs.bytes, Inputs.layout, hsort]
    decide +kernel
  rw [Inputs.hash_eq, hdigest]
  rfl

/-- Nothing keeps a notary with the usual settings from sealing the reference summary. -/
theorem first?_summaryCauses_reference :
    Cause.first? (summaryCauses {} Reference.summary Reference.inputs) = none := by
  rw [summaryCauses, Cause.inputsFaults, reference_inputs_hash]
  decide +kernel

/-- The reference summary is sealed against its receipts in either order, but not by a notary that
accepts no currency. -/
theorem sealSummary_reference_reversed :
    (∃ bundle, sealSummary {} Reference.summary
        { Reference.inputs with receipts := Reference.inputs.receipts.reverse } 20261 = .ok bundle ∧
      Reference.inputs.hash = .ok bundle.inputsHash ∧ bundle.idMatches = true) ∧
    sealSummary ⟨[], true⟩ Reference.summary Reference.inputs 20261 =
      .error (.unsupportedCurrency Reference.summary.currency) := by
  obtain ⟨-, hok, hperm⟩ := sealSummary_outcome {} Reference.summary Reference.inputs 20261
  obtain ⟨bundle, hseal, -, hinputs, -, -, -, -, -, -, -, -, hid⟩ :=
    hok first?_summaryCauses_reference
  refine ⟨⟨bundle, (hperm _ (List.reverse_perm _)).trans hseal, hinputs, hid⟩, ?_⟩
  exact ((sealSummary_outcome ⟨[], true⟩ Reference.summary Reference.inputs 20261).1 _).mpr rfl

end Notary

end PayrollSeal
