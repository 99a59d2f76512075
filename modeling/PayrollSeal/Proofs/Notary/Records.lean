import PayrollSeal.Proofs.Notary.Agreement
import PayrollSeal.Proofs.RecordId

/-!
# What the record of a summary binds

A sealed bundle has the identifier of the values in it, and these come from the summary and the
inputs that were sealed (`Notary.bound_of_sealSummary_eq_ok`). So the identifier of a sealed summary
binds the kind of its period, the period id, the agreement and the inputs behind it, through the hash
of the inputs (`Notary.recordId_eq_iff_sameRecord`).
-/

namespace PayrollSeal

/-! ## Inputs -/

namespace Inputs

variable {a b inputs : Inputs} {digest : Digest}

/-- The messages that are hashed for inputs: none if they are rejected, else one. -/
def messages (inputs : Inputs) : List Bytes :=
  (inputs.encode.toOption.map Domain.inputs.message).toList

theorem exists_encode_of_hash_eq_ok (h : inputs.hash = .ok digest) :
    ∃ x, inputs.encode = .ok x ∧ Domain.inputs.message x ∈ inputs.messages ∧
      Domain.inputs.hash x = digest := by
  cases hencode : inputs.encode with
  | error rejection =>
    rw [hash, hencode] at h
    cases h
  | ok x =>
    rw [hash, hencode] at h
    have hmem : Domain.inputs.message x ∈ inputs.messages := by
      rw [messages, hencode]
      exact List.mem_cons_self
    exact ⟨x, rfl, hmem, Except.ok.inj h⟩

/-- Inputs with one hash are the same up to the order of the receipts. -/
theorem same_of_hash_eq {messages : List Bytes} (hfree : CollisionFree messages)
    (hma : a.messages ⊆ messages) (hmb : b.messages ⊆ messages) (ha : a.hash = .ok digest)
    (hb : b.hash = .ok digest) : a.Same b := by
  obtain ⟨x, hx, hxmem, hxhash⟩ := exists_encode_of_hash_eq_ok ha
  obtain ⟨y, hy, hymem, hyhash⟩ := exists_encode_of_hash_eq_ok hb
  have hhash : Domain.inputs.hash x = Domain.inputs.hash y := hxhash.trans hyhash.symm
  obtain ⟨-, rfl⟩ := hfree.hash_inj (hma hxmem) (hmb hymem) hhash
  have hsame : (Document.inputs a).Same (Document.inputs b) :=
    Document.same_of_encode_prefix hx hy (List.prefix_refl x)
  exact hsame

end Inputs

namespace Notary

variable {notary : Notary} {statement : Statement} {doc : Summary} {inputs : Inputs}
  {periodId : UInt32} {bundle : Bundle}

/-! ## Sealed bundles -/

/-- The identifier of a sealed bundle matches. -/
theorem Seals.idMatches (h : notary.Seals statement bundle) : bundle.idMatches = true := by
  obtain ⟨inputsHash, scope, periodId, rfl⟩ := h.exists_eq_of
  exact beq_iff_eq.mpr rfl

/-- The bound values of a sealed summary: the scope follows the kind of the period, and the inputs
hash is that of the inputs. -/
theorem bound_of_sealSummary_eq_ok (h : notary.sealSummary doc inputs periodId = .ok bundle) :
    bundle.scope = .ofKind doc.period.kind ∧ bundle.periodId = periodId ∧
      bundle.agreement = doc.agreement ∧ inputs.hash = .ok bundle.inputsHash := by
  rw [sealSummary_eq, elim_eq_ok_iff] at h
  obtain ⟨hcauses, rfl⟩ := h
  exact ⟨rfl, rfl, rfl, (hash_eq_of_first?_summaryCauses hcauses).1⟩

/-- Sealed summaries with one identifier have one kind of period, one period id, one agreement and
the same inputs. -/
theorem same_of_recordId_eq {messages : List Bytes} (hfree : CollisionFree messages)
    {a b : Bundle} {other : Notary} {doc' : Summary} {inputs' : Inputs} {periodId' : UInt32}
    (ha : notary.sealSummary doc inputs periodId = .ok a)
    (hb : other.sealSummary doc' inputs' periodId' = .ok b)
    (hida : a.idMessage ∈ messages) (hidb : b.idMessage ∈ messages)
    (hma : inputs.messages ⊆ messages) (hmb : inputs'.messages ⊆ messages)
    (h : a.recordId = b.recordId) :
    doc.period.kind = doc'.period.kind ∧ periodId = periodId' ∧ doc.agreement = doc'.agreement ∧
      inputs.Same inputs' := by
  have hsealsa : notary.Seals (.summary doc) a := ⟨inputs, periodId, ha⟩
  have hsealsb : other.Seals (.summary doc') b := ⟨inputs', periodId', hb⟩
  obtain ⟨hscope, hperiod, hagreement, hinputs⟩ :=
    Bundle.recordId_inj hfree hida hidb hsealsa.idMatches hsealsb.idMatches h
  obtain ⟨hscopea, hperioda, hagreementa, hhasha⟩ := bound_of_sealSummary_eq_ok ha
  obtain ⟨hscopeb, hperiodb, hagreementb, hhashb⟩ := bound_of_sealSummary_eq_ok hb
  -- the identifier holds the inputs by their hash alone, a second layer to see through
  rw [← hinputs] at hhashb
  refine ⟨?_, ?_, ?_, ?_⟩
  · apply Scope.ofKind_inj.mp
    rw [← hscopea, ← hscopeb, hscope]
  · rw [← hperioda, ← hperiodb, hperiod]
  · rw [← hagreementa, ← hagreementb, hagreement]
  · exact Inputs.same_of_hash_eq hfree hma hmb hhasha hhashb

/-- Bundles whose identifiers match, as those of all sealed bundles do, have one identifier exactly
if they agree on scope, period id, agreement and inputs hash. Sealed summaries with one identifier
were sealed for one kind of period, period id and agreement, and against the same inputs up to the
order of the receipts. What follows from equal identifiers takes that no two of the messages hashed
for them, and for the inputs, collide. -/
theorem recordId_eq_iff_sameRecord :
    (∀ a b : Bundle, a.idMatches = true → b.idMatches = true →
      (a.SameRecord b → a.recordId = b.recordId) ∧
      (CollisionFree [a.idMessage, b.idMessage] → a.recordId = b.recordId → a.SameRecord b)) ∧
    (∀ (notary : Notary) statement bundle, notary.Seals statement bundle →
      bundle.idMatches = true) ∧
    ∀ (notary other : Notary) (doc doc' : Summary) (inputs inputs' : Inputs)
      (periodId periodId' : UInt32) (a b : Bundle),
      notary.sealSummary doc inputs periodId = .ok a →
      other.sealSummary doc' inputs' periodId' = .ok b →
      CollisionFree ([a.idMessage, b.idMessage] ++ (inputs.messages ++ inputs'.messages)) →
      a.recordId = b.recordId →
      doc.period.kind = doc'.period.kind ∧ periodId = periodId' ∧
        doc.agreement = doc'.agreement ∧ inputs.Same inputs' := by
  refine ⟨?_, fun _ _ _ => Seals.idMatches, ?_⟩
  · intro a b ha hb
    refine ⟨fun hsame => hsame.recordId_eq ha hb, fun hfree h => ?_⟩
    have hmb : b.idMessage ∈ [a.idMessage, b.idMessage] :=
      List.mem_cons_of_mem _ List.mem_cons_self
    exact Bundle.recordId_inj hfree List.mem_cons_self hmb ha hb h
  · intro notary other doc doc' inputs inputs' periodId periodId' a b ha hb hfree h
    have hinputs : inputs.messages ++ inputs'.messages ⊆
        [a.idMessage, b.idMessage] ++ (inputs.messages ++ inputs'.messages) :=
      List.subset_append_right _ _
    obtain ⟨hma, hmb⟩ := List.append_subset.mp hinputs
    have hida : a.idMessage ∈ [a.idMessage, b.idMessage] ++ (inputs.messages ++ inputs'.messages) :=
      List.mem_cons_self
    have hidb : b.idMessage ∈ [a.idMessage, b.idMessage] ++ (inputs.messages ++ inputs'.messages) :=
      List.mem_cons_of_mem _ List.mem_cons_self
    exact same_of_recordId_eq hfree ha hb hida hidb hma hmb h

theorem sealSummary_reference (periodId : UInt32) :
    sealSummary {} Reference.summary Reference.inputs periodId =
      .ok (.of (.summary Reference.summary) Reference.inputsHash .quarterly periodId) := by
  rw [sealSummary_eq, first?_summaryCauses_reference]
  rfl

theorem messages_reference_inputs :
    Reference.inputs.messages = [Domain.inputs.message (Object.bytes .inputs
      (Reference.inputs.front 2 ++ Reference.inputs.receipts.reverse.flatMap Receipt.layout))] := by
  have hsort : Receipt.sort Reference.inputs.receipts = Reference.inputs.receipts.reverse :=
    Receipt.sort_eq_iff.mpr ⟨(List.reverse_perm _).symm, by decide +kernel⟩
  rw [Inputs.messages, Inputs.encode_eq, Inputs.bytes, Inputs.layout, hsort]
  rfl

/-- The reference summary has another record for another period id. -/
theorem reference_recordId_ne_of_periodId_changed :
    ∃ a b c, sealSummary {} Reference.summary Reference.inputs 20261 = .ok a ∧
      sealSummary {} Reference.summary
        { Reference.inputs with receipts := Reference.inputs.receipts.reverse } 20261 = .ok b ∧
      sealSummary {} Reference.summary Reference.inputs 20262 = .ok c ∧
      a.recordId = b.recordId ∧ a.recordId ≠ c.recordId := by
  have ha := sealSummary_reference 20261
  have hc := sealSummary_reference 20262
  have hb : sealSummary {} Reference.summary
      { Reference.inputs with receipts := Reference.inputs.receipts.reverse } 20261 = .ok _ :=
    (sealSummary_perm _ _ _ _ (List.reverse_perm _)).trans ha
  obtain ⟨hbundles, -, hsealed⟩ := recordId_eq_iff_sameRecord
  -- the order of the receipts leaves no trace, the period id does
  refine ⟨_, _, _, ha, hb, hc, ?_, ?_⟩
  · exact (hbundles _ _ (beq_iff_eq.mpr rfl) (beq_iff_eq.mpr rfl)).1 ⟨rfl, rfl, rfl, rfl⟩
  · intro h
    refine absurd (hsealed _ _ _ _ _ _ _ _ _ _ ha hc ?_ h).2.1 (by decide)
    rw [messages_reference_inputs]
    decide +kernel

end Notary

end PayrollSeal
