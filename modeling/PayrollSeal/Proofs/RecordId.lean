import PayrollSeal.Bundle
import PayrollSeal.Proofs.Chunk
import PayrollSeal.Proofs.Domain

/-!
# What a record identifier binds

The parts of an identifier have fixed widths, so the one message that is hashed for it determines
each of them (`RecordId.message_inj`). A bundle whose identifier matches is therefore known by its
identifier up to the hashes of the document (`Bundle.recordId_inj`).
-/

namespace PayrollSeal

/-! ## Scopes -/

theorem Scope.tag_inj {s t : Scope} : s.tag = t.tag ↔ s = t := by
  cases s <;> cases t <;> decide

/-- The scope of the records over a kind of period. -/
inductive Scope.Follows : Period.Kind → Scope → Prop
  | cycle : Follows .cycle .cycle
  | quarter : Follows .quarter .quarterly
  | yearToDate : Follows .yearToDate .yearToDate
  | endOfYear : Follows .endOfYear .endOfYear

theorem Scope.follows_ofKind (kind : Period.Kind) : Follows kind (ofKind kind) := by
  cases kind <;> constructor

/-- Every kind of period has a scope of its own. -/
theorem Scope.ofKind_inj {k l : Period.Kind} : ofKind k = ofKind l ↔ k = l := by
  cases k <;> cases l <;> decide

/-! ## Identifiers -/

namespace RecordId

variable {scope scope' : Scope} {periodId periodId' : UInt32}
  {agreement agreement' inputsHash inputsHash' : Digest}

/-- The message that is hashed for an identifier. -/
def message (scope : Scope) (periodId : UInt32) (agreement inputsHash : Digest) : Bytes :=
  Domain.identifier.messageOfParts (parts scope periodId agreement inputsHash)

/-- The parts stand one after another without a mark between them, and can be told apart for their
widths. -/
theorem flatten_parts_inj :
    (parts scope periodId agreement inputsHash).flatten =
        (parts scope' periodId' agreement' inputsHash').flatten ↔
      scope = scope' ∧ periodId = periodId' ∧ agreement = agreement' ∧
        inputsHash = inputsHash' := by
  constructor
  · intro h
    simp only [parts, List.flatten_cons, List.flatten_nil, List.append_nil] at h
    have hwidth : agreement.bytes.length = agreement'.bytes.length := by
      rw [agreement.length_bytes, agreement'.length_bytes]
    -- the version, the scope and the period id are peeled off from the front
    obtain ⟨-, h⟩ := List.append_inj h rfl
    obtain ⟨hscope, h⟩ := List.append_inj h rfl
    obtain ⟨hperiod, h⟩ := List.append_inj h rfl
    obtain ⟨hagreement, hinputs⟩ := List.append_inj h hwidth
    refine ⟨?_, ?_, ?_, ?_⟩
    · exact Scope.tag_inj.mp (List.singleton_inj.mp hscope)
    · exact Bytes.ofUInt32_inj.mp hperiod
    · exact Digest.ext hagreement
    · exact Digest.ext hinputs
  · rintro ⟨rfl, rfl, rfl, rfl⟩
    rfl

theorem message_inj :
    message scope periodId agreement inputsHash =
        message scope' periodId' agreement' inputsHash' ↔
      scope = scope' ∧ periodId = periodId' ∧ agreement = agreement' ∧
        inputsHash = inputsHash' := by
  rw [message, message, Domain.messageOfParts_inj, flatten_parts_inj, and_iff_right rfl]

end RecordId

/-! ## Bundles -/

namespace Bundle

variable {messages : List Bytes} {a b : Bundle}

/-- The message that is hashed to check a bundle's identifier. -/
def idMessage (bundle : Bundle) : Bytes :=
  RecordId.message bundle.scope bundle.periodId bundle.agreement bundle.inputsHash

/-- Two bundles agree on the values that an identifier binds. -/
structure SameRecord (a b : Bundle) : Prop where
  scope : a.scope = b.scope
  periodId : a.periodId = b.periodId
  agreement : a.agreement = b.agreement
  inputsHash : a.inputsHash = b.inputsHash

theorem hash_idMessage (h : a.idMatches = true) : Blake3.hash a.idMessage = a.recordId.hash := by
  have hid := beq_iff_eq.mp h
  rw [← hid]
  rfl

/-- Bundles that agree on the bound values have one identifier. -/
theorem SameRecord.recordId_eq (h : a.SameRecord b) (ha : a.idMatches = true)
    (hb : b.idMatches = true) : a.recordId = b.recordId := by
  have hida := beq_iff_eq.mp ha
  have hidb := beq_iff_eq.mp hb
  rw [← hida, ← hidb, h.scope, h.periodId, h.agreement, h.inputsHash]

/-- Bundles with one identifier agree on the bound values. -/
theorem recordId_inj (hfree : CollisionFree messages) (hma : a.idMessage ∈ messages)
    (hmb : b.idMessage ∈ messages) (ha : a.idMatches = true) (hb : b.idMatches = true)
    (h : a.recordId = b.recordId) : a.SameRecord b := by
  have hhash : Blake3.hash a.idMessage = Blake3.hash b.idMessage := by
    rw [hash_idMessage ha, hash_idMessage hb, h]
  have hmessage : a.idMessage = b.idMessage := hfree _ hma _ hmb hhash
  obtain ⟨hscope, hperiod, hagreement, hinputs⟩ := RecordId.message_inj.mp hmessage
  exact ⟨hscope, hperiod, hagreement, hinputs⟩

end Bundle

end PayrollSeal
