import PayrollSeal.Proofs.Document.Order
import PayrollSeal.Proofs.Slots
import PayrollSeal.Proofs.Statement.Encodable
import PayrollSeal.Reference

/-!
# Where the values of a document stand

The places of a document's values are fixed by the lengths of its decimals: neither the values of
fixed width nor the absence of an audit move anything (`PayPeriod.slots`, `Summary.slots`). Inputs
hold no decimals, so their length is fixed by the number of receipts.
-/

namespace PayrollSeal

/-! ## Pay periods -/

namespace PayPeriod

/-- The slots of a pay period, in the order of their bytes. -/
def slots (doc : PayPeriod) : List Slot :=
  let worker := doc.worker.bytes.length
  let names := worker + doc.employer.bytes.length
  let gross := doc.amounts.gross.bytes.length
  let net := doc.amounts.net.bytes.length
  let tax := doc.amounts.taxWithheld.bytes.length
  let all := names + gross + net + tax + doc.amounts.fee.bytes.length
  [⟨7, .u16 doc.versions.schema⟩,
    ⟨12, .u16 doc.versions.calculation⟩,
    ⟨17, .u16 doc.versions.policy⟩,
    ⟨22, .hash doc.agreement⟩,
    ⟨57, .u32 doc.epoch⟩,
    ⟨64, .element doc.worker⟩,
    ⟨67 + worker, .element doc.employer⟩,
    ⟨70 + names, .u8 doc.currency⟩,
    ⟨74 + names, .units doc.amounts.gross⟩,
    ⟨77 + names + gross, .units doc.amounts.net⟩,
    ⟨80 + names + gross + net, .units doc.amounts.taxWithheld⟩,
    ⟨83 + names + gross + net + tax, .units doc.amounts.fee⟩,
    ⟨86 + all, .hash doc.inputsHash⟩,
    ⟨121 + all, .hash doc.receipt.hash⟩,
    ⟨156 + all, .u32 doc.receipt.height⟩,
    ⟨163 + all, .hash doc.audit.hash⟩,
    ⟨198 + all, .u32 doc.audit.height⟩,
    ⟨205 + all, .hash doc.timeHash⟩]

theorem slots_eq (doc : PayPeriod) : doc.slots = Object.slots doc.layout := by
  simp [slots, Object.slots, layout, Object.headerLength, Field.writes, Amounts.toList,
    Slot.ofWrites, Write.content, Chunk.headerLength, Digest.length_bytes, digestLength]
  omega

/-- The number of digits of all decimals. -/
def digits (doc : PayPeriod) : Nat :=
  (doc.decimals.map (·.bytes.length)).sum

/-- The fields in front of the audit. -/
def front (doc : PayPeriod) : Layout :=
  [.versions doc.versions, .hash doc.agreement, .u32 doc.epoch, .element doc.worker,
    .element doc.employer, .u8 doc.currency, .amounts doc.amounts, .hash doc.inputsHash,
    .anchor doc.receipt]

theorem length_bytes_front (doc : PayPeriod) :
    (Object.bytes .payPeriod doc.front).length = 160 + doc.digits := by
  rw [Object.length_bytes]
  simp only [front, digits, decimals, Amounts.toList, Field.width, Object.headerLength,
    List.map_cons, List.map_nil, List.sum_cons, List.sum_nil]
  omega

/-- Pay periods whose decimals have the same lengths differ at most in the values of slots that
do. -/
theorem differOnlyIn_of_encode {a b : PayPeriod} {x y : Bytes} (ha : a.encode = .ok x)
    (hb : b.encode = .ok y)
    (h : a.decimals.map (·.bytes.length) = b.decimals.map (·.bytes.length)) :
    Slot.DifferOnlyIn a.slots b.slots x y := by
  rw [slots_eq, slots_eq]
  exact Object.differOnlyIn_of_ofLayout ha hb rfl h

/-- Another audit overwrites the hash and the height of the one before. -/
theorem encode_replace_audit {doc : PayPeriod} {x : Bytes} (h : doc.encode = .ok x)
    (audit : Anchor) :
    encode { doc with audit } =
      .ok ((x.overwrite (163 + doc.digits) audit.hash.bytes).overwrite (198 + doc.digits)
        (.ofUInt32 audit.height)) := by
  have hlayout : Object.ofLayout .payPeriod
      (doc.front ++ .anchor doc.audit :: [.hash doc.timeHash]) = .ok x := h
  have hlen := doc.length_bytes_front
  exact Object.ofLayout_replace_anchor hlayout (by omega) (by omega) audit

end PayPeriod

/-! ## Summaries -/

namespace Summary

/-- The slots of a summary, in the order of their bytes. -/
def slots (doc : Summary) : List Slot :=
  let worker := doc.worker.bytes.length
  let names := worker + doc.employer.bytes.length
  let gross := doc.totals.gross.bytes.length
  let net := doc.totals.net.bytes.length
  let tax := doc.totals.taxWithheld.bytes.length
  let all := names + gross + net + tax + doc.totals.fee.bytes.length
  [⟨7, .u16 doc.versions.schema⟩,
    ⟨12, .u16 doc.versions.calculation⟩,
    ⟨17, .u16 doc.versions.policy⟩,
    ⟨22, .u8 doc.period.kind.tag⟩,
    ⟨26, .hash doc.agreement⟩,
    ⟨61, .u32 doc.period.start⟩,
    ⟨68, .u32 doc.period.stop⟩,
    ⟨75, .element doc.worker⟩,
    ⟨78 + worker, .element doc.employer⟩,
    ⟨81 + names, .u8 doc.currency⟩,
    ⟨85 + names, .units doc.totals.gross⟩,
    ⟨88 + names + gross, .units doc.totals.net⟩,
    ⟨91 + names + gross + net, .units doc.totals.taxWithheld⟩,
    ⟨94 + names + gross + net + tax, .units doc.totals.fee⟩,
    ⟨97 + all, .hash doc.inputsHash⟩,
    ⟨132 + all, .hash doc.audit.hash⟩,
    ⟨167 + all, .u32 doc.audit.height⟩]

theorem slots_eq (doc : Summary) : doc.slots = Object.slots doc.layout := by
  simp [slots, Object.slots, layout, Object.headerLength, Field.writes, Amounts.toList,
    Slot.ofWrites, Write.content, Chunk.headerLength, Digest.length_bytes, digestLength]
  omega

/-- The number of digits of all decimals. -/
def digits (doc : Summary) : Nat :=
  (doc.decimals.map (·.bytes.length)).sum

/-- The fields in front of the audit, which comes last. -/
def front (doc : Summary) : Layout :=
  [.versions doc.versions, .u8 doc.period.kind.tag, .hash doc.agreement,
    .u32 doc.period.start, .u32 doc.period.stop, .element doc.worker, .element doc.employer,
    .u8 doc.currency, .amounts doc.totals, .hash doc.inputsHash]

theorem length_bytes_front (doc : Summary) :
    (Object.bytes .summary doc.front).length = 129 + doc.digits := by
  rw [Object.length_bytes]
  simp only [front, digits, decimals, Amounts.toList, Field.width, Object.headerLength,
    List.map_cons, List.map_nil, List.sum_cons, List.sum_nil]
  omega

/-- Summaries whose decimals have the same lengths differ at most in the values of slots that do. -/
theorem differOnlyIn_of_encode {a b : Summary} {x y : Bytes} (ha : a.encode = .ok x)
    (hb : b.encode = .ok y)
    (h : a.decimals.map (·.bytes.length) = b.decimals.map (·.bytes.length)) :
    Slot.DifferOnlyIn a.slots b.slots x y := by
  rw [slots_eq, slots_eq]
  exact Object.differOnlyIn_of_ofLayout ha hb rfl h

/-- Another audit overwrites the hash and the height of the one before. -/
theorem encode_replace_audit {doc : Summary} {x : Bytes} (h : doc.encode = .ok x)
    (audit : Anchor) :
    encode { doc with audit } =
      .ok ((x.overwrite (132 + doc.digits) audit.hash.bytes).overwrite (167 + doc.digits)
        (.ofUInt32 audit.height)) := by
  have hlayout : Object.ofLayout .summary (doc.front ++ [.anchor doc.audit]) = .ok x := h
  have hlen := doc.length_bytes_front
  exact Object.ofLayout_replace_anchor hlayout (by omega) (by omega) audit

end Summary

/-! ## Inputs -/

namespace Inputs

/-- Every receipt takes as many bytes as any other. -/
theorem sum_width_flatMap_layout (receipts : List Receipt) :
    ((receipts.flatMap Receipt.layout).map Field.width).sum = 81 * receipts.length := by
  induction receipts with
  | nil => rfl
  | cons receipt receipts ih =>
    have hwidth : (receipt.layout.map Field.width).sum = 81 := rfl
    rw [List.flatMap_cons, List.map_append, List.sum_append_nat, hwidth, ih, List.length_cons]
    omega

theorem length_bytes (inputs : Inputs) :
    inputs.bytes.length = 83 + 81 * inputs.receipts.length := by
  rw [bytes, Object.length_bytes, layout, List.map_append, List.sum_append_nat,
    sum_width_flatMap_layout, (Receipt.sort_perm inputs.receipts).length_eq]
  simp only [Field.width, Object.headerLength, List.map_cons, List.map_nil, List.sum_cons,
    List.sum_nil]
  omega

end Inputs

/-! ## All documents -/

namespace Document

/-- Two pay periods, or two summaries, whose decimals have the same lengths are written in the same
number of bytes, with each value in its slot, and differ at most in the values of slots that do.
Another audit, the absent one included, overwrites 32 bytes of a hash and 4 bytes of a height, at
places that the number of digits in front of them fixes. Inputs that can be written take 83 bytes
and 81 for each receipt. -/
theorem encode_differ_only_in_slots :
    (∀ (a b : PayPeriod) (x y : Bytes), a.encode = .ok x → b.encode = .ok y →
      a.decimals.map (·.bytes.length) = b.decimals.map (·.bytes.length) →
        Slot.DifferOnlyIn a.slots b.slots x y) ∧
    (∀ (a b : Summary) (x y : Bytes), a.encode = .ok x → b.encode = .ok y →
      a.decimals.map (·.bytes.length) = b.decimals.map (·.bytes.length) →
        Slot.DifferOnlyIn a.slots b.slots x y) ∧
    (∀ (doc : PayPeriod) (x : Bytes) (audit : Anchor), doc.encode = .ok x →
      PayPeriod.encode { doc with audit } =
        .ok ((x.overwrite (163 + doc.digits) audit.hash.bytes).overwrite (198 + doc.digits)
          (.ofUInt32 audit.height))) ∧
    (∀ (doc : Summary) (x : Bytes) (audit : Anchor), doc.encode = .ok x →
      Summary.encode { doc with audit } =
        .ok ((x.overwrite (132 + doc.digits) audit.hash.bytes).overwrite (167 + doc.digits)
          (.ofUInt32 audit.height))) ∧
    ∀ inputs : Inputs,
      (1 ≤ inputs.receipts.length → inputs.receipts.length ≤ 2 ^ 32 - 1 →
        ∃ x, inputs.encode = .ok x) ∧
      ∀ x, inputs.encode = .ok x → x.length = 83 + 81 * inputs.receipts.length := by
  refine ⟨fun a b x y => PayPeriod.differOnlyIn_of_encode,
    fun a b x y => Summary.differOnlyIn_of_encode,
    fun doc x audit h => PayPeriod.encode_replace_audit h audit,
    fun doc x audit h => Summary.encode_replace_audit h audit, fun inputs => ⟨?_, ?_⟩⟩
  · intro hpos hmax
    have hrefusal : inputs.refusal? = none :=
      Inputs.refusal?_eq_none_iff.mpr ⟨List.ne_nil_of_length_pos hpos, hmax⟩
    exact ⟨inputs.bytes, by rw [inputs.encode_eq, hrefusal, Option.elim_none]⟩
  · intro x h
    rw [inputs.encode_eq, elim_eq_ok_iff] at h
    rw [← h.2, inputs.length_bytes]

/-- The epoch of the reference pay period stands in four bytes, and an audit of it in 32 and in 4
more. The two receipts of the reference inputs make 245 bytes. -/
theorem reference_encode_differ_only_in_slots :
    (∃ x y, Reference.payPeriod.encode = .ok x ∧
      PayPeriod.encode { Reference.payPeriod with epoch := 2 } = .ok y ∧ x.length = y.length ∧
      (∀ place, place < 57 ∨ 61 ≤ place → x[place]? = y[place]?) ∧
      PayPeriod.encode { Reference.payPeriod with audit := ⟨.filled 0xdd, 7⟩ } =
        .ok ((x.overwrite 185 (List.replicate 32 0xdd)).overwrite 220 [0, 0, 0, 7])) ∧
    ∃ z, Reference.inputs.encode = .ok z ∧ z.length = 245 := by
  obtain ⟨hpayPeriods, -, haudit, -, hinputs⟩ := encode_differ_only_in_slots
  constructor
  · have hencode : ∀ doc : PayPeriod, (∀ c ∈ Layout.chunks doc.layout, c.Fits) →
        doc.encode = .ok (Object.bytes .payPeriod doc.layout) :=
      fun doc hfits => Object.ofLayout_eq_ok_iff.mpr ⟨hfits, rfl⟩
    have hx := hencode Reference.payPeriod (by decide +kernel)
    have hy := hencode { Reference.payPeriod with epoch := 2 } (by decide +kernel)
    have hdiffer := hpayPeriods _ _ _ _ hx hy rfl
    have haudited := haudit _ _ ⟨.filled 0xdd, 7⟩ hx
    have hdigits : Reference.payPeriod.digits = 22 := by decide +kernel
    rw [hdigits] at haudited
    refine ⟨_, _, hx, hy, hdiffer.length_eq, fun place hplace => ?_, haudited⟩
    by_contra hne
    obtain ⟨pair, hpair, hwrites, hstart, hstop⟩ := hdiffer.exists_slot place hne
    simp only [PayPeriod.slots, List.zip_cons_cons, List.zip_nil_left, List.mem_cons,
      List.not_mem_nil, or_false] at hpair
    rcases hpair with rfl | rfl | rfl | rfl | rfl | rfl | rfl | rfl | rfl | rfl | rfl | rfl | rfl |
      rfl | rfl | rfl | rfl | rfl
    -- all writes are the same but that of the epoch
    any_goals exact hwrites rfl
    have hepoch : 57 ≤ place ∧ place < 57 + 4 := ⟨hstart, hstop⟩
    omega
  · obtain ⟨z, hz⟩ := (hinputs Reference.inputs).1 (by decide) (by decide)
    exact ⟨z, hz, (hinputs Reference.inputs).2 z hz⟩

end Document

end PayrollSeal
