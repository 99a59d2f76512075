import PayrollSeal.Proofs.Document.Encodable
import PayrollSeal.Proofs.Document.Order
import PayrollSeal.Proofs.Domain
import PayrollSeal.Reference

/-!
# Canonical bytes determine documents

Documents that the encoding should not tell apart are those of `Document.Same`: equal ones, and
inputs that differ in nothing but the order of their receipts. No canonical bytes start those of a
document that is not the same.

## Strategy

Each document is the object over one layout (`Document.ofLayout_eq_of_encode_eq_ok`), and layouts of
one kind agree in form up to the receipts of inputs. The number of receipts stands in front of them,
so inputs whose fields in front agree also agree in form behind.
-/

namespace PayrollSeal

open Layout (chunks form)

/-! ## Same documents -/

/-- Two inputs agree on every field, up to the order of the receipts. -/
structure Inputs.Same (a b : Inputs) : Prop where
  versions : a.versions = b.versions
  agreement : a.agreement = b.agreement
  period : a.period = b.period
  currency : a.currency = b.currency
  receipts : a.receipts.Perm b.receipts

/-- Two documents are of one variant and agree on every field, up to the order of receipts. -/
def Document.Same : Document → Document → Prop
  | payPeriod a, payPeriod b => a = b
  | summary a, summary b => a = b
  | inputs a, inputs b => a.Same b
  | _, _ => False

/-! ## Fields of layouts -/

/-- A pay period can be read off its layout. -/
theorem PayPeriod.layout_inj {a b : PayPeriod} : a.layout = b.layout ↔ a = b := by
  refine ⟨fun h => ?_, fun h => congrArg layout h⟩
  cases a
  cases b
  simpa [layout] using h

/-- Pay periods are written in one form. -/
theorem PayPeriod.form_layout (a b : PayPeriod) : form a.layout = form b.layout := rfl

/-- A summary can be read off its layout, the period from three fields of it. -/
theorem Summary.layout_inj {a b : Summary} : a.layout = b.layout ↔ a = b := by
  refine ⟨fun h => ?_, fun h => congrArg layout h⟩
  obtain ⟨_, _, ⟨_, _, _⟩, _, _, _, _, _, _⟩ := a
  obtain ⟨_, _, ⟨_, _, _⟩, _, _, _, _, _, _⟩ := b
  simp only [layout, List.cons.injEq, Field.versions.injEq, Field.u8.injEq, Period.Kind.tag_inj,
    Field.hash.injEq, Field.u32.injEq, Field.element.injEq, Field.amounts.injEq,
    Field.anchor.injEq, and_true] at h
  obtain ⟨rfl, rfl, rfl, rfl, rfl, rfl, rfl, rfl, rfl, rfl, rfl⟩ := h
  rfl

/-- Summaries are written in one form. -/
theorem Summary.form_layout (a b : Summary) : form a.layout = form b.layout := rfl

namespace Receipt

theorem layout_inj {r s : Receipt} : r.layout = s.layout ↔ r = s := by
  refine ⟨fun h => ?_, fun h => congrArg layout h⟩
  cases r
  cases s
  simpa [layout, Kind.tag_inj] using h

theorem flatMap_layout_inj {a b : List Receipt} (hlen : a.length = b.length) :
    a.flatMap layout = b.flatMap layout ↔ a = b := by
  refine ⟨fun h => ?_, fun h => congrArg (List.flatMap layout) h⟩
  induction a generalizing b with
  | nil => exact (List.length_eq_zero_iff.mp hlen.symm).symm
  | cons r a ih =>
    obtain ⟨s, b, rfl⟩ := List.exists_cons_of_length_eq_add_one hlen.symm
    rw [List.flatMap_cons, List.flatMap_cons] at h
    obtain ⟨hr, hrest⟩ := List.append_inj h rfl
    rw [layout_inj.mp hr, ih (Nat.succ.inj hlen) hrest]

/-- The form of receipts is known from their number. -/
theorem form_flatMap_layout (receipts : List Receipt) :
    form (receipts.flatMap layout) = (List.replicate receipts.length [2, 1, 1]).flatten := by
  rw [form, List.map_flatMap, List.flatMap_def, ← List.map_const']
  rfl

end Receipt

namespace Inputs

/-- The fields in front of the receipts; `count` is the number of receipts. -/
def front (inputs : Inputs) (count : UInt32) : Layout :=
  [.versions inputs.versions, .hash inputs.agreement, .u8 inputs.period.kind.tag,
    .u32 inputs.period.start, .u32 inputs.period.stop, .u8 inputs.currency, .u32 count]

theorem chunks_layout (inputs : Inputs) (count : UInt32) :
    chunks (inputs.layout count) = chunks (inputs.front count) ++
      chunks ((Receipt.sort inputs.receipts).flatMap Receipt.layout) :=
  List.flatMap_append

/-- The fields in front of the receipts have one form. -/
theorem form_front (a b : Inputs) (m n : UInt32) : form (a.front m) = form (b.front n) := rfl

theorem front_inj {a b : Inputs} {m n : UInt32} :
    a.front m = b.front n ↔
      a.versions = b.versions ∧ a.agreement = b.agreement ∧ a.period = b.period ∧
        a.currency = b.currency ∧ m = n := by
  obtain ⟨_, _, ⟨_, _, _⟩, _, _⟩ := a
  obtain ⟨_, _, ⟨_, _, _⟩, _, _⟩ := b
  simp only [front, List.cons.injEq, Field.versions.injEq, Field.hash.injEq, Field.u8.injEq,
    Period.Kind.tag_inj, Field.u32.injEq, Period.mk.injEq, and_true, and_assoc]

/-- A number of receipts that fits is not cut off in its word. -/
private theorem length_eq_of_toUInt32_eq {m n : Nat} (hm : m ≤ IntType.u32.max)
    (hn : n ≤ IntType.u32.max) (h : m.toUInt32 = n.toUInt32) : m = n := by
  have hmax : IntType.u32.max = 4294967295 := rfl
  have hnat := congrArg UInt32.toNat h
  simp only [Nat.toUInt32_eq, UInt32.toNat_ofNat'] at hnat
  omega

/-- Chunks of inputs start those of other inputs only if both are the same. -/
theorem same_of_chunks_prefix {a b : Inputs} (ha : a.receipts.length ≤ IntType.u32.max)
    (hb : b.receipts.length ≤ IntType.u32.max)
    (h : chunks (a.layout a.receipts.length.toUInt32) <+:
      chunks (b.layout b.receipts.length.toUInt32)) : a.Same b := by
  rw [chunks_layout, chunks_layout, Layout.chunks_append_prefix_iff (form_front a b _ _),
    front_inj] at h
  obtain ⟨⟨hversions, hagreement, hperiod, hcurrency, hcount⟩, hreceipts⟩ := h
  have hlen : (Receipt.sort a.receipts).length = (Receipt.sort b.receipts).length := by
    rw [(Receipt.sort_perm _).length_eq, (Receipt.sort_perm _).length_eq]
    exact length_eq_of_toUInt32_eq ha hb hcount
  -- as many receipts follow on both sides, so they are written in one form
  have hform : form ((Receipt.sort a.receipts).flatMap Receipt.layout) =
      form ((Receipt.sort b.receipts).flatMap Receipt.layout) := by
    rw [Receipt.form_flatMap_layout, Receipt.form_flatMap_layout, hlen]
  rw [Layout.chunks_prefix_iff hform, Receipt.flatMap_layout_inj hlen,
    Receipt.sort_eq_sort_iff] at hreceipts
  exact ⟨hversions, hagreement, hperiod, hcurrency, hreceipts⟩

/-- Inputs have canonical bytes if there are receipts, not too many, and their layout has an
object. -/
theorem encode_eq_ok_iff {inputs : Inputs} {x : Bytes} :
    inputs.encode = .ok x ↔
      inputs.receipts ≠ [] ∧ inputs.receipts.length ≤ IntType.u32.max ∧
        Object.ofLayout .inputs (inputs.layout inputs.receipts.length.toUInt32) = .ok x := by
  rw [encode_eq, elim_eq_ok_iff, refusal?_eq_none_iff, and_assoc, ofLayout_eq, Except.ok.injEq]

/-- The order of receipts leaves no trace in the bytes, nor in a rejection. -/
theorem Same.encode_eq {a b : Inputs} (h : a.Same b) : a.encode = b.encode := by
  have hlen := h.receipts.length_eq
  have hempty := h.receipts.isEmpty_eq
  unfold encode layout
  rw [h.versions, h.agreement, h.period, h.currency, hlen, hempty,
    Receipt.sort_eq_sort_iff.mpr h.receipts]

end Inputs

/-! ## Documents -/

namespace Document

/-- The fields of a document in the order of their bytes. -/
def layout : Document → Layout
  | payPeriod doc => doc.layout
  | summary doc => doc.layout
  | inputs doc => doc.layout doc.receipts.length.toUInt32

/-- A document with canonical bytes is the object over its layout. -/
theorem ofLayout_eq_of_encode_eq_ok {doc : Document} {x : Bytes} (h : doc.encode = .ok x) :
    Object.ofLayout doc.kind doc.layout = .ok x := by
  cases doc with
  | payPeriod doc => exact h
  | summary doc => exact h
  | inputs doc => exact (Inputs.encode_eq_ok_iff.mp h).2.2

theorem hash_eq_of_encode_eq_ok {doc : Document} {x : Bytes} (h : doc.encode = .ok x) :
    doc.hash = .ok (doc.domain.hash x) := by
  rw [hash, h]
  rfl

/-- Documents that are the same have the same bytes, or are rejected alike. -/
theorem Same.encode_eq {a b : Document} (h : a.Same b) : a.encode = b.encode := by
  cases a <;> cases b <;> first | exact h.elim | skip
  case payPeriod.payPeriod => exact congrArg PayPeriod.encode h
  case summary.summary => exact congrArg Summary.encode h
  case inputs.inputs => exact Inputs.Same.encode_eq h

theorem Same.domain_eq {a b : Document} (h : a.Same b) : a.domain = b.domain := by
  cases a <;> cases b <;> first | exact h.elim | rfl

/-- Canonical bytes start those of another document only if both are the same. -/
theorem same_of_encode_prefix {a b : Document} {x y : Bytes} (ha : a.encode = .ok x)
    (hb : b.encode = .ok y) (h : x <+: y) : a.Same b := by
  obtain ⟨hkind, hchunks⟩ := (Object.prefix_iff_of_ofLayout_eq_ok
    (ofLayout_eq_of_encode_eq_ok ha) (ofLayout_eq_of_encode_eq_ok hb)).mp h
  -- the kind in the header tells the variants apart
  cases a <;> cases b <;> first | exact Object.Kind.noConfusion hkind | skip
  case payPeriod.payPeriod a b =>
    exact PayPeriod.layout_inj.mp ((Layout.chunks_prefix_iff (a.form_layout b)).mp hchunks)
  case summary.summary a b =>
    exact Summary.layout_inj.mp ((Layout.chunks_prefix_iff (a.form_layout b)).mp hchunks)
  case inputs.inputs a b =>
    have hlena := (Inputs.encode_eq_ok_iff.mp ha).2.1
    have hlenb := (Inputs.encode_eq_ok_iff.mp hb).2.1
    exact Inputs.same_of_chunks_prefix hlena hlenb hchunks

/-- Canonical bytes are prefix-free, and equal for the same documents alone; so are hashes, unless
the two hashed messages collide. -/
theorem encode_and_hash_iff_same {a b : Document} {x y : Bytes} (ha : a.encode = .ok x)
    (hb : b.encode = .ok y) :
    (x <+: y ↔ a.Same b) ∧ (x = y ↔ a.Same b) ∧
      (CollisionFree [a.domain.message x, b.domain.message y] →
        (a.hash = b.hash ↔ a.Same b)) := by
  have hbytes : a.Same b → x = y := by
    intro h
    exact Except.ok.inj (ha.symm.trans (h.encode_eq.trans hb))
  have hsame : x <+: y → a.Same b := same_of_encode_prefix ha hb
  refine ⟨⟨hsame, fun h => hbytes h ▸ List.prefix_refl x⟩,
    ⟨fun h => hsame (h ▸ List.prefix_refl x), hbytes⟩, fun hfree => ?_⟩
  rw [hash_eq_of_encode_eq_ok ha, hash_eq_of_encode_eq_ok hb, Except.ok.injEq]
  constructor
  · intro h
    have hx : a.domain.message x ∈ [a.domain.message x, b.domain.message y] := by simp
    have hy : b.domain.message y ∈ [a.domain.message x, b.domain.message y] := by simp
    obtain ⟨-, rfl⟩ := hfree.hash_inj hx hy h
    exact hsame (List.prefix_refl x)
  · intro h
    rw [h.domain_eq, hbytes h]

/-- Digits that move from one amount to the next change the hash of the reference pay period. -/
theorem reference_hash_ne_of_digits_moved :
    (payPeriod { Reference.payPeriod with amounts := .ofUnits 1 23 4 5 }).hash ≠
      (payPeriod { Reference.payPeriod with amounts := .ofUnits 12 3 4 5 }).hash := by
  have hencode : ∀ doc : PayPeriod, (∀ c ∈ chunks doc.layout, c.Fits) →
      (payPeriod doc).encode = .ok (Object.bytes .payPeriod doc.layout) :=
    fun doc hfits => Object.ofLayout_eq_ok_iff.mpr ⟨hfits, rfl⟩
  intro h
  have hsame := ((encode_and_hash_iff_same (hencode _ (by decide +kernel))
    (hencode _ (by decide +kernel))).2.2 (by decide +kernel)).mp h
  exact absurd (congrArg (PayPeriod.amounts · |>.gross) hsame) (by decide +kernel)

end Document

end PayrollSeal
