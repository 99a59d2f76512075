import PayrollSeal.Proofs.Document.Canonical
import PayrollSeal.Proofs.Statement.Leaves

/-!
# What the bytes of a leaf hold

The bytes of a leaf hold the agreement and the period of its statement and the fields that the leaf
is for (`Statement.AgreesOn`), and nothing else. They start the bytes of no other leaf and of no
document (`Statement.leafBytes_prefix_iff_agreesOn`).

## Strategy

The header says of which type the statement is and the first chunk names the leaf. Layouts of one
leaf and one type have one form, so the fields can be read off the chunks behind.
-/

namespace PayrollSeal

open Layout (chunks form)

/-! ## Fields of a leaf -/

/-- Two pay periods agree on the fields of a leaf. -/
def PayPeriod.AgreesOn (a : PayPeriod) (leaf : Leaf) (b : PayPeriod) : Prop :=
  a.agreement = b.agreement ∧ a.epoch = b.epoch ∧
    match leaf with
    | .binding => a.worker = b.worker ∧ a.employer = b.employer
    | .amounts => a.currency = b.currency ∧ a.amounts = b.amounts
    | .provenance =>
      a.inputsHash = b.inputsHash ∧ a.receipt = b.receipt ∧ a.audit = b.audit ∧
        a.timeHash = b.timeHash

/-- Two summaries agree on the fields of a leaf. The markers of the period are fields of the first
leaf alone, its kind is a field of every leaf. -/
def Summary.AgreesOn (a : Summary) (leaf : Leaf) (b : Summary) : Prop :=
  a.agreement = b.agreement ∧ a.period.kind = b.period.kind ∧
    match leaf with
    | .binding =>
      a.period.start = b.period.start ∧ a.period.stop = b.period.stop ∧ a.worker = b.worker ∧
        a.employer = b.employer
    | .amounts => a.currency = b.currency ∧ a.totals = b.totals
    | .provenance => a.inputsHash = b.inputsHash ∧ a.audit = b.audit

/-- Two statements are of one type and agree on the fields of a leaf. -/
def Statement.AgreesOn : Statement → Leaf → Statement → Prop
  | payPeriod a, leaf, payPeriod b => a.AgreesOn leaf b
  | summary a, leaf, summary b => a.AgreesOn leaf b
  | _, _, _ => False

/-! ## Layouts of leaves -/

theorem Leaf.tag_inj {l m : Leaf} : l.tag = m.tag ↔ l = m := by
  cases l <;> cases m <;> decide

theorem PayPeriod.leafLayout_eq_iff {a b : PayPeriod} {leaf : Leaf} :
    a.leafLayout leaf = b.leafLayout leaf ↔ a.AgreesOn leaf b := by
  cases leaf <;>
    simp only [leafLayout, AgreesOn, List.cons_append, List.nil_append, List.cons.injEq,
      Field.hash.injEq, Field.u32.injEq, Field.element.injEq, Field.u8.injEq,
      Field.amounts.injEq, Field.anchor.injEq, and_true, true_and]

theorem Summary.leafLayout_eq_iff {a b : Summary} {leaf : Leaf} :
    a.leafLayout leaf = b.leafLayout leaf ↔ a.AgreesOn leaf b := by
  cases leaf <;>
    simp only [leafLayout, AgreesOn, List.cons_append, List.nil_append, List.cons.injEq,
      Field.hash.injEq, Field.u32.injEq, Field.element.injEq, Field.u8.injEq,
      Period.Kind.tag_inj, Field.amounts.injEq, Field.anchor.injEq, and_true, true_and]

namespace Statement

variable {a b : Statement} {l m leaf : Leaf}

/-- Statements agree on a leaf exactly if they write it alike. -/
theorem agreesOn_iff :
    a.AgreesOn leaf b ↔ a.leafKind = b.leafKind ∧ a.leafLayout leaf = b.leafLayout leaf := by
  cases a with
  | payPeriod a =>
    cases b with
    | payPeriod b => exact ((and_iff_right rfl).trans PayPeriod.leafLayout_eq_iff).symm
    | summary b => exact iff_of_false id fun h => Object.Kind.noConfusion h.1
  | summary a =>
    cases b with
    | payPeriod b => exact iff_of_false id fun h => Object.Kind.noConfusion h.1
    | summary b => exact ((and_iff_right rfl).trans Summary.leafLayout_eq_iff).symm

/-- Statements of one type write a leaf in one form. -/
theorem form_leafLayout (h : a.leafKind = b.leafKind) (leaf : Leaf) :
    form (a.leafLayout leaf) = form (b.leafLayout leaf) := by
  cases a with
  | payPeriod a =>
    cases b with
    | payPeriod b => cases leaf <;> rfl
    | summary b => exact Object.Kind.noConfusion h
  | summary a =>
    cases b with
    | payPeriod b => exact Object.Kind.noConfusion h
    | summary b => cases leaf <;> rfl

/-- The first chunk of a leaf names it. -/
theorem leaf_eq_of_chunks_prefix (h : chunks (a.leafLayout l) <+: chunks (b.leafLayout m)) :
    l = m := by
  obtain ⟨rest, ha⟩ := a.exists_leafLayout_eq_cons l
  obtain ⟨rest', hb⟩ := b.exists_leafLayout_eq_cons m
  -- the form of the whole layout depends on the leaf, that of its first field does not
  have hfront : form [.u8 l.tag] = form [.u8 m.tag] := rfl
  rw [ha, hb] at h
  obtain ⟨hname, -⟩ := (Layout.chunks_append_prefix_iff hfront).mp h
  simpa only [List.cons.injEq, Field.u8.injEq, Leaf.tag_inj, and_true] using hname

/-- The chunks of a leaf start those of a leaf of the same type only if both are the same leaf and
the statements agree on it. -/
theorem chunks_leafLayout_prefix_iff :
    a.leafKind = b.leafKind ∧ chunks (a.leafLayout l) <+: chunks (b.leafLayout m) ↔
      l = m ∧ a.AgreesOn l b := by
  constructor
  · rintro ⟨hkind, hchunks⟩
    obtain rfl := leaf_eq_of_chunks_prefix hchunks
    have hlayout := (Layout.chunks_prefix_iff (form_leafLayout hkind l)).mp hchunks
    exact ⟨rfl, agreesOn_iff.mpr ⟨hkind, hlayout⟩⟩
  · rintro ⟨rfl, h⟩
    obtain ⟨hkind, hlayout⟩ := agreesOn_iff.mp h
    rw [hlayout]
    exact ⟨hkind, List.prefix_refl _⟩

/-! ## Bytes of leaves -/

/-- Fields of other leaves leave no trace, neither in the bytes nor in a rejection. -/
theorem AgreesOn.leafBytes_eq (h : a.AgreesOn leaf b) : a.leafBytes leaf = b.leafBytes leaf := by
  obtain ⟨hkind, hlayout⟩ := agreesOn_iff.mp h
  rw [leafBytes, leafBytes, hkind, hlayout]

/-- A leaf is of another kind than any document, so the bytes of neither start the other's. -/
theorem not_prefix_of_encode {doc : Document} {x z : Bytes} (ha : a.leafBytes l = .ok x)
    (hdoc : doc.encode = .ok z) : ¬ x <+: z ∧ ¬ z <+: x := by
  have hobject := Document.ofLayout_eq_of_encode_eq_ok hdoc
  have hkind : a.leafKind ≠ doc.kind := by
    cases a <;> cases doc <;> exact fun h => Object.Kind.noConfusion h
  constructor
  · intro h
    exact hkind ((Object.prefix_iff_of_ofLayout_eq_ok ha hobject).mp h).1
  · intro h
    exact hkind ((Object.prefix_iff_of_ofLayout_eq_ok hobject ha).mp h).1.symm

/-- The bytes of a leaf start those of another leaf, or equal them, exactly if both are one leaf of
statements of one type that agree on its fields. Statements that agree on them have the same leaf,
whatever their other fields are. No bytes of a document start those of a leaf, nor do those of a
leaf start a document's. -/
theorem leafBytes_prefix_iff_agreesOn {x : Bytes} (ha : a.leafBytes l = .ok x) :
    (∀ b m y, b.leafBytes m = .ok y →
      (x <+: y ↔ l = m ∧ a.AgreesOn l b) ∧ (x = y ↔ l = m ∧ a.AgreesOn l b)) ∧
    (∀ b, a.AgreesOn l b → b.leafBytes l = .ok x) ∧
    ∀ (doc : Document) z, doc.encode = .ok z → ¬ x <+: z ∧ ¬ z <+: x := by
  refine ⟨fun b m y hb => ?_, fun b h => ?_, fun doc z hdoc => not_prefix_of_encode ha hdoc⟩
  · have hstarts : x <+: y ↔ l = m ∧ a.AgreesOn l b :=
      (Object.prefix_iff_of_ofLayout_eq_ok ha hb).trans chunks_leafLayout_prefix_iff
    refine ⟨hstarts, ?_⟩
    constructor
    · rintro rfl
      exact hstarts.mp (List.prefix_refl x)
    · rintro ⟨rfl, h⟩
      have hbytes : Except.ok x = Except.ok y := ha.symm.trans (h.leafBytes_eq.trans hb)
      exact Except.ok.inj hbytes
  · rw [← h.leafBytes_eq]
    exact ha

/-- The reference pay period with another worker, other versions and an audit. -/
def audited : PayPeriod :=
  { Reference.payPeriod with
    versions := ⟨2, 1, 7⟩
    worker := .ofNat 42
    audit := ⟨.filled 0xdd, 5000⟩ }

/-- Worker, versions and audit leave no trace in the amounts leaf of the reference pay period; the
worker leaves one in the leaf of the names. -/
theorem reference_amounts_eq_audited_amounts :
    (∃ x, (payPeriod Reference.payPeriod).leafBytes .amounts = .ok x ∧
      (payPeriod audited).leafBytes .amounts = .ok x) ∧
    ∃ x y, (payPeriod Reference.payPeriod).leafBytes .binding = .ok x ∧
      (payPeriod audited).leafBytes .binding = .ok y ∧ x ≠ y := by
  have ha : (payPeriod Reference.payPeriod).HasLeaves _ := hasLeaves_of_fits (by decide +kernel)
  have hb : (payPeriod audited).HasLeaves _ := hasLeaves_of_fits (by decide +kernel)
  constructor
  · have hagrees : (payPeriod Reference.payPeriod).AgreesOn .amounts (payPeriod audited) :=
      ⟨rfl, rfl, rfl, rfl⟩
    obtain ⟨-, hsame, -⟩ := leafBytes_prefix_iff_agreesOn (ha .amounts)
    exact ⟨_, ha .amounts, hsame _ hagrees⟩
  · refine ⟨_, _, ha .binding, hb .binding, ?_⟩
    intro h
    obtain ⟨hiff, -, -⟩ := leafBytes_prefix_iff_agreesOn (ha .binding)
    obtain ⟨-, -, -, hworker, -⟩ := (hiff _ _ _ (hb .binding)).2.mp h
    exact absurd hworker (by decide +kernel)

end Statement

end PayrollSeal
