import PayrollSeal.Document.Encode
import PayrollSeal.Document.Json
import PayrollSeal.Proofs.Json.Fields
import PayrollSeal.Proofs.Json.Scalars
import PayrollSeal.Reference

/-!
# Documents are read back

Every part of a document is read back from what is written for it, however the members of the
objects are arranged. So is the document, whose type may stand anywhere among its members and whose
absent audit may be left off (`Document.ofText_of_renders`).
-/

namespace PayrollSeal

open Json (Fields Plain Reads ok_bind)

/-! ## Parts -/

theorem Versions.reads_toJson (v : Versions) : Reads ofJson v.toJson v := by
  intro json h
  obtain ⟨fields, hread, hfields⟩ := Fields.exists_read
    ["schema_v", "calc_v", "policy_v"] 0 (by decide) (List.Sublist.refl _) h
  simp only [ofJson, hread, ok_bind,
    hfields.get_eq "schema_v" (by simp) (Json.reads_uint16 v.schema),
    hfields.get_eq "calc_v" (by simp) (Json.reads_uint16 v.calculation),
    hfields.get_eq "policy_v" (by simp) (Json.reads_uint16 v.policy)]
  rfl

theorem Period.Kind.ofName_word (kind : Period.Kind) :
    Json.ofName all word kind.word = .ok kind := by
  cases kind <;> rfl

theorem Period.reads_toJson (blank : Json.Blank) (period : Period) :
    Reads (ofJson blank) period.toJson period := by
  intro json h
  obtain ⟨fields, hread, hfields⟩ := Fields.exists_read
    ["kind", "start", "end"] 0 (by decide) (List.Sublist.refl _) h
  have hkind : Reads (Kind.ofJson blank) period.kind.toJson period.kind :=
    Json.reads_name period.kind.ofName_word blank
  simp only [ofJson, hread, ok_bind, hfields.get_eq "kind" (by simp) hkind,
    hfields.get_eq "start" (by simp) (Json.reads_uint32 period.start),
    hfields.get_eq "end" (by simp) (Json.reads_uint32 period.stop)]
  rfl

theorem Anchor.reads_toJson (anchor : Anchor) : Reads ofJson anchor.toJson anchor := by
  intro json h
  obtain ⟨fields, hread, hfields⟩ := Fields.exists_read
    ["anchor", "height"] 0 (by decide) (List.Sublist.refl _) h
  simp only [ofJson, hread, ok_bind,
    hfields.get_eq "anchor" (by simp) anchor.hash.reads_toJson,
    hfields.get_eq "height" (by simp) (Json.reads_uint32 anchor.height)]
  rfl

theorem Amounts.reads_toJson (amounts : Amounts) : Reads ofJson amounts.toJson amounts := by
  intro json h
  obtain ⟨fields, hread, hfields⟩ := Fields.exists_read
    ["gross", "net", "tax_withheld", "fee"] 0 (by decide) (List.Sublist.refl _) h
  simp only [ofJson, hread, ok_bind,
    hfields.get_eq "gross" (by simp) amounts.gross.reads_toJson,
    hfields.get_eq "net" (by simp) amounts.net.reads_toJson,
    hfields.get_eq "tax_withheld" (by simp) amounts.taxWithheld.reads_toJson,
    hfields.get_eq "fee" (by simp) amounts.fee.reads_toJson]
  rfl

theorem Receipt.Kind.ofName_word (kind : Receipt.Kind) :
    Json.ofName all word kind.word = .ok kind := by
  cases kind <;> rfl

theorem Receipt.reads_toJson (blank : Json.Blank) (receipt : Receipt) :
    Reads (ofJson blank) receipt.toJson receipt := by
  intro json h
  obtain ⟨fields, hread, hfields⟩ := Fields.exists_read
    ["receipt", "payroll_inputs_hash", "kind"] 0 (by decide) (List.Sublist.refl _) h
  have hkind : Reads (Kind.ofJson blank) receipt.kind.toJson receipt.kind :=
    Json.reads_name receipt.kind.ofName_word blank
  simp only [ofJson, hread, ok_bind,
    hfields.get_eq "receipt" (by simp) receipt.anchor.reads_toJson,
    hfields.get_eq "payroll_inputs_hash" (by simp) receipt.inputsHash.reads_toJson,
    hfields.get_eq "kind" (by simp) hkind]
  rfl

theorem Inputs.reads_toJson (blank : Json.Blank) (inputs : Inputs) :
    Reads (ofJson blank) inputs.toJson inputs := by
  intro json h
  obtain ⟨fields, hread, hfields⟩ := Fields.exists_read
    ["versions", "agreement_id", "period", "currency_code", "items"] 0 (by decide)
    (List.Sublist.refl _) h
  have hreceipts : Reads (Json.readList (Receipt.ofJson blank))
      (.array (inputs.receipts.map Receipt.toJson)) inputs.receipts :=
    Json.reads_list fun receipt _ => receipt.reads_toJson blank
  simp only [ofJson, hread, ok_bind,
    hfields.get_eq "versions" (by simp [members]) inputs.versions.reads_toJson,
    hfields.get_eq "agreement_id" (by simp [members]) inputs.agreement.reads_toJson,
    hfields.get_eq "period" (by simp [members]) (inputs.period.reads_toJson blank),
    hfields.get_eq "currency_code" (by simp [members])
      (Json.reads_uint8 inputs.currency),
    hfields.get_eq "items" (by simp [members]) hreceipts]
  rfl

/-! ## Shapes of a document -/

namespace Document

/-- The audit of a document, if documents of its type have one. -/
def audit? : Document → Option Anchor
  | payPeriod doc => some doc.audit
  | summary doc => some doc.audit
  | inputs _ => none

/-- The members that say what a document is, but for its type: all of them, or all but the audit if
it is the absent one. -/
inductive Shown (doc : Document) : List (String × Json) → Prop
  | whole : Shown doc doc.members
  | withoutAudit (h : doc.audit? = some .absent) :
    Shown doc (doc.members.filter (·.1 ≠ "audit"))

/-- The objects that render a document: its type and its members in any order. -/
def Renders (doc : Document) (json : Json) : Prop :=
  ∃ shown, doc.Shown shown ∧
    (Json.record ((typeField, .ofString doc.docType.word) :: shown)).Rearranged json

namespace Shown

variable {doc : Document} {shown : List (String × Json)}

theorem sublist (h : doc.Shown shown) : shown.Sublist doc.members := by
  cases h with
  | whole => exact List.Sublist.refl _
  | withoutAudit => exact List.filter_sublist

/-- Every field but the audit is shown, and so is read back. -/
theorem get_eq (h : doc.Shown shown) {fields : Fields} (hfields : fields.Shows shown)
    (name : String) {value : Json} (hmem : (name, value) ∈ doc.members ∧ name ≠ "audit")
    {α : Type} {read : Json.Reader α} {result : α} (hread : Reads read value result) :
    fields.get name read = .ok result := by
  refine hfields.get_eq name ?_ hread
  cases h with
  | whole => exact hmem.1
  | withoutAudit => exact List.mem_filter.mpr ⟨hmem.1, decide_eq_true hmem.2⟩

/-- The audit is read back, whether it is shown or not. -/
theorem exists_audit (h : doc.Shown shown) {audit : Anchor} (haudit : doc.audit? = some audit)
    {fields : Fields} (hfields : fields.Shows shown) :
    ∃ found, fields.get? "audit" Anchor.ofJson = .ok found ∧ found.getD .absent = audit := by
  cases h with
  | whole =>
    have hmem : ("audit", audit.toJson) ∈ doc.members := by
      cases doc with
      | payPeriod doc =>
        cases haudit
        simp [members, PayPeriod.members]
      | summary doc =>
        cases haudit
        simp [members, Summary.members]
      | inputs => cases haudit
    exact ⟨some audit, hfields.get?_eq_some hmem audit.reads_toJson, rfl⟩
  | withoutAudit habsent =>
    have hnone : "audit" ∉ (doc.members.filter (·.1 ≠ "audit")).map Prod.fst := by
      intro hmem
      obtain ⟨member, hmember, hname⟩ := List.mem_map.mp hmem
      exact absurd hname (of_decide_eq_true (List.mem_filter.mp hmember).2)
    exact ⟨none, hfields.get?_eq_none hnone, Option.some.inj (habsent.symm.trans haudit)⟩

end Shown

/-! ## Documents -/

variable {shown : List (String × Json)} {json : Json}

theorem payPeriod_of_shown (doc : PayPeriod) (hshown : (payPeriod doc).Shown shown)
    (h : (Json.record shown).Rearranged json) : PayPeriod.ofJson json = .ok doc := by
  obtain ⟨fields, hread, hfields⟩ := Fields.exists_read
    ["versions", "agreement_id", "epoch_id", "worker_name_hash", "employer_name_hash",
      "currency_code", "amounts", "payroll_inputs_hash", "receipt", "audit", "utc_time_hash"] 0
    (by decide) (hshown.sublist.map Prod.fst) h
  obtain ⟨found, haudit, hfound⟩ := hshown.exists_audit rfl hfields
  have hget := @hshown.get_eq _ _ _ hfields
  simp only [PayPeriod.ofJson, hread, ok_bind, haudit, hfound,
    hget "versions" (by simp [members, PayPeriod.members]) doc.versions.reads_toJson,
    hget "agreement_id" (by simp [members, PayPeriod.members]) doc.agreement.reads_toJson,
    hget "epoch_id" (by simp [members, PayPeriod.members]) (Json.reads_uint32 doc.epoch),
    hget "worker_name_hash" (by simp [members, PayPeriod.members]) doc.worker.reads_toJson,
    hget "employer_name_hash" (by simp [members, PayPeriod.members]) doc.employer.reads_toJson,
    hget "currency_code" (by simp [members, PayPeriod.members]) (Json.reads_uint8 doc.currency),
    hget "amounts" (by simp [members, PayPeriod.members]) doc.amounts.reads_toJson,
    hget "payroll_inputs_hash" (by simp [members, PayPeriod.members]) doc.inputsHash.reads_toJson,
    hget "receipt" (by simp [members, PayPeriod.members]) doc.receipt.reads_toJson,
    hget "utc_time_hash" (by simp [members, PayPeriod.members]) doc.timeHash.reads_toJson]
  rfl

theorem summary_of_shown (blank : Json.Blank) (doc : Summary) (hshown : (summary doc).Shown shown)
    (h : (Json.record shown).Rearranged json) : Summary.ofJson blank json = .ok doc := by
  obtain ⟨fields, hread, hfields⟩ := Fields.exists_read
    ["versions", "agreement_id", "period", "worker_name_hash", "employer_name_hash",
      "currency_code", "totals", "inputs_hash", "audit"] 1 (by decide)
    (hshown.sublist.map Prod.fst) h
  obtain ⟨found, haudit, hfound⟩ := hshown.exists_audit rfl hfields
  have hget := @hshown.get_eq _ _ _ hfields
  simp only [Summary.ofJson, hread, ok_bind, haudit, hfound,
    hget "versions" (by simp [members, Summary.members]) doc.versions.reads_toJson,
    hget "agreement_id" (by simp [members, Summary.members]) doc.agreement.reads_toJson,
    hget "period" (by simp [members, Summary.members]) (doc.period.reads_toJson blank),
    hget "worker_name_hash" (by simp [members, Summary.members]) doc.worker.reads_toJson,
    hget "employer_name_hash" (by simp [members, Summary.members]) doc.employer.reads_toJson,
    hget "currency_code" (by simp [members, Summary.members]) (Json.reads_uint8 doc.currency),
    hget "totals" (by simp [members, Summary.members]) doc.totals.reads_toJson,
    hget "inputs_hash" (by simp [members, Summary.members]) doc.inputsHash.reads_toJson]
  rfl

theorem inputs_of_shown (blank : Json.Blank) (doc : Inputs) (hshown : (inputs doc).Shown shown)
    (h : (Json.record shown).Rearranged json) : Inputs.ofJson blank json = .ok doc := by
  cases hshown with
  | whole => exact doc.reads_toJson blank json h
  | withoutAudit habsent => cases habsent

theorem ofJsonAs_of_shown {doc : Document} (hshown : doc.Shown shown)
    (h : (Json.record shown).Rearranged json) : ofJsonAs doc.docType json = .ok doc := by
  cases doc with
  | payPeriod doc => exact congrArg (payPeriod <$> ·) (payPeriod_of_shown doc hshown h)
  | summary doc => exact congrArg (summary <$> ·) (summary_of_shown .nullOrEmpty doc hshown h)
  | inputs doc => exact congrArg (inputs <$> ·) (inputs_of_shown .nullOrEmpty doc hshown h)

theorem docType_ofJson_word (docType : DocType) :
    DocType.ofJson (.ofString docType.word) = .ok docType := by
  cases docType <;> rfl

/-- The names differ, and none of a document's own fields is named like its type. -/
theorem nodup_names {doc : Document} (hshown : doc.Shown shown) (value : Json) :
    (((typeField, value) :: shown).map Prod.fst).Nodup := by
  refine List.Nodup.sublist ((hshown.sublist.map Prod.fst).cons_cons typeField) ?_
  cases doc <;> simp [members, PayPeriod.members, Summary.members, Inputs.members, typeField]

/-- The members but for the type are the document's own. -/
theorem filter_record {name : Json} (hnodup : (((typeField, name) :: shown).map Prod.fst).Nodup)
    {others : List (Json.Text × Json)}
    (h : (Json.record ((typeField, name) :: shown)).Rearranged (.object others)) :
    (Json.record shown).Rearranged
      (.object (others.filter fun member => member.1 ≠ some typeField)) := by
  have hrest := Json.Rearranged.filter (fun key => decide (key ≠ some typeField)) h
  rw [List.map_cons, List.filter_cons_of_neg (by simp), List.filter_eq_self.mpr ?_] at hrest
  · exact hrest
  · refine List.forall_mem_map.mpr fun member hmember => decide_eq_true fun heq => ?_
    exact (List.nodup_cons.mp hnodup).1 (List.mem_map.mpr ⟨member, hmember, Option.some.inj heq⟩)

/-- The type is found among the members, and the document in the others. -/
theorem ofJson_of_renders {doc : Document} (h : doc.Renders json) : ofJson json = .ok doc := by
  obtain ⟨shown, hshown, hjson⟩ := h
  have hnodup := nodup_names hshown (.ofString doc.docType.word)
  obtain ⟨others, rfl, hothers⟩ := Fields.exists_arranges hnodup hjson
  obtain ⟨name, hnamed, hname⟩ := hothers.present List.mem_cons_self
  cases hname
  -- the type says which fields the other members are
  simp only [ofJson, hnamed]
  show (DocType.ofJson (.ofString doc.docType.word) >>= fun type => ofJsonAs type _) = _
  rw [docType_ofJson_word, ok_bind]
  exact ofJsonAs_of_shown hshown (filter_record hnodup hjson)

end Document

/-! ## Texts of documents -/

section

variable {depth : Nat}

@[simp]
theorem Versions.plain_toJson (v : Versions) : Plain (depth + 1) v.toJson :=
  Plain.record (by simp)

@[simp]
theorem Period.plain_toJson (period : Period) : Plain (depth + 1) period.toJson :=
  Plain.record (by simp [Kind.toJson])

@[simp]
theorem Anchor.plain_toJson (anchor : Anchor) : Plain (depth + 1) anchor.toJson :=
  Plain.record (by simp)

@[simp]
theorem Amounts.plain_toJson (amounts : Amounts) : Plain (depth + 1) amounts.toJson :=
  Plain.record (by simp)

@[simp]
theorem Receipt.plain_toJson (receipt : Receipt) : Plain (depth + 2) receipt.toJson :=
  Plain.record (by simp [Kind.toJson])

theorem Document.plain_members (doc : Document) :
    ∀ member ∈ doc.members, Plain (depth + 3) member.2 := by
  cases doc with
  | payPeriod doc => simp [members, PayPeriod.members]
  | summary doc => simp [members, Summary.members]
  | inputs doc =>
    have hreceipts : Plain (depth + 3) (.array (doc.receipts.map Receipt.toJson)) :=
      .array (List.forall_mem_map.mpr fun receipt _ => receipt.plain_toJson)
    simp [members, Inputs.members, hreceipts]

end

namespace Document

variable {doc : Document} {json : Json}

/-- A document stays far from the limit on nesting. -/
theorem plain_of_renders (h : doc.Renders json) : Plain maxDepth json := by
  obtain ⟨shown, hshown, hjson⟩ := h
  refine hjson.plain (Plain.record (List.forall_mem_cons.mpr ⟨Json.plain_ofString _, ?_⟩))
  exact fun member hmember => doc.plain_members member (hshown.sublist.subset hmember)

/-- A text that spells an object of a document is read as the document. -/
theorem ofText_of_spells (h : doc.Renders json) {text : String} (htext : Json.Spells text json) :
    ofText text = .ok doc := by
  rw [ofText, Json.readPlainText, Json.ofPlainText?_of_spells htext (plain_of_renders h)]
  exact ofJson_of_renders h

/-- Every text of a document is read as that document, with its canonical bytes and hash: each text
that spells its type and its fields in some order, in the objects inside as well. One is the text
without blanks of the document's own object. An absent audit may be left off. -/
theorem ofText_of_renders (doc : Document) :
    (∀ json, doc.Renders json → ∀ text, Json.Spells text json →
      ofText text = .ok doc ∧ (ofText text).map encode = .ok doc.encode ∧
        (ofText text).map hash = .ok doc.hash) ∧
    (∀ json : Json, Json.Spells json.compact json) ∧ doc.Renders doc.toJson ∧
    (doc.audit? = some .absent → doc.Renders (.record ((typeField, .ofString doc.docType.word) ::
      doc.members.filter (·.1 ≠ "audit")))) := by
  refine ⟨fun json hjson text htext => ?_, Json.spells_compact, ?_, fun habsent => ?_⟩
  · have hread := ofText_of_spells hjson htext
    rw [hread]
    exact ⟨rfl, rfl, rfl⟩
  · exact ⟨_, .whole, Json.Rearranged.refl _⟩
  · exact ⟨_, .withoutAudit habsent, Json.Rearranged.refl _⟩

/-- The pay period of the reference is read from a text with the members in reverse, the type last
and no audit. -/
theorem ofText_reference_reversed :
    ofText (Json.record ((Reference.payPeriod.members.filter (·.1 ≠ "audit")).reverse ++
      [("doc_type", .ofString "PAY_PERIOD")])).compact = .ok (.payPeriod Reference.payPeriod) := by
  have hjson : (payPeriod Reference.payPeriod).Renders
      (Json.record ((Reference.payPeriod.members.filter (·.1 ≠ "audit")).reverse ++
        [("doc_type", .ofString "PAY_PERIOD")])) := by
    refine ⟨_, .withoutAudit rfl, .object rfl (Json.Rearranged.refl_members _) ?_⟩
    exact ((List.reverse_perm _).symm.map _).trans (List.reverse_cons ▸ List.Perm.refl _)
  exact ((ofText_of_renders _).1 _ hjson _ (Json.spells_compact _)).1

end Document

end PayrollSeal
