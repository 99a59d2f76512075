import PayrollSeal.Bundle.Json
import PayrollSeal.Opening.Json
import PayrollSeal.Proofs.Document.Json

/-!
# Bundles and openings in transport

A bundle or an opening that is sent as text arrives as it was, whatever it holds: the proof and the
bytes of a leaf may have any length, and nothing in them has to check out. So the checks have one
outcome on both sides (`ofText_toText_and_checks`).
-/

namespace PayrollSeal

open Json (Fields Reads ok_bind)

/-! ## Openings -/

theorem Merkle.Side.ofName_word (side : Merkle.Side) :
    Json.ofName all word side.word = .ok side := by
  cases side <;> rfl

theorem Merkle.Step.reads_toJson (step : Merkle.Step) : Reads ofJson step.toJson step := by
  intro json h
  obtain ⟨fields, hread, hfields⟩ := Fields.exists_read
    ["sibling", "side"] 0 (by decide) (List.Sublist.refl _) h
  have hside : Reads Side.ofJson step.side.toJson step.side :=
    Json.reads_name step.side.ofName_word .null
  simp only [ofJson, hread, ok_bind,
    hfields.get_eq "sibling" (by simp) step.sibling.reads_toJson,
    hfields.get_eq "side" (by simp) hside]
  rfl

theorem Merkle.reads_proofToJson (proof : List Merkle.Step) :
    Reads proofOfJson (proofToJson proof) proof :=
  Json.reads_list fun step _ => step.reads_toJson

theorem Leaf.ofName_word (leaf : Leaf) : Json.ofName all word leaf.word = .ok leaf := by
  cases leaf <;> rfl

namespace Opening

theorem reads_bytesToJson (bytes : Bytes) : Reads bytesOfJson (bytesToJson bytes) bytes := by
  refine Json.reads_text_iff.mpr ?_
  show (Hex.decode (String.ofList (Hex.encode bytes)).toList).mapError ReadError.badHex = _
  rw [String.toList_ofList, Hex.decode_encode]
  rfl

theorem reads_toJson (opening : Opening) : Reads ofJson opening.toJson opening := by
  intro json h
  obtain ⟨fields, hread, hfields⟩ := Fields.exists_read
    ["leaf", "object_kind", "leaf_bytes", "leaf_hash", "proof", "root"] 0 (by decide)
    (List.Sublist.refl _) h
  have hleaf : Reads Leaf.ofJson opening.leaf.toJson opening.leaf :=
    Json.reads_name opening.leaf.ofName_word .null
  simp only [ofJson, hread, ok_bind, hfields.get_eq "leaf" (by simp) hleaf,
    hfields.get_eq "object_kind" (by simp) (Json.reads_uint16 opening.kindTag),
    hfields.get_eq "leaf_bytes" (by simp) (reads_bytesToJson opening.leafBytes),
    hfields.get_eq "leaf_hash" (by simp) opening.leafHash.reads_toJson,
    hfields.get_eq "proof" (by simp) (Merkle.reads_proofToJson opening.proof),
    hfields.get_eq "root" (by simp) opening.root.reads_toJson]
  rfl

end Opening

/-! ## Bundles -/

theorem Scope.ofName_word (scope : Scope) : Json.ofName all word scope.word = .ok scope := by
  cases scope <;> rfl

theorem RecordId.reads_toJson (id : RecordId) : Reads ofJson id.toJson id := by
  intro json h
  exact congrArg (RecordId.mk <$> ·) (id.hash.reads_toJson json h)

theorem LeafHashes.reads_toJson (hashes : LeafHashes) : Reads ofJson hashes.toJson hashes := by
  intro json h
  -- an array keeps its order, and there are three hashes
  cases h with
  | array hitems =>
    cases hitems with | cons hbinding hitems =>
    cases hitems with | cons hamounts hitems =>
    cases hitems with | cons hprovenance hitems =>
    cases hitems
    simp only [ofJson, Digest.reads_toJson _ _ hbinding, Digest.reads_toJson _ _ hamounts,
      Digest.reads_toJson _ _ hprovenance, ok_bind]
    rfl

theorem Bundle.reads_toJson (bundle : Bundle) : Reads ofJson bundle.toJson bundle := by
  intro json h
  obtain ⟨fields, hread, hfields⟩ := Fields.exists_read
    ["doc_hash", "inputs_hash", "root", "leaf_hashes", "record_id", "scope", "period_id",
      "versions", "agreement_id"] 0 (by decide) (List.Sublist.refl _) h
  have hscope : Reads Scope.ofJson bundle.scope.toJson bundle.scope :=
    Json.reads_name bundle.scope.ofName_word .null
  simp only [ofJson, hread, ok_bind,
    hfields.get_eq "doc_hash" (by simp) bundle.docHash.reads_toJson,
    hfields.get_eq "inputs_hash" (by simp) bundle.inputsHash.reads_toJson,
    hfields.get_eq "root" (by simp) bundle.root.reads_toJson,
    hfields.get_eq "leaf_hashes" (by simp) bundle.leafHashes.reads_toJson,
    hfields.get_eq "record_id" (by simp) bundle.recordId.reads_toJson,
    hfields.get_eq "scope" (by simp) hscope,
    hfields.get_eq "period_id" (by simp) (Json.reads_uint32 bundle.periodId),
    hfields.get_eq "versions" (by simp) bundle.versions.reads_toJson,
    hfields.get_eq "agreement_id" (by simp) bundle.agreement.reads_toJson]
  rfl

/-! ## Texts -/

/-- What a reader reads from every arrangement of a value, it reads from every text for one. -/
theorem Json.readText_of_spells {α : Type} {read : Reader α} {json other : Json} {result : α}
    {text : String} (h : Reads read json result) (hother : json.Rearranged other)
    (htext : Spells text other) : readText read text = .ok result := by
  rw [readText, ofText?_of_spells htext]
  exact h other hother

theorem Opening.ofText_toText (opening : Opening) : ofText opening.toText = .ok opening :=
  Json.readText_of_spells opening.reads_toJson (Json.Rearranged.refl _) (Json.spells_compact _)

theorem Bundle.ofText_toText (bundle : Bundle) : ofText bundle.toText = .ok bundle :=
  Json.readText_of_spells bundle.reads_toJson (Json.Rearranged.refl _) (Json.spells_compact _)

/-- Every opening and every bundle is read back from its text as it was, and the checks have the
same outcome on what is read: an opening that does not verify, or that does not belong to a root,
still does not, and an identifier that does not match its record still does not. -/
theorem ofText_toText_and_checks :
    (∀ opening : Opening, Opening.ofText opening.toText = .ok opening ∧
      (Opening.ofText opening.toText).map Opening.verify = .ok opening.verify ∧
      ∀ root, (Opening.ofText opening.toText).map (·.opens root) = .ok (opening.opens root)) ∧
    ∀ bundle : Bundle, Bundle.ofText bundle.toText = .ok bundle ∧
      (Bundle.ofText bundle.toText).map Bundle.idMatches = .ok bundle.idMatches := by
  refine ⟨fun opening => ?_, fun bundle => ?_⟩
  · rw [opening.ofText_toText]
    exact ⟨rfl, rfl, fun _ => rfl⟩
  · rw [bundle.ofText_toText]
    exact ⟨rfl, rfl⟩

end PayrollSeal
