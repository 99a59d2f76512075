import PayrollSeal.Proofs.Layout

/-!
# Objects written field by field

A field appends those of its scalars that can be encoded before the first that cannot
(`Field.runFrom_run_snd`), so an object that fields are written to in turn is the object over these
chunks (`Object.stream_eq`). Its kind and version are read from the first four bytes alone.
-/

namespace PayrollSeal

/-! ## Chunks and writes -/

theorem Chunk.isNone_refusal? (chunk : Chunk) :
    chunk.refusal?.isNone = decide (chunk.value.length ≤ 65535) := by
  rw [Bool.eq_iff_iff, Option.isNone_iff_eq_none, refusal?_eq_none_iff, decide_eq_true_eq]
  rfl

/-- Chunks that are encoded one by one, up to the first that cannot be. -/
theorem Chunk.encode_takeWhile_isOk (chunks : List Chunk) :
    ((chunks.map encode).takeWhile Except.isOk).filterMap Except.toOption =
      (chunks.takeWhile (·.value.length ≤ 65535)).map bytes := by
  induction chunks with
  | nil => rfl
  | cons chunk chunks ih =>
    rw [List.map_cons, List.takeWhile_cons, List.takeWhile_cons, ← isNone_refusal?, encode_eq]
    cases chunk.refusal? with
    | none => exact congrArg _ ih
    | some rejection => rfl

theorem Chunk.map_bytes_takeWhile_singleton (chunk : Chunk) :
    ([chunk].takeWhile (·.value.length ≤ 65535)).map bytes =
      if chunk.value.length ≤ 65535 then [chunk.bytes] else [] := by
  rw [List.takeWhile_cons, List.takeWhile_nil]
  by_cases h : chunk.value.length ≤ 65535
  · rw [if_pos (decide_eq_true h), if_pos h]
    rfl
  · rw [decide_eq_false h, if_neg h]
    rfl

/-- Writes that are refused for nothing but the length of their chunks go on up to the first chunk
that is too long. -/
theorem Write.map_content_takeWhile {writes : List Write}
    (h : ∀ write ∈ writes, write.refusal? = write.content.refusal?) :
    (writes.takeWhile (·.refusal?.isNone)).map content =
      (writes.map content).takeWhile (·.value.length ≤ 65535) := by
  induction writes with
  | nil => rfl
  | cons write writes ih =>
    obtain ⟨hwrite, hrest⟩ := List.forall_mem_cons.mp h
    rw [List.map_cons, List.takeWhile_cons, List.takeWhile_cons, hwrite, Chunk.isNone_refusal?]
    split
    · rw [List.map_cons, ih hrest]
    · rfl

/-! ## Fields -/

namespace Field

/-- The scalars of a field, in the order of their bytes. -/
def scalars : Field → List Chunk
  | u8 value => [⟨.u8, [value]⟩]
  | u16 value => [⟨.u16, .ofUInt16 value⟩]
  | u32 value => [⟨.u32, .ofUInt32 value⟩]
  | hash value => [⟨.hash, value.bytes⟩]
  | versions v => [⟨.u16, .ofUInt16 v.schema⟩, ⟨.u16, .ofUInt16 v.calculation⟩,
      ⟨.u16, .ofUInt16 v.policy⟩]
  | anchor a => [⟨.hash, a.hash.bytes⟩, ⟨.u32, .ofUInt32 a.height⟩]
  | element value => [⟨.element, value.bytes⟩]
  | units value => [⟨.units, value.bytes⟩]
  | amounts a => [⟨.units, a.gross.bytes⟩, ⟨.units, a.net.bytes⟩, ⟨.units, a.taxWithheld.bytes⟩,
      ⟨.units, a.fee.bytes⟩]

theorem map_content_writes (field : Field) : field.writes.map Write.content = field.scalars := by
  cases field <;> rfl

/-- The scalars of a field, each encoded on its own, up to the first that cannot be. -/
def encoded (field : Field) : List Bytes :=
  ((field.scalars.map Chunk.encode).takeWhile Except.isOk).filterMap Except.toOption

theorem encoded_eq (field : Field) :
    field.encoded = (field.scalars.takeWhile (·.value.length ≤ 65535)).map Chunk.bytes :=
  Chunk.encode_takeWhile_isOk field.scalars

/-- Nothing but a decimal can be too long; of four amounts the first that is ends the field. -/
theorem encoded_eq_match (field : Field) :
    field.encoded = match field with
      | element value =>
        if value.bytes.length ≤ 65535 then [Chunk.bytes ⟨.element, value.bytes⟩] else []
      | units value =>
        if value.bytes.length ≤ 65535 then [Chunk.bytes ⟨.units, value.bytes⟩] else []
      | amounts a =>
        let sums := [a.gross, a.net, a.taxWithheld, a.fee]
        (sums.takeWhile (·.bytes.length ≤ 65535)).map fun amount =>
          Chunk.bytes ⟨.units, amount.bytes⟩
      | field => field.scalars.map Chunk.bytes := by
  rw [encoded_eq]
  cases field with
  | u8 | u16 | u32 | versions => rfl
  | hash value =>
    exact (Chunk.map_bytes_takeWhile_singleton _).trans (if_pos (Chunk.fits_hash value))
  | anchor a =>
    have hfits : a.hash.bytes.length ≤ 65535 := Chunk.fits_hash a.hash
    rw [scalars, List.takeWhile_cons, if_pos (decide_eq_true hfits)]
    rfl
  | element value => exact Chunk.map_bytes_takeWhile_singleton _
  | units value => exact Chunk.map_bytes_takeWhile_singleton _
  | amounts a =>
    have hscalars : (Field.amounts a).scalars =
        [a.gross, a.net, a.taxWithheld, a.fee].map fun amount => ⟨.units, amount.bytes⟩ := rfl
    rw [hscalars, List.takeWhile_map, List.map_map]
    rfl

/-- The writes of a field are refused for nothing but the length of their chunks. -/
theorem refusal?_of_mem_writes (field : Field) :
    ∀ write ∈ field.writes, write.refusal? = write.content.refusal? := by
  have h := field.map_refusal?_writes
  rw [chunks, List.map_map] at h
  exact List.map_inj_left.mp h

/-- A field appends its encoded scalars. -/
theorem runFrom_run_snd (field : Field) (buffer : Buffer) :
    (Encode.runFrom buffer field.run).2 = buffer ++ field.encoded.flatten := by
  have happended : (field.writes.takeWhile (·.refusal?.isNone)).flatMap (·.content.bytes) =
      field.encoded.flatten := by
    rw [encoded_eq, ← map_content_writes,
      ← Write.map_content_takeWhile field.refusal?_of_mem_writes, List.map_map]
    rfl
  rw [run, Write.runFrom_forM, happended]

end Field

namespace Object

/-! ## Objects -/

/-- The object to which fields are written in turn; it goes on after a field that fails. -/
def stream (kind : Object.Kind) (fields : List Field) : Bytes :=
  (fields.foldl (fun buffer field => (Encode.runFrom buffer field.run).2) (start kind)).toList

/-- Fields in turn append their encoded scalars. -/
theorem foldl_runFrom (fields : List Field) (buffer : Buffer) :
    fields.foldl (fun buffer field => (Encode.runFrom buffer field.run).2) buffer =
      buffer ++ (fields.flatMap Field.encoded).flatten := by
  induction fields generalizing buffer with
  | nil => exact Array.appendList_nil.symm
  | cons field fields ih =>
    rw [List.foldl_cons, ih, Field.runFrom_run_snd, Buffer.append_append, List.flatMap_cons,
      List.flatten_append]

/-- What is written field by field is the object over the encoded scalars. -/
theorem stream_eq (kind : Object.Kind) (fields : List Field) :
    stream kind fields = ofChunks kind (fields.flatMap Field.encoded) := by
  rw [stream, foldl_runFrom, Array.toList_appendList, start, ofChunks]

/-! ## Headers -/

/-- Bytes begin with the tag of a kind and with a version, each with its high byte first. -/
def BeginsWith (kind : Object.Kind) (version : UInt16) (bytes : Bytes) : Prop :=
  ∃ k0 k1 v0 v1 rest, bytes = k0 :: k1 :: v0 :: v1 :: rest ∧
    k0.toNat * 256 + k1.toNat = kind.tag.toNat ∧ v0.toNat * 256 + v1.toNat = version.toNat

end Object

/-- Two bytes spell a word, high byte first. -/
theorem Bytes.toNat_toUInt16 (high low : UInt8) :
    (toUInt16 high low).toNat = high.toNat * 256 + low.toNat := by
  have hhigh := high.toNat_lt
  have hshift : high.toNat <<< 8 % 2 ^ 16 = high.toNat <<< 8 := by
    rw [Nat.shiftLeft_eq]
    omega
  rw [toUInt16, UInt16.toNat_or, UInt16.toNat_shiftLeft, UInt8.toNat_toUInt16, UInt8.toNat_toUInt16]
  show high.toNat <<< 8 % 2 ^ 16 ||| low.toNat = _
  rw [hshift, ← Nat.shiftLeft_add_eq_or_of_lt low.toNat_lt, Nat.shiftLeft_eq]

namespace Object

theorem Kind.ofTag?_eq_some_iff {tag : UInt16} {kind : Object.Kind} :
    Kind.ofTag? tag = some kind ↔ kind.tag = tag := by
  constructor
  · intro h
    have hfound := List.find?_some h
    exact beq_iff_eq.mp hfound
  · rintro rfl
    cases kind <;> rfl

/-- The kind and the version are read exactly if they stand at the front. -/
theorem header?_eq_some_iff {bytes : Bytes} {kind : Object.Kind} {version : UInt16} :
    header? bytes = some (kind, version) ↔ BeginsWith kind version bytes := by
  rw [header?.eq_def]
  split
  · next k0 k1 v0 v1 rest =>
    have hread : (do
        let kind ← Kind.ofTag? (Bytes.toUInt16 k0 k1)
        return (kind, Bytes.toUInt16 v0 v1)) = some (kind, version) ↔
          kind.tag = Bytes.toUInt16 k0 k1 ∧ version = Bytes.toUInt16 v0 v1 := by
      rw [← Kind.ofTag?_eq_some_iff]
      cases Kind.ofTag? (Bytes.toUInt16 k0 k1) <;> simp [eq_comm]
    rw [hread, ← UInt16.toNat_inj, ← UInt16.toNat_inj, Bytes.toNat_toUInt16,
      Bytes.toNat_toUInt16]
    constructor
    · rintro ⟨hkind, hversion⟩
      exact ⟨k0, k1, v0, v1, rest, rfl, hkind.symm, hversion.symm⟩
    · rintro ⟨_, _, _, _, _, heq, hkind, hversion⟩
      cases heq
      exact ⟨hkind.symm, hversion.symm⟩
  · next hshort =>
    refine iff_of_false (Option.some_ne_none _).symm ?_
    rintro ⟨k0, k1, v0, v1, rest, rfl, -⟩
    exact hshort k0 k1 v0 v1 rest rfl

theorem header?_eq_none_iff {bytes : Bytes} :
    header? bytes = none ↔ ∀ kind version, ¬ BeginsWith kind version bytes := by
  rw [Option.eq_none_iff_forall_ne_some, Prod.forall]
  simp only [ne_eq, header?_eq_some_iff]

/-- The kind and the version can be read back from a header. -/
theorem header?_header_append (kind : Object.Kind) (x : Bytes) :
    header? (header kind ++ x) = some (kind, version) := by
  cases kind <;> rfl

/-- What is written field by field is the object over the scalars of the fields, each encoded on its
own: all of them, but none of an element or of units too long for a chunk, and of four amounts those
before the first that is too long. Such an object is determined by its chunks end to end, and its
kind and the version of the encoding are read back. A kind and a version are read from bytes exactly
if these begin with the tag of the kind and the version, high bytes first. -/
theorem stream_eq_ofChunks_and_header?_iff :
    (∀ (kind : Object.Kind) (fields : List Field),
      stream kind fields = ofChunks kind (fields.flatMap Field.encoded) ∧
      header? (stream kind fields) = some (kind, version)) ∧
    (∀ field : Field, field.encoded = match field with
      | .element value =>
        if value.bytes.length ≤ 65535 then [Chunk.bytes ⟨.element, value.bytes⟩] else []
      | .units value =>
        if value.bytes.length ≤ 65535 then [Chunk.bytes ⟨.units, value.bytes⟩] else []
      | .amounts a =>
        let sums := [a.gross, a.net, a.taxWithheld, a.fee]
        (sums.takeWhile (·.bytes.length ≤ 65535)).map fun amount =>
          Chunk.bytes ⟨.units, amount.bytes⟩
      | field => field.scalars.map Chunk.bytes) ∧
    (∀ (kind : Object.Kind) (chunks others : List Bytes),
      ofChunks kind chunks = ofChunks kind others ↔ chunks.flatten = others.flatten) ∧
    ∀ bytes : Bytes,
      (∀ kind version, header? bytes = some (kind, version) ↔ BeginsWith kind version bytes) ∧
      (header? bytes = none ↔ ∀ kind version, ¬ BeginsWith kind version bytes) := by
  refine ⟨fun kind fields => ⟨stream_eq kind fields, ?_⟩, Field.encoded_eq_match,
    fun kind chunks others => List.append_right_inj _,
    fun bytes => ⟨fun kind version => header?_eq_some_iff, header?_eq_none_iff⟩⟩
  rw [stream_eq, ofChunks, header?_header_append]

example : stream .inputs [.versions ⟨1, 2, 3⟩] =
    [0x20, 1, 0, 1, 2, 0, 2, 0, 1, 2, 0, 2, 0, 2, 2, 0, 2, 0, 3] := by decide

end Object

end PayrollSeal
