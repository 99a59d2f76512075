import Mathlib.Data.List.Forall2
import PayrollSeal.Proofs.Document.Encodable

/-!
# Where the values of an object stand

Every chunk puts its value three bytes behind its own start, so the places of all values follow from
the lengths of the values in front (`Object.slots`). These lengths are those of the decimals, since
all other values have the widths of their types (`Layout.alike_writes`). Objects of one kind whose
decimals have the same lengths therefore have one length, and a byte in which they differ lies in a
value in which they do (`Object.differOnlyIn_of_ofLayout`).
-/

namespace PayrollSeal

/-! ## Overwriting -/

namespace Bytes

/-- The bytes with others in place of those from `start` on. -/
def overwrite (bytes : Bytes) (start : Nat) (value : Bytes) : Bytes :=
  bytes.take start ++ value ++ bytes.drop (start + value.length)

theorem overwrite_append {old new : Bytes} (h : old.length = new.length) (front back : Bytes) :
    overwrite (front ++ old ++ back) front.length new = front ++ new ++ back := by
  have htake : (front ++ old ++ back).take front.length = front := by
    rw [List.append_assoc, List.take_left]
  have hdrop : (front ++ old ++ back).drop (front.length + new.length) = back := by
    rw [← h, ← List.length_append, List.drop_left]
  rw [overwrite, htake, hdrop]

end Bytes

/-! ## Headers of chunks -/

namespace Chunk

/-- The bytes in front of the value. -/
def header (chunk : Chunk) : Bytes :=
  chunk.type.code :: Bytes.ofUInt16 chunk.value.length.toUInt16

theorem bytes_eq (chunk : Chunk) : chunk.bytes = chunk.header ++ chunk.value := rfl

theorem length_header (chunk : Chunk) : chunk.header.length = headerLength := rfl

/-- Two chunks have one type and values of one length, and so the same header. -/
def Alike (c d : Chunk) : Prop :=
  c.type = d.type ∧ c.value.length = d.value.length

variable {c d : Chunk}

theorem Alike.header_eq (h : c.Alike d) : c.header = d.header := by
  rw [header, header, h.1, h.2]

theorem Alike.length_bytes_eq (h : c.Alike d) : c.bytes.length = d.bytes.length := by
  rw [length_bytes, length_bytes, h.2]

/-- Chunks with the same header differ behind it at most. -/
theorem Alike.headerLength_le_of_getElem?_ne (h : c.Alike d) {i : Nat}
    (hne : c.bytes[i]? ≠ d.bytes[i]?) : headerLength ≤ i := by
  by_contra hlt
  have hi : ∀ e : Chunk, i < e.header.length := fun _ => Nat.lt_of_not_le hlt
  rw [bytes_eq, bytes_eq, List.getElem?_append_left (hi c), List.getElem?_append_left (hi d),
    h.header_eq] at hne
  exact hne rfl

end Chunk

/-! ## Slots -/

/-- A write into an object, and the place of the first byte of its value. -/
structure Slot where
  start : Nat
  write : Write

namespace Slot

/-- The bytes that stand in a slot. -/
def value (slot : Slot) : Bytes :=
  slot.write.content.value

/-- A place lies in the value of a slot. -/
def Covers (slot : Slot) (place : Nat) : Prop :=
  slot.start ≤ place ∧ place < slot.start + slot.value.length

/-- The slots of writes in turn; the first chunk starts at `place`. -/
def ofWrites (place : Nat) : List Write → List Slot
  | [] => []
  | write :: writes =>
    ⟨place + Chunk.headerLength, write⟩ :: ofWrites (place + write.content.bytes.length) writes

/-- Bytes of one length that hold the values of their slots and differ at most in the values of
slots with different writes. -/
structure DifferOnlyIn (s t : List Slot) (x y : Bytes) : Prop where
  starts_eq : s.map start = t.map start
  length_eq : x.length = y.length
  holds_left : ∀ slot ∈ s, slot.value <+: x.drop slot.start
  holds_right : ∀ slot ∈ t, slot.value <+: y.drop slot.start
  exists_slot : ∀ place, x[place]? ≠ y[place]? →
    ∃ pair ∈ s.zip t, pair.1.write ≠ pair.2.write ∧ pair.1.Covers place

/-- Every value stands where its slot says. -/
theorem value_prefix_drop {writes : List Write} (front : Bytes) {slot : Slot}
    (h : slot ∈ ofWrites front.length writes) :
    slot.value <+: (front ++ writes.flatMap (·.content.bytes)).drop slot.start := by
  induction writes generalizing front with
  | nil => cases h
  | cons write writes ih =>
    rw [List.flatMap_cons, ← List.append_assoc]
    rw [ofWrites, List.mem_cons] at h
    rcases h with rfl | h
    · -- between the start of the chunk and that of its value stands the header
      show write.content.value <+: List.drop (front.length + Chunk.headerLength) _
      rw [← write.content.length_header, ← List.length_append, write.content.bytes_eq,
        ← List.append_assoc, List.append_assoc, List.drop_left]
      exact List.prefix_append _ _
    · rw [← List.length_append] at h
      exact ih _ h

section
variable {ws vs : List Write}

theorem map_start_ofWrites (h : List.Forall₂ (·.content.Alike ·.content) ws vs) (place : Nat) :
    (ofWrites place ws).map start = (ofWrites place vs).map start := by
  induction h generalizing place with
  | nil => rfl
  | cons hwrite _ ih =>
    rw [ofWrites, ofWrites, List.map_cons, List.map_cons, hwrite.length_bytes_eq, ih]

theorem length_flatMap_bytes (h : List.Forall₂ (·.content.Alike ·.content) ws vs) :
    (ws.flatMap (·.content.bytes)).length = (vs.flatMap (·.content.bytes)).length := by
  induction h with
  | nil => rfl
  | cons hwrite _ ih =>
    rw [List.flatMap_cons, List.flatMap_cons, List.length_append, List.length_append,
      hwrite.length_bytes_eq, ih]

/-- A byte in which the chunks of alike writes differ lies in the value of writes that do. -/
theorem exists_slot_of_getElem?_ne (h : List.Forall₂ (·.content.Alike ·.content) ws vs)
    (place : Nat) {i : Nat}
    (hne : (ws.flatMap (·.content.bytes))[i]? ≠ (vs.flatMap (·.content.bytes))[i]?) :
    ∃ pair ∈ (ofWrites place ws).zip (ofWrites place vs),
      pair.1.write ≠ pair.2.write ∧ pair.1.Covers (place + i) := by
  induction h generalizing place i with
  | nil => exact absurd rfl hne
  | @cons w v ws vs hwrite _ ih =>
    have hlen := hwrite.length_bytes_eq
    rw [List.flatMap_cons, List.flatMap_cons] at hne
    by_cases hi : i < w.content.bytes.length
    · -- the byte lies in the first chunk, behind its header
      rw [List.getElem?_append_left hi, List.getElem?_append_left (hlen ▸ hi)] at hne
      have hheader := hwrite.headerLength_le_of_getElem?_ne hne
      refine ⟨_, List.mem_cons_self, fun heq => ?_, ?_⟩
      · have hwv : w = v := heq
        exact hne (by rw [hwv])
      · rw [Chunk.length_bytes] at hi
        show place + Chunk.headerLength ≤ place + i ∧
          place + i < place + Chunk.headerLength + w.content.value.length
        omega
    · have hle := Nat.le_of_not_lt hi
      rw [List.getElem?_append_right hle, List.getElem?_append_right (hlen ▸ hle), ← hlen] at hne
      obtain ⟨pair, hpair, hdiffer, hcovers⟩ := ih (place + w.content.bytes.length) hne
      have hplace : place + w.content.bytes.length + (i - w.content.bytes.length) = place + i := by
        omega
      rw [hplace] at hcovers
      rw [ofWrites, ofWrites, List.zip_cons_cons, ← hlen]
      exact ⟨pair, List.mem_cons_of_mem _ hpair, hdiffer, hcovers⟩

end

end Slot

/-! ## Layouts -/

/-- The types of the chunks that a field is written as. -/
def Field.types (field : Field) : List ChunkType :=
  field.chunks.map Chunk.type

/-- The types of its chunks say how many decimals a field has. -/
theorem Field.length_decimals_eq {f g : Field} (h : f.types = g.types) :
    f.decimals.length = g.decimals.length := by
  cases f <;> cases g <;> first | rfl | cases h

/-- Fields of the same types are written alike if their decimals have the same lengths. -/
theorem Field.alike_writes {f g : Field} (htypes : f.types = g.types)
    (hlengths : f.decimals.map (·.bytes.length) = g.decimals.map (·.bytes.length)) :
    List.Forall₂ (·.content.Alike ·.content) f.writes g.writes := by
  cases f <;> cases g <;> first | (cases htypes; done) | skip
  all_goals
    simp only [decimals, Amounts.toList, List.map_cons, List.map_nil, List.cons.injEq,
      and_true] at hlengths
    simp only [writes, Amounts.toList, List.map_cons, List.map_nil, List.forall₂_cons,
      Chunk.Alike, Write.content, Bytes.length_ofUInt16, Bytes.length_ofUInt32,
      Digest.length_bytes, List.length_cons, List.Forall₂.nil, hlengths, and_self]

/-- Layouts of the same types are written alike if their decimals have the same lengths. -/
theorem Layout.alike_writes {a b : Layout} (htypes : a.map Field.types = b.map Field.types)
    (hlengths : (decimals a).map (·.bytes.length) = (decimals b).map (·.bytes.length)) :
    List.Forall₂ (·.content.Alike ·.content) (a.flatMap Field.writes)
      (b.flatMap Field.writes) := by
  induction a generalizing b with
  | nil =>
    rw [List.map_eq_nil_iff.mp htypes.symm]
    exact .nil
  | cons f a ih =>
    cases b with
    | nil => cases htypes
    | cons g b =>
      rw [List.map_cons, List.map_cons, List.cons.injEq] at htypes
      rw [decimals, decimals, List.flatMap_cons, List.flatMap_cons, List.map_append,
        List.map_append] at hlengths
      -- as many decimals are taken off on both sides
      have hcount : (f.decimals.map (·.bytes.length)).length =
          (g.decimals.map (·.bytes.length)).length := by
        rw [List.length_map, List.length_map, Field.length_decimals_eq htypes.1]
      obtain ⟨hfirst, hrest⟩ := List.append_inj hlengths hcount
      exact List.rel_append (Field.alike_writes htypes.1 hfirst) (ih htypes.2 hrest)

/-- The number of bytes that a field is written as. -/
def Field.width : Field → Nat
  | u8 _ => 4
  | u16 _ => 5
  | u32 _ => 7
  | hash _ => 35
  | versions _ => 15
  | anchor _ => 42
  | element value => 3 + value.bytes.length
  | units value => 3 + value.bytes.length
  | amounts a => (a.toList.map (3 + ·.bytes.length)).sum

theorem Field.length_chunks (field : Field) :
    (field.chunks.flatMap Chunk.bytes).length = field.width := by
  rw [chunks, List.flatMap_map, List.length_flatMap]
  cases field <;>
    simp [writes, Amounts.toList, Write.content, Chunk.headerLength, Digest.length_bytes,
      digestLength, width]

/-! ## Objects -/

namespace Object

/-- The slots of the object with a layout. -/
def slots (layout : Layout) : List Slot :=
  Slot.ofWrites headerLength (layout.flatMap Field.writes)

theorem bytes_eq_flatMap_writes (kind : Object.Kind) (layout : Layout) :
    bytes kind layout =
      header kind ++ (layout.flatMap Field.writes).flatMap (·.content.bytes) := by
  rw [bytes, Layout.chunks_eq_map, List.flatMap_map]

theorem length_bytes (kind : Object.Kind) (layout : Layout) :
    (bytes kind layout).length = headerLength + (layout.map Field.width).sum := by
  rw [bytes, List.length_append, length_header, Layout.chunks, List.flatMap_assoc,
    List.length_flatMap]
  simp only [Field.length_chunks]

/-- Objects of one kind with alike writes differ at most in the values of writes that do. -/
theorem differOnlyIn (kind : Object.Kind) {a b : Layout}
    (h : List.Forall₂ (·.content.Alike ·.content) (a.flatMap Field.writes)
      (b.flatMap Field.writes)) :
    Slot.DifferOnlyIn (slots a) (slots b) (bytes kind a) (bytes kind b) := by
  have hholds : ∀ layout, ∀ slot ∈ slots layout,
      slot.value <+: (bytes kind layout).drop slot.start := by
    intro layout slot hslot
    rw [bytes_eq_flatMap_writes]
    exact Slot.value_prefix_drop (header kind) hslot
  refine ⟨Slot.map_start_ofWrites h _, ?_, hholds a, hholds b, fun place hne => ?_⟩
  · rw [bytes_eq_flatMap_writes, bytes_eq_flatMap_writes, List.length_append, List.length_append,
      Slot.length_flatMap_bytes h]
  · rw [bytes_eq_flatMap_writes, bytes_eq_flatMap_writes] at hne
    by_cases hplace : place < (header kind).length
    · rw [List.getElem?_append_left hplace, List.getElem?_append_left hplace] at hne
      exact absurd rfl hne
    · have hle := Nat.le_of_not_lt hplace
      rw [List.getElem?_append_right hle, List.getElem?_append_right hle] at hne
      have hslot := Slot.exists_slot_of_getElem?_ne h (header kind).length hne
      rwa [Nat.add_sub_cancel' hle] at hslot

/-- An anchor takes a chunk of its hash and a chunk of its height. -/
theorem bytes_anchor (kind : Object.Kind) (front back : Layout) (a : Anchor) :
    bytes kind (front ++ .anchor a :: back) =
      bytes kind front ++ [4, 0, 32] ++ a.hash.bytes ++ [3, 0, 4] ++ .ofUInt32 a.height ++
        (Layout.chunks back).flatMap Chunk.bytes := by
  have hhash : Chunk.header ⟨.hash, a.hash.bytes⟩ = [4, 0, 32] := by
    rw [Chunk.header, a.hash.length_bytes]
    rfl
  have hheight : Chunk.header ⟨.u32, .ofUInt32 a.height⟩ = [3, 0, 4] := by
    rw [Chunk.header, Bytes.length_ofUInt32]
    rfl
  have hfield : (Field.anchor a).chunks.flatMap Chunk.bytes =
      [4, 0, 32] ++ a.hash.bytes ++ ([3, 0, 4] ++ Bytes.ofUInt32 a.height) := by
    show Chunk.bytes ⟨.hash, a.hash.bytes⟩ ++ (Chunk.bytes ⟨.u32, .ofUInt32 a.height⟩ ++ []) = _
    rw [List.append_nil, Chunk.bytes_eq, Chunk.bytes_eq, hhash, hheight]
  rw [bytes, bytes, Layout.chunks, List.flatMap_append, List.flatMap_cons, List.flatMap_append,
    List.flatMap_append, hfield]
  simp only [List.append_assoc, Layout.chunks]

/-- Another anchor in a field overwrites its hash and its height. -/
theorem bytes_replace_anchor (kind : Object.Kind) (front back : Layout) (a b : Anchor) :
    bytes kind (front ++ .anchor b :: back) =
      ((bytes kind (front ++ .anchor a :: back)).overwrite ((bytes kind front).length + 3)
        b.hash.bytes).overwrite ((bytes kind front).length + 38) (.ofUInt32 b.height) := by
  have hhash : (bytes kind front).length + 3 = (bytes kind front ++ [4, 0, 32]).length := by
    rw [List.length_append]
    rfl
  have hheight : (bytes kind front).length + 38 =
      (bytes kind front ++ [4, 0, 32] ++ b.hash.bytes ++ [3, 0, 4]).length := by
    rw [List.length_append, List.length_append, List.length_append, b.hash.length_bytes]
    rfl
  have hlen : a.hash.bytes.length = b.hash.bytes.length :=
    a.hash.length_bytes.trans b.hash.length_bytes.symm
  -- the hash goes first, with all that stands behind it
  have hfirst := Bytes.overwrite_append hlen (bytes kind front ++ [4, 0, 32])
    ([3, 0, 4] ++ Bytes.ofUInt32 a.height ++ (Layout.chunks back).flatMap Chunk.bytes)
  have hwidth : (Bytes.ofUInt32 a.height).length = (Bytes.ofUInt32 b.height).length := rfl
  have hsecond := Bytes.overwrite_append hwidth
    (bytes kind front ++ [4, 0, 32] ++ b.hash.bytes ++ [3, 0, 4])
    ((Layout.chunks back).flatMap Chunk.bytes)
  simp only [← List.append_assoc] at hfirst
  rw [bytes_anchor, bytes_anchor, hhash, hheight, hfirst, hsecond]

/-- Objects of one kind with decimals of the same lengths differ at most in the values of writes
that do. -/
theorem differOnlyIn_of_ofLayout {kind : Object.Kind} {a b : Layout} {x y : Bytes}
    (ha : ofLayout kind a = .ok x) (hb : ofLayout kind b = .ok y)
    (htypes : a.map Field.types = b.map Field.types)
    (hlengths : (Layout.decimals a).map (·.bytes.length) =
      (Layout.decimals b).map (·.bytes.length)) :
    Slot.DifferOnlyIn (slots a) (slots b) x y := by
  obtain ⟨-, rfl⟩ := ofLayout_eq_ok_iff.mp ha
  obtain ⟨-, rfl⟩ := ofLayout_eq_ok_iff.mp hb
  exact differOnlyIn kind (Layout.alike_writes htypes hlengths)

/-- Another anchor in a field overwrites its hash and its height, which stand behind the bytes of
the fields in front. -/
theorem ofLayout_replace_anchor {kind : Object.Kind} {front back : Layout} {a : Anchor} {x : Bytes}
    {hashStart heightStart : Nat} (h : ofLayout kind (front ++ .anchor a :: back) = .ok x)
    (hhash : (bytes kind front).length + 3 = hashStart)
    (hheight : (bytes kind front).length + 38 = heightStart) (b : Anchor) :
    ofLayout kind (front ++ .anchor b :: back) =
      .ok ((x.overwrite hashStart b.hash.bytes).overwrite heightStart (.ofUInt32 b.height)) := by
  have hdecimals : ∀ c : Anchor, Layout.decimals (front ++ .anchor c :: back) =
      Layout.decimals front ++ Layout.decimals back := fun _ => List.flatMap_append
  rw [ofLayout_eq_of_decimals, elim_eq_ok_iff, hdecimals] at h ⊢
  obtain ⟨hfits, rfl⟩ := h
  refine ⟨hfits, ?_⟩
  rw [← hhash, ← hheight]
  exact bytes_replace_anchor kind front back a b

end Object

end PayrollSeal
