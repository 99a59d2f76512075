import Mathlib.Data.List.TakeWhile
import PayrollSeal.Object.Layout
import PayrollSeal.Proofs.Chunk

/-!
# What layouts write

A write either appends its one chunk or refuses and appends nothing (`Write.runFrom_run`), so an
object is its header and the chunks of its layout, unless one of them is too long
(`Object.ofLayout_eq`). Chunks determine the fields they were written for, which makes layouts of
one form readable from the front (`Layout.chunks_append_prefix_iff`).
-/

namespace PayrollSeal

/-! ## Refusals

What can be refused for one reason only is `refusal?.elim (.ok value) .error`. -/

section

variable {ε α : Type} {refusal? : Option ε} {value result : α} {refusal : ε}

theorem elim_eq_ok_iff :
    refusal?.elim (.ok value) .error = (.ok result : Except ε α) ↔
      refusal? = none ∧ value = result := by
  cases refusal? <;> simp

theorem elim_eq_error_iff :
    refusal?.elim (.ok value) .error = (.error refusal : Except ε α) ↔
      refusal? = some refusal := by
  cases refusal? <;> simp

end

/-! ## Writes -/

theorem Buffer.append_append (buffer : Buffer) (x y : Bytes) :
    buffer ++ x ++ y = buffer ++ (x ++ y) := by
  apply Array.ext'
  simp only [Array.toList_appendList, List.append_assoc]

/-- A computation goes on from the buffer of the one before, unless that one failed. -/
theorem Encode.runFrom_bind (first second : Encode Unit) (buffer : Buffer) :
    Encode.runFrom buffer (first >>= fun _ => second) =
      match Encode.runFrom buffer first with
        | (.ok _, buffer) => Encode.runFrom buffer second
        | (.error rejection, buffer) => (.error rejection, buffer) := by
  unfold Encode.runFrom
  rw [ExceptT.run_bind, StateT.run_bind]
  rcases first.run.run buffer with ⟨_ | _, _⟩ <;> rfl

namespace Chunk

/-- Why a chunk cannot be written, if it cannot. -/
def refusal? (chunk : Chunk) : Option Rejection :=
  if chunk.Fits then none
  else some (.outOfRange "tlv_length" chunk.value.length IntType.u16.bits)

theorem refusal?_eq_none_iff {chunk : Chunk} : chunk.refusal? = none ↔ chunk.Fits := by
  rw [refusal?]
  split
  · next h => exact iff_of_true rfl h
  · next h => exact iff_of_false (Option.some_ne_none _) h

/-- A hash is never too long. -/
theorem fits_hash (value : Digest) : Fits ⟨.hash, value.bytes⟩ := by
  show value.bytes.length ≤ maxLength
  rw [value.length_bytes]
  decide

theorem encode_eq (chunk : Chunk) :
    chunk.encode = match chunk.refusal? with
      | none => .ok chunk.bytes
      | some rejection => .error rejection := by
  unfold encode IntType.fit refusal?
  by_cases h : chunk.Fits
  · rw [if_pos h, if_pos (show chunk.value.length ≤ IntType.u16.max from h)]
    rfl
  · rw [if_neg h, if_neg (show ¬ chunk.value.length ≤ IntType.u16.max from h)]
    rfl

end Chunk

namespace Write

/-- The chunk that a write stands for. -/
def content : Write → Chunk
  | u8 value => ⟨.u8, [value]⟩
  | u16 value => ⟨.u16, .ofUInt16 value⟩
  | u32 value => ⟨.u32, .ofUInt32 value⟩
  | uint _ .u8 value => ⟨.u8, [value.toUInt8]⟩
  | uint _ .u16 value => ⟨.u16, .ofUInt16 value.toUInt16⟩
  | uint _ .u32 value => ⟨.u32, .ofUInt32 value.toUInt32⟩
  | hash value => ⟨.hash, value.bytes⟩
  | element value => ⟨.element, value.bytes⟩
  | units value => ⟨.units, value.bytes⟩
  | text value => ⟨.text, .ofText value⟩
  | chunk type value => ⟨type, value⟩

/-- Why a write is refused, if it is: an integer for its value, all else for its length. -/
def refusal? : Write → Option Rejection
  | uint field width value =>
    if value ≤ width.type.max then none
    else some (.outOfRange field value width.type.bits)
  | write => write.content.refusal?

/-- A write appends its chunk, or refuses and appends nothing. -/
theorem runFrom_run (write : Write) (buffer : Buffer) :
    Encode.runFrom buffer write.run = match write.refusal? with
      | none => (.ok (), buffer ++ write.content.bytes)
      | some rejection => (.error rejection, buffer) := by
  -- elements, units and text are chunks that may be too long
  have hchunk : ∀ type value, Encode.runFrom buffer (.chunk type value) =
      match Chunk.refusal? ⟨type, value⟩ with
        | none => (.ok (), buffer ++ Chunk.bytes ⟨type, value⟩)
        | some rejection => (.error rejection, buffer) := by
    intro type value
    unfold Encode.chunk
    rw [Chunk.encode_eq]
    cases Chunk.refusal? ⟨type, value⟩ <;> rfl
  cases write with
  | u8 value => rfl
  | u16 value => rfl
  | u32 value => rfl
  | uint field width value =>
    simp only [run, Encode.uint, IntType.fit, refusal?]
    split <;> cases width <;> rfl
  | hash value =>
    -- a hash is written without a check, which it would pass
    simp only [refusal?, content, Chunk.refusal?_eq_none_iff.mpr (Chunk.fits_hash value)]
    rfl
  | element value => exact hchunk _ _
  | units value => exact hchunk _ _
  | text value => exact hchunk _ _
  | chunk type value => exact hchunk _ _

/-- Writes in turn append their chunks up to the first that is refused. -/
theorem runFrom_forM (writes : List Write) (buffer : Buffer) :
    Encode.runFrom buffer (writes.forM run) =
      ((writes.findSome? refusal?).elim (.ok ()) .error,
        buffer ++ (writes.takeWhile (·.refusal?.isNone)).flatMap (·.content.bytes)) := by
  induction writes generalizing buffer with
  | nil => rw [List.takeWhile_nil, List.flatMap_nil, Array.appendList_nil]; rfl
  | cons write writes ih =>
    have hforM : (write :: writes).forM run = write.run >>= fun _ => writes.forM run := rfl
    rw [hforM, Encode.runFrom_bind, runFrom_run, List.findSome?_cons, List.takeWhile_cons]
    cases hr : write.refusal? with
    | none => simp only [ih, Option.isNone_none, if_true, List.flatMap_cons, Buffer.append_append]
    | some rejection => simp

end Write

/-! ## Fields -/

/-- Every digit takes one byte, so the bytes of a decimal determine it. -/
theorem Decimal.bytes_inj {d e : Decimal} : d.bytes = e.bytes ↔ d = e := by
  refine ⟨fun h => ?_, fun h => congrArg bytes h⟩
  have hdigit : ∀ c : Char, c.isDigit = true → Char.ofNat c.toNat.toUInt8.toNat = c := by
    intro c hc
    have hle := (Char.isDigit_iff_toNat.mp hc).2
    have hlt : c.toNat < 2 ^ 8 := Nat.lt_of_le_of_lt hle (by decide)
    rw [Nat.toUInt8_eq, UInt8.toNat_ofNat', Nat.mod_eq_of_lt hlt, Char.ofNat_toNat]
  have hdigits : ∀ d : Decimal, d.bytes.map (fun b => Char.ofNat b.toNat) = d.digits := by
    intro d
    rw [bytes, List.map_map]
    calc d.digits.map _ = d.digits.map id :=
          List.map_congr_left fun c hc =>
            hdigit c (List.all_eq_true.mp d.isCanonical.2.1 c hc)
      _ = d.digits := List.map_id _
  exact Decimal.ext (by rw [← hdigits d, h, hdigits e])

namespace Field

/-- The chunks that a field is written as. -/
def chunks (field : Field) : List Chunk :=
  field.writes.map Write.content

/-- A field is refused for nothing but the length of its chunks. -/
theorem map_refusal?_writes (field : Field) :
    field.writes.map Write.refusal? = field.chunks.map Chunk.refusal? := by
  cases field <;> rfl

/-- The types of its chunks tell what a field is, and their values what it holds. -/
theorem chunks_inj {f g : Field} : f.chunks = g.chunks ↔ f = g := by
  refine ⟨fun h => ?_, fun h => congrArg chunks h⟩
  rcases f with _ | _ | _ | _ | ⟨_, _, _⟩ | ⟨_, _⟩ | _ | _ | ⟨_, _, _, _⟩ <;>
    rcases g with _ | _ | _ | _ | ⟨_, _, _⟩ | ⟨_, _⟩ | _ | _ | ⟨_, _, _, _⟩ <;>
    simp [chunks, writes, Write.content, Amounts.toList, Bytes.ofUInt16_inj,
      Bytes.ofUInt32_inj, Decimal.bytes_inj, ← Digest.ext_iff] at h ⊢ <;>
    exact h

end Field

/-! ## Layouts -/

namespace Layout

/-- The chunks that a layout is written as. -/
def chunks (layout : Layout) : List Chunk :=
  layout.flatMap Field.chunks

/-- The form of a layout: how many chunks each of its fields has. -/
def form (layout : Layout) : List Nat :=
  layout.map fun field => field.chunks.length

theorem chunks_eq_map (layout : Layout) :
    chunks layout = (layout.flatMap Field.writes).map Write.content := by
  rw [List.map_flatMap]
  rfl

theorem forM_run (layout : Layout) :
    layout.forM Field.run = (layout.flatMap Field.writes).forM Write.run := by
  induction layout with
  | nil => rfl
  | cons field layout ih =>
    rw [List.flatMap_cons, List.forM_eq_forM, List.forM_eq_forM, List.forM_append,
      List.forM_cons, ← List.forM_eq_forM, ih]
    rfl

theorem map_refusal?_writes (layout : Layout) :
    (layout.flatMap Field.writes).map Write.refusal? = (chunks layout).map Chunk.refusal? := by
  rw [chunks, List.map_flatMap, List.map_flatMap]
  simp only [Field.map_refusal?_writes]

/-- Layouts of one form can be split off the front of any chunks. -/
theorem chunks_append_prefix_iff {l m : Layout} (hform : form l = form m) {cs ds : List Chunk} :
    chunks l ++ cs <+: chunks m ++ ds ↔ l = m ∧ cs <+: ds := by
  constructor
  · intro h
    induction l generalizing m with
    | nil =>
      obtain rfl : m = [] := List.map_eq_nil_iff.mp hform.symm
      exact ⟨rfl, h⟩
    | cons f l ih =>
      obtain ⟨g, m, rfl⟩ : ∃ g m', m = g :: m' := by
        cases m with
        | nil => cases hform
        | cons g m => exact ⟨g, m, rfl⟩
      rw [form, form, List.map_cons, List.map_cons, List.cons.injEq] at hform
      obtain ⟨t, ht⟩ := h
      rw [chunks, chunks, List.flatMap_cons, List.flatMap_cons] at ht
      simp only [List.append_assoc] at ht
      -- as many chunks are taken off on both sides, and they hold the first fields
      obtain ⟨hfg, hrest⟩ := List.append_inj ht hform.1
      obtain rfl := Field.chunks_inj.mp hfg
      obtain ⟨rfl, hcs⟩ := ih hform.2 ⟨t, by rw [List.append_assoc]; exact hrest⟩
      exact ⟨rfl, hcs⟩
  · rintro ⟨rfl, h⟩
    exact (List.prefix_append_right_inj _).mpr h

/-- Chunks determine a layout of known form. -/
theorem chunks_prefix_iff {l m : Layout} (hform : form l = form m) :
    chunks l <+: chunks m ↔ l = m := by
  rw [← List.append_nil (chunks l), ← List.append_nil (chunks m), chunks_append_prefix_iff hform]
  exact and_iff_left (List.prefix_refl _)

end Layout

/-! ## Objects -/

namespace Object

theorem header_inj {k l : Object.Kind} : header k = header l ↔ k = l := by
  cases k <;> cases l <;> decide

/-- The header of an object and the chunks of its layout. -/
def bytes (kind : Object.Kind) (layout : Layout) : Bytes :=
  header kind ++ (Layout.chunks layout).flatMap Chunk.bytes

/-- An object is its header and the chunks of its layout, unless one is too long: the first such
chunk decides the rejection. -/
theorem ofLayout_eq (kind : Object.Kind) (layout : Layout) :
    ofLayout kind layout =
      ((Layout.chunks layout).findSome? Chunk.refusal?).elim (.ok (bytes kind layout)) .error := by
  have hfind : (layout.flatMap Field.writes).findSome? Write.refusal? =
      (Layout.chunks layout).findSome? Chunk.refusal? := by
    have h := congrArg (List.findSome? id) (Layout.map_refusal?_writes layout)
    rwa [List.findSome?_map, List.findSome?_map, Function.id_comp, Function.id_comp] at h
  unfold ofLayout
  rw [Layout.forM_run, Write.runFrom_forM, hfind]
  cases hr : (Layout.chunks layout).findSome? Chunk.refusal? with
  | some rejection => rfl
  | none =>
    -- nothing is refused, so every chunk is written
    rw [hr, List.findSome?_eq_none_iff] at hfind
    have hall : ∀ w ∈ layout.flatMap Field.writes, w.refusal?.isNone = true := by
      intro w hw
      rw [hfind w hw]
      rfl
    rw [List.takeWhile_eq_self_iff.mpr hall]
    have hchunks : (layout.flatMap Field.writes).flatMap (·.content.bytes) =
        (Layout.chunks layout).flatMap Chunk.bytes := by
      rw [Layout.chunks_eq_map, List.flatMap_map]
    rw [hchunks]
    simp only [Option.elim_none, start, Array.toList_appendList, bytes]

/-- A layout has an object exactly if all of its chunks fit. -/
theorem ofLayout_eq_ok_iff {kind : Object.Kind} {layout : Layout} {x : Bytes} :
    ofLayout kind layout = .ok x ↔
      (∀ c ∈ Layout.chunks layout, c.Fits) ∧ bytes kind layout = x := by
  have hnone : (Layout.chunks layout).findSome? Chunk.refusal? = none ↔
      ∀ c ∈ Layout.chunks layout, c.Fits := by
    simp only [List.findSome?_eq_none_iff, Chunk.refusal?_eq_none_iff]
  rw [ofLayout_eq, elim_eq_ok_iff, hnone]

/-- One object starts another one exactly if both are of one kind and the chunks of the first start
those of the other. -/
theorem prefix_iff_of_ofLayout_eq_ok {k l : Object.Kind} {a b : Layout} {x y : Bytes}
    (ha : ofLayout k a = .ok x) (hb : ofLayout l b = .ok y) :
    x <+: y ↔ k = l ∧ Layout.chunks a <+: Layout.chunks b := by
  obtain ⟨hfa, rfl⟩ := ofLayout_eq_ok_iff.mp ha
  obtain ⟨hfb, rfl⟩ := ofLayout_eq_ok_iff.mp hb
  rw [← Chunk.flatMap_bytes_prefix_iff hfa hfb, bytes, bytes]
  constructor
  · rintro ⟨t, ht⟩
    rw [List.append_assoc] at ht
    obtain ⟨hheader, hchunks⟩ := List.append_inj ht rfl
    exact ⟨header_inj.mp hheader, t, hchunks⟩
  · rintro ⟨rfl, h⟩
    exact (List.prefix_append_right_inj _).mpr h

end Object

end PayrollSeal
