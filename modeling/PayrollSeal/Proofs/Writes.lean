import Mathlib.Data.List.Infix
import PayrollSeal.Proofs.Layout

/-!
# Sequences of writes

What successful writes leave in a buffer determines them: their types and values can be read off it
one after the other, however much a value looks like chunks (`Write.prefix_iff_of_runFrom`). A write
fails exactly if it is out of range, and then leaves nothing behind (`Write.run_eq_and_each_eq`).
-/

namespace PayrollSeal

namespace Chunk

/-- What a chunk tells: the code of its type, and its value. -/
def spelled (chunk : Chunk) : UInt8 × Bytes :=
  (chunk.type.code, chunk.value)

theorem spelled_injective : Function.Injective spelled := by
  rintro ⟨s, v⟩ ⟨t, w⟩ h
  obtain ⟨hcode, rfl⟩ := Prod.mk.inj h
  obtain rfl := ChunkType.code_inj.mp hcode
  rfl

end Chunk

namespace Write

/-! ## What is written -/

/-- The code of the type and the value that a write appends. -/
def spelled (write : Write) : UInt8 × Bytes :=
  write.content.spelled

/-- The integer that a write is for, if it is for one. -/
def number? : Write → Option Nat
  | u8 value => some value.toNat
  | u16 value => some value.toNat
  | u32 value => some value.toNat
  | uint _ _ value => some value
  | hash _ | element _ | units _ | text _ | chunk _ _ => none

theorem fits_uint (field : String) (width : Width) (value : Nat) :
    (content (.uint field width value)).Fits := by
  cases width <;> exact of_decide_eq_true rfl

/-- What is not refused has a value that fits its header, whether that was checked or not. -/
theorem fits_content {write : Write} (h : write.refusal? = none) : write.content.Fits := by
  cases write with
  | uint field width value => exact fits_uint field width value
  | u8 | u16 | u32 | hash | element | units | text | chunk =>
    exact Chunk.refusal?_eq_none_iff.mp h

/-- Writes succeed in turn exactly if none is refused, and append all of their chunks. -/
theorem runFrom_forM_eq_ok_iff {writes : List Write} {buffer grown : Buffer} :
    Encode.runFrom buffer (writes.forM run) = (.ok (), grown) ↔
      (∀ write ∈ writes, write.refusal? = none) ∧
        buffer ++ (writes.map content).flatMap Chunk.bytes = grown := by
  rw [runFrom_forM, Prod.mk.injEq, elim_eq_ok_iff, List.findSome?_eq_none_iff, List.flatMap_map,
    and_iff_left rfl]
  refine and_congr_right fun hnone => ?_
  have hall : ∀ write ∈ writes, write.refusal?.isNone = true := fun write hwrite =>
    Option.isNone_iff_eq_none.mpr (hnone write hwrite)
  rw [List.takeWhile_eq_self_iff.mpr hall]

/-- A successful write is that of its chunk: the writes that check no length could as well. -/
theorem runFrom_run_eq_chunk {write : Write} (h : write.refusal? = none) (buffer : Buffer) :
    Encode.runFrom buffer write.run =
      Encode.runFrom buffer (.chunk write.content.type write.content.value) := by
  have hfits := fits_content h
  have hchunk : refusal? (.chunk write.content.type write.content.value) = none :=
    Chunk.refusal?_eq_none_iff.mpr hfits
  have hrun := runFrom_run (.chunk write.content.type write.content.value) buffer
  rw [hchunk] at hrun
  rw [runFrom_run, h]
  exact hrun.symm

/-- An integer that is not refused is not cut off. -/
theorem toNat_value_content {write : Write} (h : write.refusal? = none) {n : Nat}
    (hn : write.number? = some n) : Bytes.toNat write.content.value = n := by
  cases write with
  | u8 value =>
    obtain rfl := Option.some.inj hn
    exact Nat.zero_add _
  | u16 value =>
    obtain rfl := Option.some.inj hn
    exact Bytes.toNat_ofUInt16 value
  | u32 value =>
    obtain rfl := Option.some.inj hn
    exact Bytes.toNat_ofUInt32 value
  | uint field width value =>
    obtain rfl := Option.some.inj hn
    -- only here a word is cut down to a width, which the check has made harmless
    have hmax : value ≤ width.type.max := by
      by_contra hlarge
      rw [refusal?, if_neg hlarge] at h
      cases h
    have hvalue : value < width.type.max + 1 := Nat.lt_succ_of_le hmax
    cases width with
    | u8 => exact (Nat.zero_add _).trans (Nat.mod_eq_of_lt hvalue)
    | u16 => exact (Bytes.toNat_ofUInt16 _).trans (Nat.mod_eq_of_lt hvalue)
    | u32 => exact (Bytes.toNat_ofUInt32 _).trans (Nat.mod_eq_of_lt hvalue)
  | hash | element | units | text | chunk => cases hn

/-! ## Reading a buffer back -/

/-- One buffer starts another exactly if its writes do, as the types and values that they append. -/
theorem toList_prefix_iff {ws vs : List Write} {x y : Buffer}
    (hws : Encode.runFrom #[] (ws.forM run) = (.ok (), x))
    (hvs : Encode.runFrom #[] (vs.forM run) = (.ok (), y)) :
    x.toList <+: y.toList ↔ ws.map spelled <+: vs.map spelled := by
  obtain ⟨hwsnone, rfl⟩ := runFrom_forM_eq_ok_iff.mp hws
  obtain ⟨hvsnone, rfl⟩ := runFrom_forM_eq_ok_iff.mp hvs
  have hfits : ∀ {writes : List Write}, (∀ write ∈ writes, write.refusal? = none) →
      ∀ chunk ∈ writes.map content, chunk.Fits := fun hnone =>
    List.forall_mem_map.mpr fun write hwrite => fits_content (hnone write hwrite)
  rw [Array.toList_appendList, Array.toList_appendList, List.nil_append, List.nil_append,
    Chunk.flatMap_bytes_prefix_iff (hfits hwsnone) (hfits hvsnone),
    ← List.prefix_map_iff_of_injective Chunk.spelled_injective, List.map_map, List.map_map]
  rfl

/-- The buffer of one sequence of successful writes starts that of another exactly if the types and
values of the first start those of the other, so the buffers are equal exactly if all types and
values are. Each write leaves what a checked write of its chunk would, and the value of an integer
spells it. -/
theorem prefix_iff_of_runFrom {ws vs : List Write} {x y : Buffer}
    (hws : Encode.runFrom #[] (ws.forM run) = (.ok (), x))
    (hvs : Encode.runFrom #[] (vs.forM run) = (.ok (), y)) :
    (x.toList <+: y.toList ↔ ws.map spelled <+: vs.map spelled) ∧
    (x = y ↔ ws.map spelled = vs.map spelled) ∧
    ∀ write ∈ ws,
      (∀ buffer, Encode.runFrom buffer write.run =
        Encode.runFrom buffer (.chunk write.content.type write.content.value)) ∧
      ∀ n, write.number? = some n → Bytes.toNat write.content.value = n := by
  have hnone := (runFrom_forM_eq_ok_iff.mp hws).1
  refine ⟨toList_prefix_iff hws hvs, ?_, fun write hwrite =>
    ⟨runFrom_run_eq_chunk (hnone write hwrite), fun n => toNat_value_content (hnone write hwrite)⟩⟩
  calc x = y ↔ x.toList = y.toList := Array.toList_inj.symm
    _ ↔ x.toList <+: y.toList ∧ y.toList <+: x.toList := antisymm_iff.symm
    _ ↔ ws.map spelled <+: vs.map spelled ∧ vs.map spelled <+: ws.map spelled :=
      and_congr (toList_prefix_iff hws hvs) (toList_prefix_iff hvs hws)
    _ ↔ ws.map spelled = vs.map spelled := antisymm_iff

/-- A text that looks like a chunk, and a count behind it, are read back from what they start. -/
theorem prefix_of_text_like_chunk :
    let ws := [Write.chunk .text [1, 0, 1, 7], Write.uint "count" .u16 258]
    (∃ x y, Encode.runFrom #[] (ws.forM run) = (.ok (), x) ∧
      Encode.runFrom #[] ((ws ++ [Write.u8 7]).forM run) = (.ok (), y) ∧ x.toList <+: y.toList) ∧
    Bytes.toNat [1, 2] = 258 := by
  intro ws
  have hws : Encode.runFrom #[] (ws.forM run) =
      (.ok (), #[7, 0, 4, 1, 0, 1, 7, 2, 0, 2, 1, 2]) := rfl
  have hvs : Encode.runFrom #[] ((ws ++ [Write.u8 7]).forM run) =
      (.ok (), #[7, 0, 4, 1, 0, 1, 7, 2, 0, 2, 1, 2, 1, 0, 1, 7]) := rfl
  have h := prefix_iff_of_runFrom hws hvs
  refine ⟨⟨_, _, hws, hvs, h.1.mpr ?_⟩, (h.2.2 (.uint "count" .u16 258) ?_).2 258 rfl⟩
  · exact (List.prefix_append ws _).map spelled
  · exact List.mem_cons_of_mem _ List.mem_cons_self

/-! ## Refusals -/

/-- A write is out of range: its number is larger than any of its width, or its value is too long
for the two bytes of a length. -/
inductive OutOfRange : Write → Rejection → Prop
  | u8 {field : String} {value : Nat} (h : 255 < value) :
    OutOfRange (.uint field .u8 value) (.outOfRange field value 8)
  | u16 {field : String} {value : Nat} (h : 65535 < value) :
    OutOfRange (.uint field .u16 value) (.outOfRange field value 16)
  | u32 {field : String} {value : Nat} (h : 4294967295 < value) :
    OutOfRange (.uint field .u32 value) (.outOfRange field value 32)
  | length {write : Write} (h : 65535 < write.content.value.length) :
    OutOfRange write (.outOfRange "tlv_length" write.content.value.length 16)

/-- What is refused is what is out of range. -/
theorem refusal?_eq_some_iff {write : Write} {rejection : Rejection} :
    write.refusal? = some rejection ↔ write.OutOfRange rejection := by
  constructor
  · intro h
    -- all but integers of a given width are refused for the length of their chunk
    have hlength : write.content.refusal? = some rejection → write.OutOfRange rejection := by
      intro hchunk
      rw [Chunk.refusal?] at hchunk
      split at hchunk
      · cases hchunk
      · next hlong =>
        cases hchunk
        exact .length (Nat.lt_of_not_le hlong)
    cases write with
    | uint field width value =>
      rw [refusal?] at h
      split at h
      · cases h
      · next hlarge =>
        cases h
        have hvalue := Nat.lt_of_not_le hlarge
        cases width with
        | u8 => exact .u8 hvalue
        | u16 => exact .u16 hvalue
        | u32 => exact .u32 hvalue
    | u8 | u16 | u32 | hash | element | units | text | chunk => exact hlength h
  · intro h
    cases h with
    | u8 h | u16 h | u32 h => exact if_neg (Nat.not_le_of_lt h)
    | length h =>
      have hlong : ¬ write.content.Fits := Nat.not_le_of_lt h
      cases write with
      | uint field width value => exact absurd (fits_uint field width value) hlong
      | u8 | u16 | u32 | hash | element | units | text | chunk => exact if_neg hlong

/-- Performs writes in turn and goes on after those that fail. -/
def each (buffer : Buffer) : List Write → List (Except Rejection Unit) × Buffer
  | [] => ([], buffer)
  | write :: writes =>
    let (answer, next) := Encode.runFrom buffer write.run
    let (answers, last) := each next writes
    (answer :: answers, last)

/-- Every write gets the answer that it would get alone, and those that are not refused append their
chunks one after the other. -/
theorem each_eq (buffer : Buffer) (writes : List Write) :
    each buffer writes =
      (writes.map fun write => write.refusal?.elim (.ok ()) .error,
        buffer ++ (writes.filter (·.refusal?.isNone)).flatMap (·.content.bytes)) := by
  induction writes generalizing buffer with
  | nil => rw [List.filter_nil, List.flatMap_nil, Array.appendList_nil]; rfl
  | cons write writes ih =>
    rw [each, runFrom_run, List.map_cons, List.filter_cons]
    -- what is refused hands the buffer on as it got it
    cases hr : write.refusal? with
    | none =>
      simp only [ih, Option.isNone_none, if_true, List.flatMap_cons, Buffer.append_append]
      rfl
    | some rejection =>
      simp only [ih]
      rfl

/-! ## Fields -/

/-- A field of one write is that write. -/
theorem runFrom_forM_singleton (write : Write) (buffer : Buffer) :
    Encode.runFrom buffer ([write].forM run) = Encode.runFrom buffer write.run := by
  have hforM : [write].forM run = write.run >>= fun _ => pure () := rfl
  rw [hforM, Encode.runFrom_bind]
  rcases Encode.runFrom buffer write.run with ⟨_ | _, _⟩ <;> rfl

theorem refusal?_units (amount : Decimal) :
    refusal? (.units amount) =
      if 65535 < amount.bytes.length then some (.outOfRange "tlv_length" amount.bytes.length 16)
      else none := by
  by_cases h : 65535 < amount.bytes.length
  · rw [if_pos h]
    exact if_neg (Nat.not_le_of_lt h)
  · rw [if_neg h]
    exact if_pos (Nat.le_of_not_lt h)

/-- Amounts in turn are written up to the first that is too long. -/
theorem runFrom_forM_units (amounts : List Decimal) (buffer : Buffer) :
    Encode.runFrom buffer ((amounts.map units).forM run) =
      ((amounts.find? (65535 < ·.bytes.length)).elim (.ok ()) fun long =>
        .error (.outOfRange "tlv_length" long.bytes.length 16),
        buffer ++ (amounts.takeWhile (·.bytes.length ≤ 65535)).flatMap fun amount =>
          Chunk.bytes ⟨.units, amount.bytes⟩) := by
  induction amounts generalizing buffer with
  | nil => exact congrArg (Prod.mk _) Array.appendList_nil.symm
  | cons amount amounts ih =>
    have hforM : ((amount :: amounts).map units).forM run =
        run (.units amount) >>= fun _ => (amounts.map units).forM run := rfl
    rw [hforM, Encode.runFrom_bind, runFrom_run, refusal?_units, List.find?_cons,
      List.takeWhile_cons]
    by_cases h : 65535 < amount.bytes.length
    · simp only [h, Nat.not_le_of_lt h, if_true, decide_true, decide_false, Bool.false_eq_true,
        if_false, List.flatMap_nil, Array.appendList_nil, Option.elim_some]
    · simp only [h, Nat.le_of_not_lt h, if_false, decide_false, decide_true, if_true, ih,
        List.flatMap_cons, ← Buffer.append_append]
      rfl

/-- A write fails exactly if it is out of range, and then leaves the buffer as it was; otherwise
the buffer grows by the chunk, which is three bytes longer than the value. So after any run that
goes on after failures the chunks of the successful writes stand in the buffer one after the other.
A field element and an amount are written the same way as fields of an object, and four amounts up
to the first that is too long. -/
theorem run_eq_and_each_eq :
    (∀ (write : Write) (rejection : Rejection),
      write.refusal? = some rejection ↔ write.OutOfRange rejection) ∧
    (∀ (write : Write) (buffer : Buffer),
      Encode.runFrom buffer write.run = match write.refusal? with
        | none => (.ok (), buffer ++ write.content.bytes)
        | some rejection => (.error rejection, buffer)) ∧
    (∀ write : Write, write.content.bytes.length = 3 + write.content.value.length) ∧
    (∀ (writes : List Write) (buffer : Buffer),
      each buffer writes =
        (writes.map fun write => write.refusal?.elim (.ok ()) .error,
          buffer ++ (writes.filter (·.refusal?.isNone)).flatMap (·.content.bytes))) ∧
    (∀ (value : Decimal) (buffer : Buffer),
      Encode.runFrom buffer (Field.element value).run =
        Encode.runFrom buffer (Write.element value).run ∧
      Encode.runFrom buffer (Field.units value).run =
        Encode.runFrom buffer (Write.units value).run) ∧
    ∀ (amounts : Amounts) (buffer : Buffer),
      Encode.runFrom buffer (Field.amounts amounts).run =
        let sums := [amounts.gross, amounts.net, amounts.taxWithheld, amounts.fee]
        ((sums.find? (65535 < ·.bytes.length)).elim (.ok ()) fun long =>
          .error (.outOfRange "tlv_length" long.bytes.length 16),
          buffer ++ (sums.takeWhile (·.bytes.length ≤ 65535)).flatMap fun amount =>
            Chunk.bytes ⟨.units, amount.bytes⟩) := by
  refine ⟨fun _ _ => refusal?_eq_some_iff, runFrom_run, fun write => write.content.length_bytes,
    fun writes buffer => each_eq buffer writes, fun value buffer => ⟨?_, ?_⟩, fun amounts buffer =>
      runFrom_forM_units amounts.toList buffer⟩
  · exact runFrom_forM_singleton (.element value) buffer
  · exact runFrom_forM_singleton (.units value) buffer

end Write

end PayrollSeal
