import PayrollSeal.Chunk

/-!
# Chunks are self-delimiting

The header of a chunk holds the exact length of a value that fits, so a chunk can be split off the
front of any bytes (`Chunk.bytes_append_prefix_iff`), and the bytes of a list of chunks start those
of another list only if the lists do (`Chunk.flatMap_bytes_prefix_iff`).
-/

namespace PayrollSeal

/-! ## Words -/

namespace Bytes

/-- The number that bytes spell, high byte first. -/
def toNat (bytes : Bytes) : Nat :=
  bytes.foldl (fun n b => n * 256 + b.toNat) 0

theorem toNat_ofUInt16 (w : UInt16) : toNat (ofUInt16 w) = w.toNat := by
  have hw := w.toNat_lt
  simp only [toNat, ofUInt16, List.foldl_cons, List.foldl_nil, UInt16.toNat_toUInt8,
    UInt16.toNat_shiftRight, UInt16.reduceToNat, Nat.shiftRight_eq_div_pow, Nat.reduceMod,
    Nat.reducePow]
  omega

theorem toNat_ofUInt32 (w : UInt32) : toNat (ofUInt32 w) = w.toNat := by
  have hw := w.toNat_lt
  simp only [toNat, ofUInt32, List.foldl_cons, List.foldl_nil, UInt32.toNat_toUInt8,
    UInt32.toNat_shiftRight, UInt32.reduceToNat, Nat.shiftRight_eq_div_pow, Nat.reduceMod,
    Nat.reducePow]
  omega

theorem ofUInt16_inj {v w : UInt16} : ofUInt16 v = ofUInt16 w ↔ v = w := by
  refine ⟨fun h => UInt16.toNat_inj.mp ?_, fun h => congrArg ofUInt16 h⟩
  rw [← toNat_ofUInt16, h, toNat_ofUInt16]

theorem ofUInt32_inj {v w : UInt32} : ofUInt32 v = ofUInt32 w ↔ v = w := by
  refine ⟨fun h => UInt32.toNat_inj.mp ?_, fun h => congrArg ofUInt32 h⟩
  rw [← toNat_ofUInt32, h, toNat_ofUInt32]

end Bytes

/-! ## One chunk -/

theorem ChunkType.code_inj {s t : ChunkType} : s.code = t.code ↔ s = t := by
  cases s <;> cases t <;> decide

namespace Chunk

/-- The value of a chunk is not too long for its header. -/
def Fits (chunk : Chunk) : Prop :=
  chunk.value.length ≤ maxLength

instance (chunk : Chunk) : Decidable chunk.Fits :=
  inferInstanceAs (Decidable (_ ≤ _))

/-- A length that fits is not cut off in its word. -/
private theorem length_eq_of_toUInt16_eq {m n : Nat} (hm : m ≤ maxLength) (hn : n ≤ maxLength)
    (h : m.toUInt16 = n.toUInt16) : m = n := by
  have hmax : maxLength = 65535 := rfl
  have hnat := congrArg UInt16.toNat h
  simp only [Nat.toUInt16_eq, UInt16.toNat_ofNat'] at hnat
  omega

/-- A chunk that fits can be split off the front of any bytes. -/
theorem bytes_append_inj {c d : Chunk} (hc : c.Fits) (hd : d.Fits) {x y : Bytes}
    (h : c.bytes ++ x = d.bytes ++ y) : c = d ∧ x = y := by
  obtain ⟨s, v⟩ := c
  obtain ⟨t, w⟩ := d
  rw [bytes, bytes, List.append_assoc, List.append_assoc] at h
  obtain ⟨hheader, hrest⟩ := List.append_inj h rfl
  rw [List.cons.injEq, ChunkType.code_inj, Bytes.ofUInt16_inj] at hheader
  obtain ⟨rfl, hword⟩ := hheader
  -- the length in the header says where the value ends
  have hlen : v.length = w.length := length_eq_of_toUInt16_eq hc hd hword
  obtain ⟨rfl, rfl⟩ := List.append_inj hrest hlen
  exact ⟨rfl, rfl⟩

theorem bytes_append_prefix_iff {c d : Chunk} (hc : c.Fits) (hd : d.Fits) {x y : Bytes} :
    c.bytes ++ x <+: d.bytes ++ y ↔ c = d ∧ x <+: y := by
  constructor
  · rintro ⟨t, ht⟩
    rw [List.append_assoc] at ht
    obtain ⟨rfl, hxy⟩ := bytes_append_inj hc hd ht
    exact ⟨rfl, t, hxy⟩
  · rintro ⟨rfl, hxy⟩
    exact (List.prefix_append_right_inj _).mpr hxy

theorem bytes_ne_nil (c : Chunk) : c.bytes ≠ [] := by
  rw [bytes, List.cons_append]
  exact List.cons_ne_nil _ _

/-! ## Lists of chunks -/

/-- The bytes of chunks that fit start those of others exactly if the chunks do. -/
theorem flatMap_bytes_prefix_iff {cs ds : List Chunk} (hcs : ∀ c ∈ cs, c.Fits)
    (hds : ∀ d ∈ ds, d.Fits) : cs.flatMap bytes <+: ds.flatMap bytes ↔ cs <+: ds := by
  induction cs generalizing ds with
  | nil => simp only [List.flatMap_nil, List.nil_prefix]
  | cons c cs ih =>
    cases ds with
    | nil =>
      rw [List.flatMap_nil, List.prefix_nil, List.prefix_nil, List.flatMap_cons,
        List.append_eq_nil_iff]
      exact ⟨fun h => (c.bytes_ne_nil h.1).elim, fun h => (List.cons_ne_nil _ _ h).elim⟩
    | cons d ds =>
      rw [List.flatMap_cons, List.flatMap_cons, List.cons_prefix_cons,
        bytes_append_prefix_iff (hcs c List.mem_cons_self) (hds d List.mem_cons_self),
        ih (fun c hc => hcs c (List.mem_cons_of_mem _ hc))
          (fun d hd => hds d (List.mem_cons_of_mem _ hd))]

end Chunk

end PayrollSeal
