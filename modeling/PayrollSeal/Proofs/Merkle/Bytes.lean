import PayrollSeal.Merkle.Proof

/-!
# Proofs that come as byte strings

The byte strings of a check are looked at one after the other. The first that does not have the
length of a hash is reported (`Merkle.verifyBytes_eq_error`). If there is none, they are the bytes
of hashes, and the check of these decides (`Merkle.verifyBytes_raw`).
-/

namespace PayrollSeal

/-! ## Hashes -/

namespace Digest

/-- Why a byte string is no hash, if it is none, with the name that it is reported under. -/
def refusal? (named : String × Bytes) : Option Rejection :=
  if named.2.length = 32 then none
  else some (.malformed named.1 s!"expected 32 bytes, got {named.2.length}")

theorem refusal?_eq_some_iff {named : String × Bytes} {rejection : Rejection} :
    refusal? named = some rejection ↔ named.2.length ≠ 32 ∧
      rejection = .malformed named.1 s!"expected 32 bytes, got {named.2.length}" := by
  by_cases h : named.2.length = 32
  · simp only [refusal?, h, if_true, reduceCtorEq, ne_eq, not_true_eq_false, false_and]
  · simp only [refusal?, h, if_false, Option.some.injEq, ne_eq, not_false_eq_true, true_and,
      eq_comm]

theorem refusal?_eq_none_iff {named : String × Bytes} :
    refusal? named = none ↔ named.2.length = 32 := by
  by_cases h : named.2.length = 32
  · simp only [refusal?, h, if_true]
  · simp only [refusal?, h, if_false, reduceCtorEq]

theorem ofBytes_bytes (field : String) (h : Digest) : ofBytes field h.bytes = .ok h :=
  dif_pos h.length_bytes

/-- A byte string is either read as the hash that it is, or refused. -/
theorem ofBytes_cases (field : String) (bytes : Bytes) :
    (∃ h : Digest, h.bytes = bytes ∧ refusal? (field, bytes) = none ∧
      ofBytes field bytes = .ok h) ∨
    ∃ rejection, refusal? (field, bytes) = some rejection ∧
      ofBytes field bytes = .error rejection := by
  by_cases h : bytes.length = 32
  · exact .inl ⟨⟨bytes, h⟩, rfl, if_pos h, dif_pos h⟩
  · exact .inr ⟨_, if_neg h, dif_neg h⟩

/-- What comes after a byte string is looked at only if that is a hash. So the first refusal decides,
if among the others the first one decides what comes after. -/
theorem ofBytes_bind_eq_error {α : Type} {named : String × Bytes} {others : List (String × Bytes)}
    {rejection : Rejection} {next : Digest → Except Rejection α}
    (h : (named :: others).findSome? refusal? = some rejection)
    (hnext : others.findSome? refusal? = some rejection →
      ∀ digest, next digest = .error rejection) :
    ofBytes named.1 named.2 >>= next = .error rejection := by
  rw [List.findSome?_cons] at h
  rcases ofBytes_cases named.1 named.2 with ⟨digest, -, hnone, hok⟩ | ⟨first, hsome, herror⟩
  · rw [hnone] at h
    rw [hok]
    exact hnext h digest
  · rw [hsome] at h
    obtain rfl := Option.some.inj h
    rw [herror]
    rfl

end Digest

namespace Merkle

variable {root leaf : Bytes} {proof : List (Bytes × Side)} {rejection : Rejection}

/-! ## Steps -/

/-- A step with the bytes of its partner. -/
def Step.raw (step : Step) : Bytes × Side :=
  (step.sibling.bytes, step.side)

/-- Reads a step whose partner comes as a byte string. -/
def Step.ofRaw (step : Bytes × Side) : Except Rejection Step :=
  return ⟨← Digest.ofBytes "merkle_sibling" step.1, step.2⟩

/-- The partners of a proof with the name that they are reported under, lowest first. -/
def siblings (proof : List (Bytes × Side)) : List (String × Bytes) :=
  proof.map fun step => ("merkle_sibling", step.1)

theorem mapM_ofRaw_raw (steps : List Step) : (steps.map Step.raw).mapM Step.ofRaw = .ok steps := by
  induction steps with
  | nil => rfl
  | cons step steps ih =>
    have hstep : Step.ofRaw step.raw = .ok step := by
      rw [Step.ofRaw, Step.raw, Digest.ofBytes_bytes]
      rfl
    rw [List.map_cons, List.mapM_cons, hstep, ih]
    rfl

/-- The lowest partner of a wrong length ends the reading, whatever stands above it. -/
theorem mapM_ofRaw_eq_error (h : (siblings proof).findSome? Digest.refusal? = some rejection) :
    proof.mapM Step.ofRaw = .error rejection := by
  induction proof with
  | nil => cases h
  | cons step proof ih =>
    rw [siblings, List.map_cons] at h
    rw [List.mapM_cons, Step.ofRaw, bind_assoc]
    refine Digest.ofBytes_bind_eq_error h fun hrest digest => ?_
    rw [ih hrest]
    rfl

/-- Partners of the right length are those of a proof. -/
theorem exists_map_raw_eq (h : ∀ step ∈ proof, step.1.length = 32) :
    ∃ steps : List Step, steps.map Step.raw = proof := by
  induction proof with
  | nil => exact ⟨[], rfl⟩
  | cons step proof ih =>
    obtain ⟨hstep, hproof⟩ := List.forall_mem_cons.mp h
    obtain ⟨steps, rfl⟩ := ih hproof
    exact ⟨⟨⟨step.1, hstep⟩, step.2⟩ :: steps, rfl⟩

/-! ## Checks -/

/-- The byte strings of a check with the names that they are reported under, in the order in which
they are looked at. -/
def readings (root leaf : Bytes) (proof : List (Bytes × Side)) : List (String × Bytes) :=
  ("merkle_root", root) :: ("merkle_leaf", leaf) :: siblings proof

theorem verifyBytes_eq (root leaf : Bytes) (proof : List (Bytes × Side)) :
    verifyBytes root leaf proof = do
      let root ← Digest.ofBytes "merkle_root" root
      let leaf ← Digest.ofBytes "merkle_leaf" leaf
      return verify root leaf (← proof.mapM Step.ofRaw) :=
  rfl

/-- The bytes of hashes are checked as the hashes are. -/
theorem verifyBytes_raw (root leaf : Digest) (steps : List Step) :
    verifyBytes root.bytes leaf.bytes (steps.map Step.raw) = .ok (verify root leaf steps) := by
  rw [verifyBytes_eq, Digest.ofBytes_bytes, Digest.ofBytes_bytes, mapM_ofRaw_raw]
  rfl

/-- The first byte string of a wrong length is reported. -/
theorem verifyBytes_eq_error
    (h : (readings root leaf proof).findSome? Digest.refusal? = some rejection) :
    verifyBytes root leaf proof = .error rejection := by
  rw [readings] at h
  rw [verifyBytes_eq]
  refine Digest.ofBytes_bind_eq_error h fun hrest rootDigest => ?_
  refine Digest.ofBytes_bind_eq_error hrest fun hsiblings leafDigest => ?_
  rw [mapM_ofRaw_eq_error hsiblings]
  rfl

/-- Nothing is reported exactly if all byte strings have the right length. -/
theorem findSome?_readings_eq_none_iff :
    (readings root leaf proof).findSome? Digest.refusal? = none ↔
      root.length = 32 ∧ leaf.length = 32 ∧ ∀ step ∈ proof, step.1.length = 32 := by
  simp only [readings, siblings, List.findSome?_eq_none_iff, List.forall_mem_cons,
    List.forall_mem_map, Digest.refusal?_eq_none_iff]

/-- Byte strings of the right length are checked as the hashes that they are. -/
theorem exists_verifyBytes_eq_ok
    (h : (readings root leaf proof).findSome? Digest.refusal? = none) :
    ∃ (r l : Digest) (steps : List Step), r.bytes = root ∧ l.bytes = leaf ∧
      steps.map Step.raw = proof ∧ verifyBytes root leaf proof = .ok (verify r l steps) := by
  obtain ⟨hroot, hleaf, hproof⟩ := findSome?_readings_eq_none_iff.mp h
  obtain ⟨steps, rfl⟩ := exists_map_raw_eq hproof
  exact ⟨⟨root, hroot⟩, ⟨leaf, hleaf⟩, steps, rfl, rfl, rfl,
    verifyBytes_raw ⟨root, hroot⟩ ⟨leaf, hleaf⟩ steps⟩

theorem verifyBytes_eq_error_iff :
    verifyBytes root leaf proof = .error rejection ↔
      (readings root leaf proof).findSome? Digest.refusal? = some rejection := by
  refine ⟨fun herror => ?_, verifyBytes_eq_error⟩
  cases h : (readings root leaf proof).findSome? Digest.refusal? with
  | some first =>
    cases (verifyBytes_eq_error h).symm.trans herror
    rfl
  | none =>
    obtain ⟨_, _, _, -, -, -, hok⟩ := exists_verifyBytes_eq_ok h
    cases hok.symm.trans herror

theorem verifyBytes_eq_ok_iff {accepted : Bool} :
    verifyBytes root leaf proof = .ok accepted ↔
      ∃ (r l : Digest) (steps : List Step), r.bytes = root ∧ l.bytes = leaf ∧
        steps.map Step.raw = proof ∧ verify r l steps = accepted := by
  constructor
  · intro hok
    cases h : (readings root leaf proof).findSome? Digest.refusal? with
    | some first => cases (verifyBytes_eq_error h).symm.trans hok
    | none =>
      obtain ⟨r, l, steps, hroot, hleaf, hproof, hverify⟩ := exists_verifyBytes_eq_ok h
      exact ⟨r, l, steps, hroot, hleaf, hproof, Except.ok.inj (hverify.symm.trans hok)⟩
  · rintro ⟨r, l, steps, rfl, rfl, rfl, rfl⟩
    exact verifyBytes_raw r l steps

theorem exists_verifyBytes_eq_ok_iff :
    (∃ accepted, verifyBytes root leaf proof = .ok accepted) ↔
      root.length = 32 ∧ leaf.length = 32 ∧ ∀ step ∈ proof, step.1.length = 32 := by
  constructor
  · rintro ⟨accepted, hok⟩
    obtain ⟨r, l, steps, rfl, rfl, rfl, -⟩ := verifyBytes_eq_ok_iff.mp hok
    exact ⟨r.length_bytes, l.length_bytes,
      List.forall_mem_map.mpr fun step _ => step.sibling.length_bytes⟩
  · intro h
    obtain ⟨_, _, _, -, -, -, hok⟩ :=
      exists_verifyBytes_eq_ok (findSome?_readings_eq_none_iff.mpr h)
    exact ⟨_, hok⟩

/-- There is an answer exactly if the root, the leaf and all partners have 32 bytes, and it is that
for the hashes whose bytes they are. Otherwise the first of another length is reported with its
name and its length, the root before the leaf before the partners from the lowest level on, whatever
comes after it. -/
theorem verifyBytes_refines_verify (root leaf : Bytes) (proof : List (Bytes × Side)) :
    ((∃ accepted, verifyBytes root leaf proof = .ok accepted) ↔
      root.length = 32 ∧ leaf.length = 32 ∧ ∀ step ∈ proof, step.1.length = 32) ∧
    (∀ accepted, verifyBytes root leaf proof = .ok accepted ↔
      ∃ (r l : Digest) (steps : List Step), r.bytes = root ∧ l.bytes = leaf ∧
        steps.map (fun step => (step.sibling.bytes, step.side)) = proof ∧
        verify r l steps = accepted) ∧
    ∀ rejection, verifyBytes root leaf proof = .error rejection ↔
      ∃ before field bytes after,
        readings root leaf proof = before ++ (field, bytes) :: after ∧
          (∀ named ∈ before, named.2.length = 32) ∧ bytes.length ≠ 32 ∧
          rejection = .malformed field s!"expected 32 bytes, got {bytes.length}" := by
  refine ⟨exists_verifyBytes_eq_ok_iff, fun accepted => verifyBytes_eq_ok_iff,
    fun rejection => ?_⟩
  simp only [verifyBytes_eq_error_iff, List.findSome?_eq_some_iff, Prod.exists,
    Digest.refusal?_eq_some_iff, Digest.refusal?_eq_none_iff]
  exact exists_congr fun before => exists_congr fun field => exists_congr fun bytes =>
    exists_congr fun after => and_congr_right fun _ => and_comm

/-- Of two partners of a wrong length the lower one is reported; with all lengths right there is an
answer. -/
theorem verifyBytes_two_short_siblings :
    let h := List.replicate 32 0
    verifyBytes h h [(h, .left), (List.replicate 31 0, .right), ([], .left)] =
      .error (.malformed "merkle_sibling" "expected 32 bytes, got 31") ∧
    ∃ accepted, verifyBytes h h [(h, .left), (h, .right)] = .ok accepted := by
  intro h
  refine ⟨((verifyBytes_refines_verify h h _).2.2 _).mpr ?_,
    (verifyBytes_refines_verify h h _).1.mpr (by decide)⟩
  exact ⟨[("merkle_root", h), ("merkle_leaf", h), ("merkle_sibling", h)], _, _,
    [("merkle_sibling", [])], rfl, by decide, by decide, by decide⟩

end Merkle

end PayrollSeal
