import PayrollSeal.Proofs.Opening.Honest

/-!
# A notary's checks of its own proofs

A notary may check its proofs before it hands them out. No such check ever fails
(`Opening.verify_ofLeaves`, `Notary.requireProofs_eq_ok`), because every leaf has a proof that leads
to the root and spells the leaf's index, and every leaf begins with the header and the tag that a
verifier looks for. So whether proofs are checked leaves no trace in what a notary returns, and what
it opens belongs to the root that it seals.
-/

namespace PayrollSeal

/-! ## Openings -/

/-- The proof of a leaf leads from the leaf's hash to the root over the leaves. -/
theorem LeafHashes.fold_get_path (hashes : LeafHashes) (leaf : Leaf)
    (h : leaf.index < hashes.toList.length) :
    Merkle.fold (hashes.get leaf) (Merkle.path hashes.toList leaf.index h) =
      Merkle.top _ hashes.toList_ne_nil := by
  rw [← getElem_toList hashes leaf h]
  exact Merkle.fold_path _ _ leaf.index h

theorem Statement.isLeaf_leafKind (statement : Statement) : statement.leafKind.isLeaf = true := by
  have hkind : ∀ kind ∈ [Object.Kind.payPeriodLeaf, .summaryLeaf], kind.isLeaf = true := by decide
  cases statement with
  | payPeriod doc => exact hkind _ List.mem_cons_self
  | summary doc => exact hkind _ (List.mem_cons_of_mem _ List.mem_cons_self)

namespace Opening

variable {statement : Statement} {bytes : Leaf → Bytes}

/-- The bytes of a leaf begin as a verifier expects. -/
theorem wellFormed_ofLeaves (h : statement.HasLeaves bytes) (leaf : Leaf) :
    (ofLeaves statement.leafKind bytes leaf).WellFormed := by
  obtain ⟨-, hbytes⟩ := Object.ofLayout_eq_ok_iff.mp (h leaf)
  obtain ⟨rest, hlayout⟩ := statement.exists_leafLayout_eq_cons leaf
  constructor
  · simp only [headerMatches, ofLeaves, ← hbytes, Object.bytes, Object.header?_header_append,
      Statement.isLeaf_leafKind, beq_self_eq_true, Bool.and_self]
  · have hfront : (bytes leaf).drop Object.headerLength =
        Chunk.bytes ⟨.u8, [leaf.tag]⟩ ++ (Layout.chunks rest).flatMap Chunk.bytes := by
      rw [← hbytes, hlayout, Object.bytes]
      exact List.drop_left' rfl
    rw [namesLeaf, ofLeaves, hfront]
    exact beq_iff_eq.mpr (List.take_left' rfl)

/-- An opening of a leaf belongs to the root over the leaves. -/
theorem opens_ofLeaves (h : statement.HasLeaves bytes) (leaf : Leaf) :
    (ofLeaves statement.leafKind bytes leaf).opens
      (Merkle.top _ (LeafHashes.ofBytes bytes).toList_ne_nil) = true := by
  have hlt : leaf.index < (LeafHashes.ofBytes bytes).toList.length := leaf.index_lt
  have hfold := (LeafHashes.ofBytes bytes).fold_get_path leaf hlt
  rw [LeafHashes.get_ofBytes] at hfold
  have hlen : (Merkle.path _ leaf.index hlt).length < 64 := by
    rw [Merkle.length_path]
    show Merkle.height 3 < 64
    decide +kernel
  exact opens_iff.mpr
    ⟨wellFormed_ofLeaves h leaf, rfl, hlen, Merkle.position_path _ leaf.index hlt, hfold, rfl⟩

theorem verify_ofLeaves (h : statement.HasLeaves bytes) (leaf : Leaf) :
    (ofLeaves statement.leafKind bytes leaf).verify = true := by
  have hopens := opens_ofLeaves h leaf
  rw [opens, Bool.and_eq_true] at hopens
  exact hopens.2

end Opening

namespace Notary

/-- A notary opens a leaf whether it checks proofs or not, unless a decimal is too long: the first
such decimal of the leaf decides the rejection, or else the first of the document. -/
theorem openLeaf_eq_of_decimals (notary : Notary) (statement : Statement) (leaf : Leaf) :
    notary.openLeaf statement leaf =
      (((Layout.decimals (statement.leafLayout leaf) ++ statement.decimals).findSome?
        Decimal.refusal?).map .rejected).elim
          (.ok (.ofLeaves statement.leafKind statement.leafObject leaf)) .error := by
  rw [List.findSome?_append]
  cases hleaf : (Layout.decimals (statement.leafLayout leaf)).findSome? Decimal.refusal? with
  | some rejection =>
    unfold openLeaf
    rw [statement.leafBytes_eq, hleaf]
    rfl
  | none =>
    rw [Option.none_or]
    cases hdoc : statement.refusal? with
    | some rejection =>
      rw [Statement.refusal?] at hdoc
      unfold openLeaf
      rw [statement.leafBytes_eq, hleaf, statement.leafHashes_eq, Statement.refusal?, hdoc]
      rfl
    | none =>
      have h := Statement.hasLeaves_leafObject hdoc
      rw [notary.openLeaf_eq h, Opening.verify_ofLeaves h, Bool.not_true, Bool.and_false]
      rw [Statement.refusal?] at hdoc
      rw [hdoc]
      rfl

/-! ## Bundles -/

/-- The proofs of three leaves lead to the root over them. -/
theorem requireProofs_eq_ok (notary : Notary) (hashes : LeafHashes) :
    notary.requireProofs hashes (Merkle.top _ hashes.toList_ne_nil) = .ok () := by
  have hstep : ∀ leaf : Leaf, (do
      let proof ← (Merkle.proof hashes.toList leaf.index).mapError .rejected
      if Merkle.verify (Merkle.top _ hashes.toList_ne_nil) (hashes.get leaf) proof then .ok ()
      else .error (.proofFails leaf) : Except Refusal Unit) = .ok () := by
    intro leaf
    have hlt : leaf.index < hashes.toList.length := leaf.index_lt
    rw [Merkle.proof_eq_ok hlt]
    exact if_pos (beq_iff_eq.mpr (hashes.fold_get_path leaf hlt))
  unfold requireProofs
  split
  · simp only [Leaf.all, hstep]
    rfl
  · rfl

end Notary

/-- The bundle of a statement that can be encoded. -/
def Bundle.of (statement : Statement) (inputsHash : Digest) (scope : Scope) (periodId : UInt32) :
    Bundle where
  docHash := statement.digest
  inputsHash := inputsHash
  root := Merkle.top _ (LeafHashes.ofBytes statement.leafObject).toList_ne_nil
  leafHashes := .ofBytes statement.leafObject
  recordId := .of scope periodId statement.agreement inputsHash
  scope := scope
  periodId := periodId
  versions := statement.versions
  agreement := statement.agreement

/-- The bundle of a statement that can be encoded holds the hash of the document, the hashes of the
leaves and the root. -/
theorem Bundle.hashes_of {statement : Statement} (h : statement.refusal? = none)
    (inputsHash : Digest) (scope : Scope) (periodId : UInt32) :
    statement.docHash = .ok (Bundle.of statement inputsHash scope periodId).docHash ∧
      statement.leafHashes = .ok (Bundle.of statement inputsHash scope periodId).leafHashes ∧
      statement.root = .ok (Bundle.of statement inputsHash scope periodId).root := by
  refine ⟨?_, ?_, (Statement.hasLeaves_leafObject h).root_eq⟩
  · rw [statement.docHash_eq, h]
    rfl
  · rw [statement.leafHashes_eq, h]
    rfl

/-- The bundle of a statement does not depend on the notary, and the first decimal that is too long
decides the rejection. -/
theorem Notary.bundle_eq (notary : Notary) (statement : Statement) (inputsHash : Digest)
    (scope : Scope) (periodId : UInt32) :
    notary.bundle statement inputsHash scope periodId =
      (statement.refusal?.map .rejected).elim (.ok (.of statement inputsHash scope periodId))
        .error := by
  unfold bundle
  rw [statement.docHash_eq]
  cases h : statement.refusal? with
  | some rejection => rfl
  | none =>
    rw [statement.leafHashes_eq, h]
    simp only [Option.map_none, Option.elim_none, Except.mapError, bind, Except.bind,
      Merkle.root_eq_ok (LeafHashes.toList_ne_nil _), notary.requireProofs_eq_ok]
    rfl

end PayrollSeal
