import PayrollSeal.Notary
import PayrollSeal.Proofs.Merkle.Soundness
import PayrollSeal.Proofs.Opening.Verify
import PayrollSeal.Proofs.Statement.Encodable
import PayrollSeal.Reference

/-!
# Openings under the root of a statement

Under the root of a statement a verifier accepts nothing but what a notary opens
(`Opening.openLeaf_eq_of_opens`). The verifier does not look at the number of steps of a proof: a
shorter one would start above the leaves and a longer one below them, and the domains tell leaves
from nodes.
-/

namespace PayrollSeal

open Merkle (Step)

namespace Opening

/-- The opening of one leaf when all leaves have given bytes. -/
def ofLeaves (kind : Object.Kind) (bytes : Leaf → Bytes) (leaf : Leaf) : Opening where
  leaf := leaf
  kindTag := kind.tag
  leafBytes := bytes leaf
  leafHash := Domain.leaf.hash (bytes leaf)
  proof := Merkle.path (LeafHashes.ofBytes bytes).toList leaf.index leaf.index_lt
  root := Merkle.top _ (LeafHashes.ofBytes bytes).toList_ne_nil

end Opening

/-- A notary opens a leaf as its bytes determine, unless it checks proofs and this one fails. -/
theorem Notary.openLeaf_eq (notary : Notary) {statement : Statement} {bytes : Leaf → Bytes}
    (h : statement.HasLeaves bytes) (leaf : Leaf) :
    notary.openLeaf statement leaf =
      if notary.checksProofs && !(Opening.ofLeaves statement.leafKind bytes leaf).verify then
        .error (.proofFails leaf)
      else .ok (Opening.ofLeaves statement.leafKind bytes leaf) := by
  have hlt : leaf.index < (LeafHashes.ofBytes bytes).toList.length := leaf.index_lt
  unfold openLeaf
  rw [h leaf, h.leafHashes_eq]
  simp only [Except.mapError, bind, Except.bind, Merkle.root_eq_ok (LeafHashes.toList_ne_nil _),
    Merkle.proof_eq_ok hlt, LeafHashes.get_ofBytes]
  rfl

namespace Opening

variable {messages : List Bytes} {statement : Statement} {opening : Opening}
  {bytes : Leaf → Bytes}

/-- An opening whose leaf bytes are those of a statement's leaf names the kind of its leaves. -/
theorem kindTag_eq_of_leafBytes_eq (h : statement.HasLeaves bytes)
    (hheader : opening.headerMatches = true) (hbytes : opening.leafBytes = bytes opening.leaf) :
    opening.kindTag = statement.leafKind.tag := by
  obtain ⟨-, heq⟩ := Object.ofLayout_eq_ok_iff.mp (h opening.leaf)
  have hkind := kindTag_eq_of_headerMatches hheader
  rw [hbytes, ← heq, Object.bytes, Object.header?_header_append] at hkind
  exact (Option.some.inj hkind).symm

/-- An opening that belongs to the root of a statement is the one that the leaves determine. -/
theorem eq_ofLeaves_of_opens (hfree : CollisionFree messages) (h : statement.HasLeaves bytes)
    (hs : statement.messages ⊆ messages) (ho : opening.messages ⊆ messages) {root : Digest}
    (hroot : statement.root = .ok root) (hopens : opening.opens root = true) :
    opening = ofLeaves statement.leafKind bytes opening.leaf := by
  obtain ⟨⟨hheader, -⟩, hhash, -, hposition, hfold, hopening⟩ := opens_iff.mp hopens
  have htop : Merkle.top _ (LeafHashes.ofBytes bytes).toList_ne_nil = root := by
    rw [h.root_eq] at hroot
    exact Except.ok.inj hroot
  have htree := List.Subset.trans h.treeMessages_subset hs
  have hproof := List.Subset.trans opening.foldMessages_subset ho
  have hpayload := ho opening.leaf_message_mem
  have hleaves : ∀ leaf ∈ (LeafHashes.ofBytes bytes).toList,
      ∃ payload, Domain.leaf.message payload ∈ messages ∧ leaf = Domain.leaf.hash payload := by
    intro x hx
    obtain ⟨leaf, rfl⟩ := LeafHashes.exists_get_of_mem_toList hx
    exact ⟨bytes leaf, hs (h.message_mem leaf), LeafHashes.get_ofBytes bytes leaf⟩
  have hlt : Merkle.position opening.proof < (LeafHashes.ofBytes bytes).toList.length := by
    rw [hposition]
    exact opening.leaf.index_lt
  rw [← hhash] at hproof hfold
  obtain ⟨hleaf, hpath⟩ := Merkle.eq_path_of_fold_eq_top hfree _ htree hleaves hpayload hproof
    (hfold.trans htop.symm) hlt
  -- the leaf at the opening's position has the opening's bytes
  simp only [hposition] at hleaf hpath
  rw [LeafHashes.getElem_toList, LeafHashes.get_ofBytes] at hleaf
  have hbytes : opening.leafBytes = bytes opening.leaf :=
    (hfree.hash_inj hpayload (hs (h.message_mem opening.leaf)) hleaf).2
  apply Opening.ext
  · rfl
  · exact kindTag_eq_of_leafBytes_eq h hheader hbytes
  · exact hbytes
  · exact hhash.symm.trans hleaf
  · exact hpath
  · exact hopening.trans htop.symm

/-- A verifier who holds the root of a statement accepts no opening of a leaf but the notary's,
unless two of the messages that are hashed for the root and for the check collide. -/
theorem openLeaf_eq_of_opens (notary : Notary) {root : Digest}
    (hroot : statement.root = .ok root) (hopens : opening.opens root = true)
    (hfree : CollisionFree (statement.messages ++ opening.messages)) :
    notary.openLeaf statement opening.leaf = .ok opening := by
  obtain ⟨bytes, h⟩ := Statement.exists_hasLeaves_of_root_eq_ok hroot
  have heq := eq_ofLeaves_of_opens hfree h (List.subset_append_left _ _)
    (List.subset_append_right _ _) hroot hopens
  have hverify : opening.verify = true := by
    rw [opens, Bool.and_eq_true] at hopens
    exact hopens.2
  rw [notary.openLeaf_eq h, ← heq, hverify, Bool.not_true, Bool.and_false]
  rfl

/-- The bytes of the leaves of the reference pay period. -/
def referenceBytes (leaf : Leaf) : Bytes :=
  Object.bytes .payPeriodLeaf (Reference.payPeriod.leafLayout leaf)

/-- The amounts of the reference pay period with their two steps. -/
def referenceAmounts : Opening where
  leaf := .amounts
  kindTag := 0x3001
  leafBytes := referenceBytes .amounts
  leafHash := Domain.leaf.hash (referenceBytes .amounts)
  proof :=
    [⟨Domain.leaf.hash (referenceBytes .binding), .left⟩,
      ⟨Merkle.parent (Domain.leaf.hash (referenceBytes .provenance))
        (Domain.leaf.hash (referenceBytes .provenance)), .right⟩]
  root :=
    Merkle.parent
      (Merkle.parent (Domain.leaf.hash (referenceBytes .binding))
        (Domain.leaf.hash (referenceBytes .amounts)))
      (Merkle.parent (Domain.leaf.hash (referenceBytes .provenance))
        (Domain.leaf.hash (referenceBytes .provenance)))

theorem openLeaf_reference_amounts :
    Notary.openLeaf {} (.payPeriod Reference.payPeriod) .amounts = .ok referenceAmounts := by
  have h : (Statement.payPeriod Reference.payPeriod).HasLeaves referenceBytes :=
    Statement.hasLeaves_of_fits (by decide +kernel)
  have hopens : referenceAmounts.opens referenceAmounts.root = true := by
    decide +kernel
  have hroot : (Statement.payPeriod Reference.payPeriod).root = .ok referenceAmounts.root := by
    rw [h.root_eq_parent, referenceAmounts]
  have hfree : CollisionFree
      ((Statement.payPeriod Reference.payPeriod).messages ++ referenceAmounts.messages) := by
    rw [h.messages_eq, LeafHashes.toList, Merkle.treeMessages_three]
    decide +kernel
  have heq := openLeaf_eq_of_opens {} hroot hopens hfree
  exact heq

end Opening

end PayrollSeal
