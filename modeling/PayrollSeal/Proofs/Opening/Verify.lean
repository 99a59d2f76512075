import PayrollSeal.Opening
import PayrollSeal.Proofs.Framing
import PayrollSeal.Proofs.Merkle.Messages
import PayrollSeal.Proofs.Merkle.Position
import PayrollSeal.Proofs.Statement.Leaves

/-!
# What a verifier checks

The conditions under which an opening belongs to a root (`Opening.opens_iff`), and the messages
that are hashed while they are checked.
-/

namespace PayrollSeal

namespace Opening

/-- The messages that are hashed when an opening is checked. -/
def messages (opening : Opening) : List Bytes :=
  Domain.leaf.message opening.leafBytes ::
    Merkle.foldMessages opening.leafHash opening.proof

theorem leaf_message_mem (opening : Opening) :
    Domain.leaf.message opening.leafBytes ∈ opening.messages :=
  List.mem_cons_self

theorem foldMessages_subset (opening : Opening) :
    Merkle.foldMessages opening.leafHash opening.proof ⊆ opening.messages :=
  List.subset_cons_self _ _

/-- The leaf bytes of an opening begin like those of its leaf: the header is that of a leaf of its
kind, and the first chunk names the leaf. -/
def WellFormed (opening : Opening) : Prop :=
  opening.headerMatches = true ∧ opening.namesLeaf = true

instance (opening : Opening) : Decidable opening.WellFormed :=
  inferInstanceAs (Decidable (_ ∧ _))

/-- An opening belongs to a root if its bytes begin as they should, they have the leaf's hash, and
a proof of fewer than 64 steps at the leaf's position leads from the hash to the root. -/
theorem opens_iff {opening : Opening} {root : Digest} :
    opening.opens root = true ↔
      opening.WellFormed ∧ Domain.leaf.hash opening.leafBytes = opening.leafHash ∧
        opening.proof.length < 64 ∧ Merkle.position opening.proof = opening.leaf.index ∧
        Merkle.fold opening.leafHash opening.proof = root ∧ opening.root = root := by
  have hindex : opening.leaf.index < 2 ^ 64 :=
    Nat.lt_trans opening.leaf.index_lt (by decide)
  simp only [opens, verify, Merkle.verify, Bool.and_eq_true, beq_iff_eq, WellFormed,
    Merkle.position?_eq_some_iff hindex]
  constructor
  · rintro ⟨rfl, ⟨⟨⟨hheader, hname⟩, hhash⟩, hlen, hposition⟩, hfold⟩
    exact ⟨⟨hheader, hname⟩, hhash, hlen, hposition, hfold, rfl⟩
  · rintro ⟨⟨hheader, hname⟩, hhash, hlen, hposition, hfold, rfl⟩
    exact ⟨rfl, ⟨⟨⟨hheader, hname⟩, hhash⟩, hlen, hposition⟩, hfold⟩

/-- The kind that an opening names is the one in the header of its leaf bytes. -/
theorem kindTag_eq_of_headerMatches {opening : Opening} (h : opening.headerMatches = true) :
    (Object.header? opening.leafBytes).map (·.1.tag) = some opening.kindTag := by
  unfold headerMatches at h
  split at h
  · next kind version hheader =>
    rw [Bool.and_eq_true, Bool.and_eq_true, beq_iff_eq] at h
    rw [hheader, ← h.1.2]
    rfl
  · cases h

end Opening

end PayrollSeal
