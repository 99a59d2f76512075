import PayrollSeal.Proofs.Layout
import PayrollSeal.Proofs.Merkle.Soundness
import PayrollSeal.Proofs.Opening.Verify
import PayrollSeal.Reference

/-!
# Openings under a root of unknown origin

A verifier looks at the position that the sides of a proof spell, and partners on the right at the
end of a proof add nothing to it. So two openings of one leaf may stand at different depths. At one
depth, or if the leaf is the first one, a root has one opening of a leaf (`Opening.eq_of_opens`);
at two depths any leaf bytes have openings of one leaf under one root
(`Opening.exists_attach_opens`).

## Strategy

A leaf's position is a power of two unless the leaf is the first one, so one partner on the left
spells it. A shallow proof and a deep proof start with as many partners on the right, go

    right, …, right, left, right, …, right
    right, …, right, left, right, …, right, right, right, …, right

and meet above the partner on the left of the shallow one, which is a node on the way of the deep
one.
-/

namespace PayrollSeal

open Merkle (Step)

/-! ## Two proofs that meet -/

namespace Merkle

/-- Partners on the right. -/
def pad (n : Nat) : List Step := List.replicate n ⟨.zero, .right⟩

theorem length_pad (n : Nat) : (pad n).length = n := List.length_replicate

theorem position_pad (n : Nat) : position (pad n) = 0 := by
  rw [position_eq_zero_iff, pad, List.map_replicate, List.length_replicate]

/-- A proof whose one partner on the left is `node`. -/
def shallowProof (below above : Nat) (node : Digest) : List Step :=
  pad below ++ ⟨node, .left⟩ :: pad above

/-- A proof of the same position that has `node` for a partner further up. -/
def deepProof (below between above : Nat) (node : Digest) : List Step :=
  pad below ++ ⟨.zero, .left⟩ :: (pad between ++ ⟨node, .right⟩ :: pad above)

theorem length_shallowProof (below above : Nat) (node : Digest) :
    (shallowProof below above node).length = below + above + 1 := by
  rw [shallowProof, List.length_append, List.length_cons, length_pad, length_pad]
  omega

theorem length_deepProof (below between above : Nat) (node : Digest) :
    (deepProof below between above node).length = below + between + above + 2 := by
  rw [deepProof, List.length_append, List.length_cons, List.length_append, List.length_cons,
    length_pad, length_pad, length_pad]
  omega

theorem position_shallowProof (below above : Nat) (node : Digest) :
    position (shallowProof below above node) = 2 ^ below := by
  rw [shallowProof, position_append, position_pad, position, position_pad, if_pos rfl, length_pad,
    Nat.zero_add, Nat.mul_zero, Nat.add_zero, Nat.mul_one]

theorem position_deepProof (below between above : Nat) (node : Digest) :
    position (deepProof below between above node) = 2 ^ below := by
  have hup : position (pad between ++ ⟨node, .right⟩ :: pad above) = 0 := by
    rw [position_append, position_pad, position, position_pad]
    rfl
  rw [deepProof, position_append, position_pad, position, hup, if_pos rfl, length_pad,
    Nat.zero_add, Nat.mul_zero, Nat.add_zero, Nat.mul_one]

/-- The two proofs meet above a node of either way. -/
theorem fold_shallowProof_eq_fold_deepProof (below between above : Nat) (x y : Digest) :
    fold x (shallowProof below above (fold y (pad below ++ ⟨.zero, .left⟩ :: pad between))) =
      fold y (deepProof below between above (fold x (pad below))) := by
  have hdeep : deepProof below between above (fold x (pad below)) =
      (pad below ++ ⟨.zero, .left⟩ :: pad between) ++
        ⟨fold x (pad below), .right⟩ :: pad above := by
    rw [deepProof, List.append_assoc, List.cons_append]
  rw [hdeep, shallowProof, fold_append x,
    fold_append y (pad below ++ ⟨.zero, .left⟩ :: pad between)]
  rfl

end Merkle

namespace Opening

variable {messages : List Bytes} {o p : Opening} {root : Digest}

/-! ## One depth -/

/-- The sides of one proof are the last sides of the other if both have one length or the leaf is
the first one. -/
theorem sides_suffix_of_opens (ho : o.opens root = true) (hp : p.opens root = true)
    (hleaf : o.leaf = p.leaf) (hle : o.proof.length ≤ p.proof.length)
    (h : o.leaf = .binding ∨ o.proof.length = p.proof.length) :
    o.proof.map Step.side <:+ p.proof.map Step.side := by
  obtain ⟨-, -, -, hposo, -⟩ := opens_iff.mp ho
  obtain ⟨-, -, -, hposp, -⟩ := opens_iff.mp hp
  rcases h with hbinding | hlen
  · rw [hbinding] at hposo
    rw [← hleaf, hbinding] at hposp
    rw [Merkle.position_eq_zero_iff.mp hposo, Merkle.position_eq_zero_iff.mp hposp]
    refine ⟨List.replicate (p.proof.length - o.proof.length) .right, ?_⟩
    rw [List.replicate_append_replicate, Nat.sub_add_cancel hle]
  · have hposition : Merkle.position o.proof = Merkle.position p.proof := by
      rw [hposo, hposp, hleaf]
    exact ⟨[], Merkle.sides_eq_of_position_eq hlen hposition⟩

private theorem eq_of_opens_of_le (hfree : CollisionFree messages) (hmo : o.messages ⊆ messages)
    (hmp : p.messages ⊆ messages) (ho : o.opens root = true) (hp : p.opens root = true)
    (hleaf : o.leaf = p.leaf) (h : o.leaf = .binding ∨ o.proof.length = p.proof.length)
    (hle : o.proof.length ≤ p.proof.length) : o = p := by
  have hsides := sides_suffix_of_opens ho hp hleaf hle h
  obtain ⟨⟨hheadero, -⟩, hhasho, -, -, hfoldo, hrooto⟩ := opens_iff.mp ho
  obtain ⟨⟨hheaderp, -⟩, hhashp, -, -, hfoldp, hrootp⟩ := opens_iff.mp hp
  have hso := List.Subset.trans o.foldMessages_subset hmo
  have hsp := List.Subset.trans p.foldMessages_subset hmp
  rw [← hhasho] at hso hfoldo
  rw [← hhashp] at hsp hfoldp
  obtain ⟨hhash, hproof⟩ := Merkle.fold_leaf_inj hfree (hmo o.leaf_message_mem) hso hsp hsides
    (hfoldo.trans hfoldp.symm)
  have hbytes : o.leafBytes = p.leafBytes :=
    (hfree.hash_inj (hmo o.leaf_message_mem) (hmp p.leaf_message_mem) hhash).2
  have hkind := kindTag_eq_of_headerMatches hheadero
  rw [hbytes, kindTag_eq_of_headerMatches hheaderp] at hkind
  apply Opening.ext
  · exact hleaf
  · exact (Option.some.inj hkind).symm
  · exact hbytes
  · rw [← hhasho, hhash, hhashp]
  · exact hproof
  · rw [hrooto, hrootp]

/-- A root has one opening of a leaf at one depth, and one of the first leaf at any depth. -/
theorem eq_of_opens (hfree : CollisionFree messages) (hmo : o.messages ⊆ messages)
    (hmp : p.messages ⊆ messages) (ho : o.opens root = true) (hp : p.opens root = true)
    (hleaf : o.leaf = p.leaf) (h : o.leaf = .binding ∨ o.proof.length = p.proof.length) :
    o = p := by
  rcases Nat.le_total o.proof.length p.proof.length with hle | hle
  · exact eq_of_opens_of_le hfree hmo hmp ho hp hleaf h hle
  · have h' : p.leaf = .binding ∨ p.proof.length = o.proof.length := by
      rw [← hleaf]
      exact h.imp_right Eq.symm
    exact (eq_of_opens_of_le hfree hmp hmo hp ho hleaf.symm h' hle).symm

/-! ## Two depths -/

/-- The opening of the same leaf bytes with another proof, under the root that it leads to. -/
def attach (o : Opening) (proof : List Step) : Opening where
  leaf := o.leaf
  kindTag := o.kindTag
  leafBytes := o.leafBytes
  leafHash := Domain.leaf.hash o.leafBytes
  proof := proof
  root := Merkle.fold (Domain.leaf.hash o.leafBytes) proof

theorem attach_opens (ho : o.WellFormed) {proof : List Step} (hlen : proof.length < 64)
    (hposition : Merkle.position proof = o.leaf.index) :
    (o.attach proof).opens (Merkle.fold (Domain.leaf.hash o.leafBytes) proof) = true :=
  opens_iff.mpr ⟨ho, rfl, hlen, hposition, rfl, rfl⟩

/-- A leaf other than the first stands at a power of two. -/
theorem two_pow_index_sub_one {leaf : Leaf} (h : leaf ≠ .binding) :
    2 ^ (leaf.index - 1) = leaf.index := by
  cases leaf with
  | binding => exact (h rfl).elim
  | amounts => rfl
  | provenance => rfl

private theorem exists_attach_opens_of_lt (ho : o.WellFormed) (hp : p.WellFormed)
    (hleaf : o.leaf = p.leaf) (hne : o.leaf ≠ .binding) {m n : Nat} (hm : o.leaf.index ≤ m)
    (hlt : m < n) (hn : n < 64) :
    ∃ s t root, s.length = m ∧ t.length = n ∧ (o.attach s).opens root = true ∧
      (p.attach t).opens root = true := by
  have hpow := two_pow_index_sub_one hne
  have hpos : 0 < o.leaf.index := by
    rw [← hpow]
    exact Nat.two_pow_pos _
  -- each of the two nodes is a partner on the way of the other leaf
  let below := o.leaf.index - 1
  let node := Merkle.fold (Domain.leaf.hash p.leafBytes)
    (Merkle.pad below ++ ⟨.zero, .left⟩ :: Merkle.pad (n - m - 1))
  let node' := Merkle.fold (Domain.leaf.hash o.leafBytes) (Merkle.pad below)
  have hs : (Merkle.shallowProof below (m - o.leaf.index) node).length = m := by
    rw [Merkle.length_shallowProof]
    omega
  have ht : (Merkle.deepProof below (n - m - 1) (m - o.leaf.index) node').length = n := by
    rw [Merkle.length_deepProof]
    omega
  have hopens := attach_opens ho (by rw [hs]; omega)
    ((Merkle.position_shallowProof below _ node).trans hpow)
  have hopens' := attach_opens hp (by rw [ht]; exact hn)
    ((Merkle.position_deepProof below _ _ node').trans
      (hpow.trans (congrArg Leaf.index hleaf)))
  refine ⟨_, _, _, hs, ht, hopens, ?_⟩
  rw [Merkle.fold_shallowProof_eq_fold_deepProof]
  exact hopens'

/-- At two depths any two leaf bytes have openings of one leaf under one root. -/
theorem exists_attach_opens (ho : o.WellFormed) (hp : p.WellFormed) (hleaf : o.leaf = p.leaf)
    (hne : o.leaf ≠ .binding) {m n : Nat} (hm : o.leaf.index ≤ m) (hn : o.leaf.index ≤ n)
    (hm' : m < 64) (hn' : n < 64) (hmn : m ≠ n) :
    ∃ s t root, s.length = m ∧ t.length = n ∧ (o.attach s).opens root = true ∧
      (p.attach t).opens root = true := by
  rcases Nat.lt_or_gt_of_ne hmn with hlt | hgt
  · exact exists_attach_opens_of_lt ho hp hleaf hne hm hlt hn'
  · rw [hleaf] at hne hn
    obtain ⟨t, s, root, ht, hs, hpt, hos⟩ :=
      exists_attach_opens_of_lt hp ho hleaf.symm hne hn hgt hm'
    exact ⟨s, t, root, hs, ht, hos, hpt⟩

/-! ## One opening a leaf -/

/-- A root has one opening of a leaf if the leaf is the first one or the proofs have one length,
unless two of the messages that are hashed for the checks collide. Otherwise it need not: proofs of
any two lengths that reach the leaf's position open any two leaf bytes under one root. -/
theorem opens_unique_at_one_depth {o p : Opening} (hleaf : o.leaf = p.leaf) :
    (∀ root, o.opens root = true → p.opens root = true →
      o.leaf = .binding ∨ o.proof.length = p.proof.length →
      CollisionFree (o.messages ++ p.messages) → o = p) ∧
    (o.WellFormed → p.WellFormed → o.leaf ≠ .binding →
      ∀ m n, o.leaf.index ≤ m → o.leaf.index ≤ n → m < 64 → n < 64 → m ≠ n →
        ∃ s t root, s.length = m ∧ t.length = n ∧ (o.attach s).opens root = true ∧
          (p.attach t).opens root = true) := by
  constructor
  · intro root ho hp h hfree
    exact eq_of_opens hfree (List.subset_append_left _ _) (List.subset_append_right _ _) ho hp
      hleaf h
  · intro ho hp hne m n hm hn hm' hn' hmn
    exact exists_attach_opens ho hp hleaf hne hm hn hm' hn' hmn

/-- The amounts leaf of the reference pay period with another gross amount and no proof yet. -/
def amountsWithGross (gross : Nat) : Opening where
  leaf := .amounts
  kindTag := Object.Kind.payPeriodLeaf.tag
  leafBytes := Object.bytes .payPeriodLeaf
    (({ Reference.payPeriod with amounts := .ofUnits gross 85000 12000 3000 } :
      PayPeriod).leafLayout .amounts)
  leafHash := .zero
  proof := []
  root := .zero

/-- The amounts of the reference pay period, two steps below a root. -/
def shallowAmounts : Opening :=
  (amountsWithGross 100000).attach (Merkle.shallowProof 0 1
    (Merkle.parent .zero (Domain.leaf.hash (amountsWithGross 999999999).leafBytes)))

/-- Inflated amounts, three steps below the same root. -/
def deepAmounts : Opening :=
  (amountsWithGross 999999999).attach (Merkle.deepProof 0 0 1
    (Domain.leaf.hash (amountsWithGross 100000).leafBytes))

/-- The steps of `shallowAmounts`. -/
def shallowSteps : List Step :=
  [⟨Merkle.parent .zero (Domain.leaf.hash (amountsWithGross 999999999).leafBytes), .left⟩,
    ⟨.zero, .right⟩]

/-- What opens the root of `shallowAmounts` in two steps is `shallowAmounts`, while inflated amounts
share a root with the others at a depth of three. -/
theorem opens_unique_at_one_depth_reference :
    (amountsWithGross 100000).attach shallowSteps = shallowAmounts ∧
      ∃ s t root, s.length = 2 ∧ t.length = 3 ∧
        ((amountsWithGross 100000).attach s).opens root = true ∧
        ((amountsWithGross 999999999).attach t).opens root = true := by
  have hopens : ((amountsWithGross 100000).attach shallowSteps).opens shallowAmounts.root =
      true := by
    decide +kernel
  have hshallow : shallowAmounts.opens shallowAmounts.root = true := by decide +kernel
  have hfree : CollisionFree
      (((amountsWithGross 100000).attach shallowSteps).messages ++ shallowAmounts.messages) := by
    decide +kernel
  have hwell : (amountsWithGross 100000).WellFormed := by decide +kernel
  have hwell' : (amountsWithGross 999999999).WellFormed := by decide +kernel
  have hleaf : ((amountsWithGross 100000).attach shallowSteps).leaf = shallowAmounts.leaf := rfl
  have hleaf' : (amountsWithGross 100000).leaf = (amountsWithGross 999999999).leaf := rfl
  constructor
  · exact (opens_unique_at_one_depth hleaf).1 _ hopens hshallow (.inr rfl) hfree
  · exact (opens_unique_at_one_depth hleaf').2 hwell hwell' (by decide) 2 3 (by decide)
      (by decide) (by decide) (by decide) (by decide)

/-- One root opens the amounts of the reference pay period and inflated ones, although no two of the
hashed messages collide. -/
theorem shallowAmounts_and_deepAmounts_open :
    shallowAmounts.opens shallowAmounts.root = true ∧
      deepAmounts.opens shallowAmounts.root = true ∧ shallowAmounts.leaf = deepAmounts.leaf ∧
      CollisionFree (shallowAmounts.messages ++ deepAmounts.messages) ∧
      shallowAmounts.leafBytes ≠ deepAmounts.leafBytes := by
  refine ⟨?_, ?_, ?_, ?_, ?_⟩
  · decide +kernel
  · decide +kernel
  · decide
  · decide +kernel
  · decide +kernel

end Opening

end PayrollSeal
