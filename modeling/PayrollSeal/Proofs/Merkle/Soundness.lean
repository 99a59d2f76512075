import PayrollSeal.Proofs.Merkle.Completeness

/-!
# What a root binds

Where no two of the hashed messages collide, a root determines the nodes of a level of known
length (`top_inj`), and a proof of full height that leads to it starts at one of them, at the
position that its sides spell and with the partners of that position (`eq_of_fold_eq_top`). Over
hashes of leaves every proof from a leaf has full height (`eq_path_of_fold_eq_top`).
-/

namespace PayrollSeal.Merkle

variable {messages : List Bytes}

/-! ## Equal roots -/

/-- Levels of one length whose parents are equal are equal. -/
theorem pairUp_inj (hfree : CollisionFree messages) {a b : List Digest}
    (ha : pairMessages a ⊆ messages) (hb : pairMessages b ⊆ messages)
    (hlen : a.length = b.length) (h : pairUp a = pairUp b) : a = b := by
  fun_induction pairUp a generalizing b with
  | case1 => exact (List.length_eq_zero_iff.mp hlen.symm).symm
  | case2 last =>
    obtain ⟨last', rfl⟩ := List.length_eq_one_iff.mp hlen.symm
    rw [pairUp, List.cons.injEq] at h
    rw [pairMessages, List.cons_subset] at ha hb
    obtain ⟨rfl, -⟩ := parent_inj hfree ha.1 hb.1 h.1
    rfl
  | case3 left right rest ih =>
    obtain ⟨left', b', rfl⟩ := List.exists_cons_of_length_eq_add_one hlen.symm
    obtain ⟨right', rest', rfl⟩ := List.exists_cons_of_length_eq_add_one (Nat.succ.inj hlen).symm
    rw [pairUp, List.cons.injEq] at h
    rw [pairMessages, List.cons_subset] at ha hb
    obtain ⟨rfl, rfl⟩ := parent_inj hfree ha.1 hb.1 h.1
    have hrest : rest.length = rest'.length := Nat.succ.inj (Nat.succ.inj hlen)
    rw [ih ha.2 hb.2 hrest h.2]

/-- Levels of one length under one root are equal. -/
theorem top_inj (hfree : CollisionFree messages) {a b : List Digest} (ha : a ≠ []) (hb : b ≠ [])
    (hma : treeMessages a ⊆ messages) (hmb : treeMessages b ⊆ messages)
    (hlen : a.length = b.length) (h : top a ha = top b hb) : a = b := by
  have hlenUp : ∀ {c d : List Digest}, c.length = d.length →
      (pairUp c).length = (pairUp d).length := by
    intro c d hcd
    rw [length_pairUp, length_pairUp, hcd]
  have hpa := List.Subset.trans (pairMessages_subset a) hma
  have hpb := List.Subset.trans (pairMessages_subset b) hmb
  induction a, ha using level_induction generalizing b with
  | last a ha hn =>
    have hn' : (pairUp b).length = 1 := by rw [← hlenUp hlen, hn]
    rw [top_eq_getElem ha hn, top_eq_getElem hb hn'] at h
    apply pairUp_inj hfree hpa hpb hlen
    rw [List.eq_getElem_of_length_eq_one _ hn, List.eq_getElem_of_length_eq_one _ hn', h]
  | step a ha hn ih =>
    have hn' : 1 < (pairUp b).length := by rw [← hlenUp hlen]; exact hn
    rw [top_eq_top_pairUp ha hn, top_eq_top_pairUp hb hn'] at h
    have hma' := List.Subset.trans (treeMessages_pairUp_subset hn) hma
    have hmb' := List.Subset.trans (treeMessages_pairUp_subset hn') hmb
    apply pairUp_inj hfree hpa hpb hlen
    exact ih (pairUp_ne_nil hb) hma' hmb' (hlenUp hlen) h
      (List.Subset.trans (pairMessages_subset _) hma')
      (List.Subset.trans (pairMessages_subset _) hmb')

/-! ## Proofs of full height -/

/-- A node that climbs to a parent is one of its children, and its partner is the other one. -/
theorem eq_of_climb_eq (hfree : CollisionFree messages) {level : List Digest} {x : Digest}
    {s : Step} (hl : pairMessages level ⊆ messages) (hx : climbMessage x s ∈ messages) {i : Nat}
    (hi : i < (pairUp level).length) (h : climb x s = (pairUp level)[i]) :
    x ∈ level ∧ ∀ hj : (if s.side = .left then 1 else 0) + 2 * i < level.length,
      x = level[(if s.side = .left then 1 else 0) + 2 * i] ∧ s = partner level _ hj := by
  have hi' : 2 * i < level.length := by
    rw [length_pairUp] at hi
    omega
  have hm : i < (pairMessages level).length := by rwa [length_pairMessages, ← length_pairUp]
  have hmsg : climbMessage x s = (pairMessages level)[i] := by
    apply hfree _ hx _ (hl (List.getElem_mem hm))
    rw [← climb_eq_hash, h]
    simp only [pairUp_eq_map, List.getElem_map]
  rw [getElem_pairMessages level i hi' hm] at hmsg
  obtain ⟨sibling, side⟩ := s
  cases side with
  | left =>
    obtain ⟨hs, rfl⟩ := parentMessage_inj.mp hmsg
    rw [if_pos rfl]
    constructor
    · by_cases hr : 2 * i + 1 < level.length
      · rw [List.getElem?_eq_getElem hr]
        exact List.getElem_mem hr
      · rw [List.getElem?_eq_none (by omega)]
        exact List.getElem_mem hi'
    · intro hj
      have hodd : ¬ (1 + 2 * i) % 2 = 0 := by omega
      rw [partner, if_neg hodd, List.getElem?_eq_getElem (by omega)]
      simp only [Nat.add_comm 1 (2 * i), Option.getD_some, Nat.add_sub_cancel]
      exact ⟨trivial, by rw [← hs]⟩
  | right =>
    obtain ⟨rfl, hs⟩ := parentMessage_inj.mp hmsg
    rw [if_neg (show ¬ Side.right = Side.left by decide)]
    refine ⟨List.getElem_mem hi', fun hj => ?_⟩
    have heven : (0 + 2 * i) % 2 = 0 := by omega
    rw [partner, if_pos heven]
    simp only [Nat.zero_add]
    exact ⟨trivial, by rw [← hs]⟩

/-- A proof of full height that leads to the root over a level starts at a node of the level. If
its sides spell a position of the level, it starts at that node and is its proof. -/
theorem eq_of_fold_eq_top (hfree : CollisionFree messages) {level : List Digest} (h : level ≠ [])
    {x : Digest} {proof : List Step} (hl : treeMessages level ⊆ messages)
    (hp : foldMessages x proof ⊆ messages) (hlen : proof.length = height level.length)
    (heq : fold x proof = top level h) :
    x ∈ level ∧ ∀ hj : position proof < level.length,
      x = level[position proof] ∧ proof = path level (position proof) hj := by
  have hpm := List.Subset.trans (pairMessages_subset level) hl
  induction level, h using level_induction generalizing x proof with
  | last level h hn =>
    rw [height_eq_one hn] at hlen
    obtain ⟨s, rfl⟩ := List.length_eq_one_iff.mp hlen
    rw [foldMessages, List.cons_subset] at hp
    have hc : climb x s = (pairUp level)[0] := heq.trans (top_eq_getElem h hn)
    obtain ⟨hmem, hat⟩ := eq_of_climb_eq hfree hpm hp.1 _ hc
    refine ⟨hmem, fun hj => ?_⟩
    obtain ⟨hx, hs⟩ := hat hj
    rw [path_eq_singleton hj hn]
    exact ⟨hx, congrArg (fun t => [t]) hs⟩
  | step level h hn ih =>
    rw [height_eq_height_pairUp hn] at hlen
    obtain ⟨s, rest, rfl⟩ := List.exists_cons_of_length_eq_add_one hlen
    rw [List.length_cons, Nat.add_right_cancel_iff] at hlen
    rw [foldMessages, List.cons_subset] at hp
    have hl' := List.Subset.trans (treeMessages_pairUp_subset hn) hl
    -- by induction the node above `x` is a node of the next level, at the halved position
    obtain ⟨hmem, hat⟩ := ih hl' hp.2 hlen (heq.trans (top_eq_top_pairUp h hn))
      (List.Subset.trans (pairMessages_subset _) hl')
    obtain ⟨i, hi, hc⟩ := List.getElem_of_mem hmem
    refine ⟨(eq_of_climb_eq hfree hpm hp.1 hi hc.symm).1, fun hj => ?_⟩
    have hup : position rest < (pairUp level).length := by
      rw [length_pairUp]
      rw [position] at hj
      omega
    obtain ⟨hc', hrest⟩ := hat hup
    obtain ⟨hx, hs⟩ := (eq_of_climb_eq hfree hpm hp.1 hup hc').2 hj
    have hhalf : position (s :: rest) / 2 = position rest := by
      rw [position]
      split <;> omega
    rw [path_eq_cons hj hn]
    refine ⟨hx, ?_⟩
    rw [List.cons.injEq]
    refine ⟨hs, ?_⟩
    simp only [hhalf]
    exact hrest

/-- Over leaves there is a root, and a proof of full height that leads to it starts at a leaf,
unless two of the messages that are hashed for both collide. A proof that spells the index of a leaf starts
at this leaf and is its proof. The positions behind the last leaf, which an odd last node has for
being paired with itself, prove leaves alone. -/
theorem mem_of_verify_of_full_height {leaves : List Digest} (hne : leaves ≠ []) :
    ∃ r first, root leaves = .ok r ∧ proof leaves 0 = .ok first ∧
      ∀ x steps, steps.length = first.length → verify r x steps = true →
        CollisionFree (treeMessages leaves ++ foldMessages x steps) →
          x ∈ leaves ∧ (position steps < leaves.length →
            leaves[position steps]? = some x ∧ proof leaves (position steps) = .ok steps) := by
  have hpos : 0 < leaves.length := List.length_pos_iff.mpr hne
  refine ⟨_, _, root_eq_ok hne, proof_eq_ok hpos, fun x steps hlen hverify hfree => ?_⟩
  rw [length_path] at hlen
  have hfold : fold x steps = top leaves hne := beq_iff_eq.mp hverify
  obtain ⟨hmem, hat⟩ := eq_of_fold_eq_top hfree hne (List.subset_append_left _ _)
    (List.subset_append_right _ _) hlen hfold
  refine ⟨hmem, fun hj => ?_⟩
  obtain ⟨hx, hpath⟩ := hat hj
  rw [List.getElem?_eq_getElem hj, proof_eq_ok hj]
  exact ⟨congrArg some hx.symm, congrArg Except.ok hpath.symm⟩

/-- Three leaves. -/
def threeLeaves : List Digest := [.filled 0xa1, .filled 0xb2, .filled 0xc3]

/-- The proof of the last of three leaves as the right child of its parent, at the fourth
position. -/
def fourthOfThree : List Step :=
  [⟨.filled 0xc3, .left⟩, ⟨parent (.filled 0xa1) (.filled 0xb2), .left⟩]

/-- The fourth position over three leaves is accepted and proves the third leaf. -/
theorem mem_of_verify_fourthOfThree :
    ∃ r, root threeLeaves = .ok r ∧ verify r (.filled 0xc3) fourthOfThree = true ∧
      position fourthOfThree = 3 ∧ .filled 0xc3 ∈ threeLeaves := by
  have hne : threeLeaves ≠ [] := List.cons_ne_nil _ _
  obtain ⟨r, first, hr, hfirst, hsound⟩ := mem_of_verify_of_full_height hne
  have hlen : fourthOfThree.length = first.length := by
    rw [proof_eq_ok (by decide)] at hfirst
    rw [← Except.ok.inj hfirst, length_path]
    decide +kernel
  have hverify : verify r (.filled 0xc3) fourthOfThree = true := by
    have htop : top threeLeaves hne = _ := top_three _ _ _ hne
    rw [root_eq_ok hne, htop, Except.ok.injEq] at hr
    rw [← hr]
    decide +kernel
  have hfree : CollisionFree
      (treeMessages threeLeaves ++ foldMessages (.filled 0xc3) fourthOfThree) := by
    rw [threeLeaves, treeMessages_three]
    decide +kernel
  exact ⟨r, hr, hverify, by decide, (hsound _ _ hlen hverify hfree).1⟩

/-! ## Proofs of any length -/

/-- A proof from the hash of a leaf to the root over a level is at least as long as the tree is
high, since a node above the level is no hash of a leaf. -/
theorem height_le_length_of_fold_eq_top (hfree : CollisionFree messages) {level : List Digest}
    (h : level ≠ []) {payload : Bytes} {proof : List Step} (hl : treeMessages level ⊆ messages)
    (hm : Domain.leaf.message payload ∈ messages)
    (hp : foldMessages (Domain.leaf.hash payload) proof ⊆ messages)
    (heq : fold (Domain.leaf.hash payload) proof = top level h) :
    height level.length ≤ proof.length := by
  have hnot : ∀ level : List Digest, treeMessages level ⊆ messages →
      Domain.leaf.hash payload ∉ pairUp level := by
    intro level hl hmem
    obtain ⟨left, right, hpair, hhash⟩ := exists_hash_of_mem_pairUp hmem
    exact leaf_hash_ne hfree hm (hl (pairMessages_subset level hpair)) hhash
  induction level, h using level_induction with
  | last level h hn =>
    rw [height_eq_one hn]
    apply List.length_pos_iff.mpr
    rintro rfl
    have hroot : Domain.leaf.hash payload = (pairUp level)[0] := heq.trans (top_eq_getElem h hn)
    apply hnot level hl
    rw [hroot]
    exact List.getElem_mem _
  | step level h hn ih =>
    have hl' := List.Subset.trans (treeMessages_pairUp_subset hn) hl
    rw [top_eq_top_pairUp h hn] at heq
    have hle := ih hl' heq
    rw [height_eq_height_pairUp hn]
    by_contra hlt
    -- a proof one step short of the height would start above the level
    have hlen : proof.length = height (pairUp level).length := by omega
    exact hnot level hl (eq_of_fold_eq_top hfree _ hl' hp hlen heq).1

/-- A proof to the root over hashes of leaves is at most as long as the tree is high, since none
of them is a node above a leaf. -/
theorem length_le_height_of_fold_eq_top (hfree : CollisionFree messages) {level : List Digest}
    (h : level ≠ []) {x : Digest} {proof : List Step} (hl : treeMessages level ⊆ messages)
    (hleaves : ∀ leaf ∈ level, ∃ payload, Domain.leaf.message payload ∈ messages ∧
      leaf = Domain.leaf.hash payload)
    (hp : foldMessages x proof ⊆ messages) (heq : fold x proof = top level h) :
    proof.length ≤ height level.length := by
  by_contra hlt
  have hsplit := List.take_append_drop (proof.length - height level.length) proof
  rw [← hsplit, foldMessages_append, List.append_subset] at hp
  rw [← hsplit, fold_append] at heq
  have hlen : (proof.drop (proof.length - height level.length)).length = height level.length := by
    rw [List.length_drop]
    omega
  have hlower : proof.take (proof.length - height level.length) ≠ [] := by
    rw [← List.length_pos_iff, List.length_take]
    omega
  -- the upper part of the proof starts at a leaf, which is a node above a leaf by the lower part
  obtain ⟨payload, hm, hleaf⟩ := hleaves _ (eq_of_fold_eq_top hfree h hl hp.2 hlen heq).1
  obtain ⟨left, right, hmem, hfold⟩ := exists_fold_eq_hash x hlower
  exact leaf_hash_ne hfree hm (hp.1 hmem) (hleaf.symm.trans hfold)

/-- Under the root over hashes of leaves, the leaf at the position that a proof spells has no other
proof and no other payload. -/
theorem eq_path_of_fold_eq_top (hfree : CollisionFree messages) {level : List Digest}
    (h : level ≠ []) {payload : Bytes} {proof : List Step} (hl : treeMessages level ⊆ messages)
    (hleaves : ∀ leaf ∈ level, ∃ payload, Domain.leaf.message payload ∈ messages ∧
      leaf = Domain.leaf.hash payload)
    (hm : Domain.leaf.message payload ∈ messages)
    (hp : foldMessages (Domain.leaf.hash payload) proof ⊆ messages)
    (heq : fold (Domain.leaf.hash payload) proof = top level h)
    (hj : position proof < level.length) :
    Domain.leaf.hash payload = level[position proof] ∧
      proof = path level (position proof) hj := by
  have hle := length_le_height_of_fold_eq_top hfree h hl hleaves hp heq
  have hge := height_le_length_of_fold_eq_top hfree h hl hm hp heq
  exact (eq_of_fold_eq_top hfree h hl hp (Nat.le_antisymm hle hge) heq).2 hj

/-- Two proofs from hashes of leaves that lead to one root are the same proof if the sides of one
are the last sides of the other. -/
theorem fold_leaf_inj (hfree : CollisionFree messages) {p q : Bytes} {s t : List Step}
    (hp : Domain.leaf.message p ∈ messages) (hs : foldMessages (Domain.leaf.hash p) s ⊆ messages)
    (ht : foldMessages (Domain.leaf.hash q) t ⊆ messages)
    (hsides : s.map Step.side <:+ t.map Step.side)
    (h : fold (Domain.leaf.hash p) s = fold (Domain.leaf.hash q) t) :
    Domain.leaf.hash p = Domain.leaf.hash q ∧ s = t := by
  have hsplit := List.take_append_drop (t.length - s.length) t
  have hupper : s.map Step.side = (t.drop (t.length - s.length)).map Step.side := by
    rw [List.map_drop]
    simpa only [List.length_map] using List.suffix_iff_eq_drop.mp hsides
  rw [← hsplit, fold_append] at h
  rw [← hsplit, foldMessages_append, List.append_subset] at ht
  obtain ⟨hleaf, hst⟩ := fold_inj hfree hs ht.2 hupper h
  by_cases hlower : t.take (t.length - s.length) = []
  · rw [hlower, List.nil_append] at hsplit
    rw [hlower] at hleaf
    exact ⟨hleaf, hst.trans hsplit⟩
  · -- otherwise the leaf of the shorter proof is a node above the other leaf
    obtain ⟨left, right, hmem, hnode⟩ := exists_fold_eq_hash (Domain.leaf.hash q) hlower
    exact (leaf_hash_ne hfree hp (ht.1 hmem) (hleaf.trans hnode)).elim

end PayrollSeal.Merkle
