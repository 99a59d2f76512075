import PayrollSeal.Merkle.Proof
import PayrollSeal.Proofs.Domain

/-!
# Messages of trees and proofs

Every node above the leaves is the hash of one message, the message of its two children. This file
lists the messages that are hashed for a root and for a proof, lowest level first, and reads the
children back from the nodes where no two of the messages collide.
-/

namespace PayrollSeal.Merkle

/-! ## Parents -/

/-- The message of the parent of two nodes. -/
def parentMessage (left right : Digest) : Bytes :=
  Domain.merkleNode.message (left.bytes ++ right.bytes)

theorem parent_eq (left right : Digest) :
    parent left right = Domain.merkleNode.hash (left.bytes ++ right.bytes) := by
  rw [parent, Domain.hashParts_eq, List.flatten_cons, List.flatten_cons, List.flatten_nil,
    List.append_nil]

theorem parent_eq_hash (left right : Digest) :
    parent left right = Blake3.hash (parentMessage left right) :=
  parent_eq left right

theorem parentMessage_inj {a b c d : Digest} :
    parentMessage a b = parentMessage c d ↔ a = c ∧ b = d := by
  constructor
  · intro h
    obtain ⟨-, hp⟩ := Domain.message_inj.mp h
    have hlen : a.bytes.length = c.bytes.length := by rw [a.length_bytes, c.length_bytes]
    obtain ⟨hac, hbd⟩ := List.append_inj hp hlen
    exact ⟨Digest.ext hac, Digest.ext hbd⟩
  · rintro ⟨rfl, rfl⟩
    rfl

/-! ## Proofs -/

/-- The message of the node above a running node and its partner. -/
def climbMessage (node : Digest) (step : Step) : Bytes :=
  match step.side with
  | .left => parentMessage step.sibling node
  | .right => parentMessage node step.sibling

/-- The messages that are hashed on the way of a proof. -/
def foldMessages (node : Digest) : List Step → List Bytes
  | [] => []
  | step :: rest => climbMessage node step :: foldMessages (climb node step) rest

theorem climb_eq_hash (node : Digest) (step : Step) :
    climb node step = Blake3.hash (climbMessage node step) := by
  unfold climb climbMessage
  cases step.side with
  | left => exact parent_eq_hash _ _
  | right => exact parent_eq_hash _ _

/-- A climb hashes the message of a node, whichever side the partner stands on. -/
theorem exists_climbMessage_eq (node : Digest) (step : Step) :
    ∃ left right, climbMessage node step = parentMessage left right := by
  unfold climbMessage
  cases step.side with
  | left => exact ⟨_, _, rfl⟩
  | right => exact ⟨_, _, rfl⟩

theorem fold_append (node : Digest) (p q : List Step) :
    fold node (p ++ q) = fold (fold node p) q :=
  List.foldl_append

theorem foldMessages_append (node : Digest) (p q : List Step) :
    foldMessages node (p ++ q) = foldMessages node p ++ foldMessages (fold node p) q := by
  induction p generalizing node with
  | nil => rfl
  | cons step rest ih =>
    rw [List.cons_append, foldMessages, foldMessages, List.cons_append, ih]
    rfl

/-- The end of a proof that has steps is the hash of the last of its messages. -/
theorem exists_fold_eq_hash (node : Digest) {proof : List Step} (h : proof ≠ []) :
    ∃ left right, parentMessage left right ∈ foldMessages node proof ∧
      fold node proof = Blake3.hash (parentMessage left right) := by
  obtain ⟨init, last, rfl⟩ : ∃ init last, proof = init ++ [last] :=
    ⟨_, _, (List.dropLast_concat_getLast h).symm⟩
  obtain ⟨left, right, hm⟩ := exists_climbMessage_eq (fold node init) last
  refine ⟨left, right, ?_, ?_⟩
  · rw [foldMessages_append, ← hm]
    exact List.mem_append_right _ List.mem_cons_self
  · rw [fold_append, ← hm, ← climb_eq_hash]
    rfl

/-! ## Trees -/

/-- The messages that are hashed from a level to the one above. -/
def pairMessages : List Digest → List Bytes
  | [] => []
  | [last] => [parentMessage last last]
  | left :: right :: rest => parentMessage left right :: pairMessages rest

/-- The messages that are hashed for the root over a level. -/
def treeMessages (level : List Digest) : List Bytes :=
  if (pairUp level).length ≤ 1 then pairMessages level
  else pairMessages level ++ treeMessages (pairUp level)
termination_by level.length
decreasing_by
  rw [length_pairUp] at *
  omega

theorem pairUp_eq_map (level : List Digest) :
    pairUp level = (pairMessages level).map Blake3.hash := by
  fun_induction pairUp level with
  | case1 => rfl
  | case2 last => rw [parent_eq_hash, pairMessages, List.map_singleton]
  | case3 left right rest ih => rw [parent_eq_hash, ih, pairMessages, List.map_cons]

/-- Every node above a level is the hash of the message of two nodes. -/
theorem exists_hash_of_mem_pairUp {level : List Digest} {node : Digest} (h : node ∈ pairUp level) :
    ∃ left right, parentMessage left right ∈ pairMessages level ∧
      node = Blake3.hash (parentMessage left right) := by
  fun_induction pairUp level with
  | case1 => cases h
  | case2 last =>
    rw [List.mem_singleton, parent_eq_hash] at h
    exact ⟨last, last, List.mem_cons_self, h⟩
  | case3 left right rest ih =>
    rcases List.mem_cons.mp h with rfl | h
    · exact ⟨left, right, List.mem_cons_self, parent_eq_hash left right⟩
    · obtain ⟨l, r, hm, rfl⟩ := ih h
      exact ⟨l, r, List.mem_cons_of_mem _ hm, rfl⟩

theorem pairMessages_subset (level : List Digest) : pairMessages level ⊆ treeMessages level := by
  rw [treeMessages]
  split
  · exact List.Subset.refl _
  · exact List.subset_append_left _ _

theorem treeMessages_pairUp_subset {level : List Digest} (h : 1 < (pairUp level).length) :
    treeMessages (pairUp level) ⊆ treeMessages level := by
  rw [treeMessages.eq_def level, if_neg (by omega)]
  exact List.subset_append_right _ _

/-! ## Reading children back -/

section
variable {messages : List Bytes}

/-- Equal parents have equal children. -/
theorem parent_inj (hfree : CollisionFree messages) {a b c d : Digest}
    (hab : parentMessage a b ∈ messages) (hcd : parentMessage c d ∈ messages)
    (h : parent a b = parent c d) : a = c ∧ b = d := by
  rw [parent_eq_hash, parent_eq_hash] at h
  exact parentMessage_inj.mp (hfree _ hab _ hcd h)

/-- The hash of a leaf is no node above the leaves. -/
theorem leaf_hash_ne (hfree : CollisionFree messages) {payload : Bytes} {left right : Digest}
    (hp : Domain.leaf.message payload ∈ messages) (hn : parentMessage left right ∈ messages) :
    Domain.leaf.hash payload ≠ Blake3.hash (parentMessage left right) := by
  intro h
  obtain ⟨hd, -⟩ := hfree.hash_inj hp hn h
  exact Domain.noConfusion hd

/-- Equal climbs from one side have equal nodes and equal partners. -/
theorem climb_inj (hfree : CollisionFree messages) {x y : Digest} {s t : Step}
    (hx : climbMessage x s ∈ messages) (hy : climbMessage y t ∈ messages)
    (hside : s.side = t.side) (h : climb x s = climb y t) : x = y ∧ s = t := by
  obtain ⟨a, side⟩ := s
  obtain ⟨b, side'⟩ := t
  obtain rfl : side = side' := hside
  cases side with
  | left =>
    obtain ⟨rfl, rfl⟩ := parent_inj hfree hx hy h
    exact ⟨rfl, rfl⟩
  | right =>
    obtain ⟨rfl, rfl⟩ := parent_inj hfree hx hy h
    exact ⟨rfl, rfl⟩

/-- Proofs with the same sides that lead to one root start at one node and have the same
partners. -/
theorem fold_inj (hfree : CollisionFree messages) {x y : Digest} {p q : List Step}
    (hp : foldMessages x p ⊆ messages) (hq : foldMessages y q ⊆ messages)
    (hsides : p.map Step.side = q.map Step.side) (h : fold x p = fold y q) : x = y ∧ p = q := by
  induction p generalizing x y q with
  | nil =>
    obtain rfl : q = [] := List.map_eq_nil_iff.mp hsides.symm
    exact ⟨h, rfl⟩
  | cons s p ih =>
    obtain ⟨t, q, rfl⟩ : ∃ t q', q = t :: q' := by
      cases q with
      | nil => cases hsides
      | cons t q => exact ⟨t, q, rfl⟩
    rw [List.map_cons, List.map_cons, List.cons.injEq] at hsides
    rw [foldMessages, List.cons_subset] at hp hq
    -- the rest of the proofs meets at the root, so the nodes above `x` and `y` are equal
    obtain ⟨hc, rfl⟩ := ih hp.2 hq.2 hsides.2 h
    obtain ⟨rfl, rfl⟩ := climb_inj hfree hp.1 hq.1 hsides.1 hc
    exact ⟨rfl, rfl⟩

end

end PayrollSeal.Merkle
