import PayrollSeal.Proofs.Layout
import PayrollSeal.Proofs.Merkle.Levels
import PayrollSeal.Statement

/-!
# The leaves of a statement

If all leaves of a statement can be encoded, everything about the tree is a function of their bytes
(`Statement.HasLeaves`).
-/

namespace PayrollSeal

namespace Leaf

theorem mem_all (leaf : Leaf) : leaf ∈ all := by
  cases leaf <;> decide

theorem index_lt (leaf : Leaf) : leaf.index < 3 := by
  cases leaf <;> decide

end Leaf

namespace LeafHashes

/-- The hashes of leaves with given bytes. -/
def ofBytes (bytes : Leaf → Bytes) : LeafHashes :=
  ⟨Domain.leaf.hash (bytes .binding), Domain.leaf.hash (bytes .amounts),
    Domain.leaf.hash (bytes .provenance)⟩

theorem get_ofBytes (bytes : Leaf → Bytes) (leaf : Leaf) :
    (ofBytes bytes).get leaf = Domain.leaf.hash (bytes leaf) := by
  cases leaf <;> rfl

theorem toList_ne_nil (hashes : LeafHashes) : hashes.toList ≠ [] :=
  List.cons_ne_nil _ _

theorem toList_inj {a b : LeafHashes} : a.toList = b.toList ↔ a = b := by
  refine ⟨fun h => ?_, fun h => congrArg toList h⟩
  cases a
  cases b
  simpa [toList] using h

/-- Leaves stand in tree order. -/
theorem getElem_toList (hashes : LeafHashes) (leaf : Leaf)
    (h : leaf.index < hashes.toList.length) : hashes.toList[leaf.index] = hashes.get leaf := by
  cases leaf <;> rfl

theorem getElem?_toList (hashes : LeafHashes) (leaf : Leaf) :
    hashes.toList[leaf.index]? = some (hashes.get leaf) := by
  cases leaf <;> rfl

theorem exists_get_of_mem_toList {hashes : LeafHashes} {hash : Digest} (h : hash ∈ hashes.toList) :
    ∃ leaf, hash = hashes.get leaf := by
  rw [toList, List.mem_cons, List.mem_cons, List.mem_singleton] at h
  rcases h with rfl | rfl | rfl
  · exact ⟨.binding, rfl⟩
  · exact ⟨.amounts, rfl⟩
  · exact ⟨.provenance, rfl⟩

end LeafHashes

namespace Statement

/-- Every leaf is written with its tag in front. -/
theorem exists_leafLayout_eq_cons (statement : Statement) (leaf : Leaf) :
    ∃ rest, statement.leafLayout leaf = .u8 leaf.tag :: rest := by
  cases statement <;> exact ⟨_, rfl⟩

/-- Every leaf of a statement can be encoded, as the given bytes. -/
def HasLeaves (statement : Statement) (bytes : Leaf → Bytes) : Prop :=
  ∀ leaf, statement.leafBytes leaf = .ok (bytes leaf)

/-- The messages that are hashed for the leaves of a statement. -/
def leafMessages (statement : Statement) : List Bytes :=
  Leaf.all.filterMap fun leaf => (statement.leafBytes leaf).toOption.map Domain.leaf.message

/-- The messages that are hashed for the root of a statement. -/
def messages (statement : Statement) : List Bytes :=
  statement.leafMessages ++
    match statement.leafHashes with
    | .ok hashes => Merkle.treeMessages hashes.toList
    | .error _ => []

section
variable {statement : Statement} {bytes : Leaf → Bytes}

/-- Leaves whose chunks fit are the objects over their layouts. -/
theorem hasLeaves_of_fits
    (hfits : ∀ leaf ∈ Leaf.all, ∀ c ∈ Layout.chunks (statement.leafLayout leaf), c.Fits) :
    statement.HasLeaves fun leaf =>
      Object.bytes statement.leafKind (statement.leafLayout leaf) :=
  fun leaf => Object.ofLayout_eq_ok_iff.mpr ⟨hfits leaf leaf.mem_all, rfl⟩

/-- Bytes of all leaves yield their hashes. -/
theorem HasLeaves.leafHashes_eq (h : statement.HasLeaves bytes) :
    statement.leafHashes = .ok (.ofBytes bytes) := by
  unfold leafHashes leafHash
  rw [h .binding, h .amounts, h .provenance]
  rfl

/-- Bytes of all leaves yield the root. -/
theorem HasLeaves.root_eq (h : statement.HasLeaves bytes) :
    statement.root = .ok (Merkle.top _ (LeafHashes.ofBytes bytes).toList_ne_nil) := by
  unfold root
  rw [h.leafHashes_eq]
  rfl

/-- The third leaf is paired with itself. -/
theorem HasLeaves.root_eq_parent (h : statement.HasLeaves bytes) :
    statement.root = .ok (Merkle.parent
      (Merkle.parent (Domain.leaf.hash (bytes .binding)) (Domain.leaf.hash (bytes .amounts)))
      (Merkle.parent (Domain.leaf.hash (bytes .provenance))
        (Domain.leaf.hash (bytes .provenance)))) := by
  rw [h.root_eq]
  exact congrArg Except.ok (Merkle.top_three _ _ _ _)

theorem HasLeaves.messages_eq (h : statement.HasLeaves bytes) :
    statement.messages = (Leaf.all.map fun leaf => Domain.leaf.message (bytes leaf)) ++
      Merkle.treeMessages (LeafHashes.ofBytes bytes).toList := by
  rw [messages, leafMessages, h.leafHashes_eq]
  simp only [h _, Except.toOption, Option.map_some]
  rfl

theorem HasLeaves.message_mem (h : statement.HasLeaves bytes) (leaf : Leaf) :
    Domain.leaf.message (bytes leaf) ∈ statement.messages := by
  rw [h.messages_eq]
  exact List.mem_append_left _ (List.mem_map.mpr ⟨leaf, leaf.mem_all, rfl⟩)

theorem HasLeaves.treeMessages_subset (h : statement.HasLeaves bytes) :
    Merkle.treeMessages (LeafHashes.ofBytes bytes).toList ⊆ statement.messages := by
  rw [h.messages_eq]
  exact List.subset_append_right _ _

end

end Statement

end PayrollSeal
