import PayrollSeal.Domain

/-!
# Messages and their hashes

A message determines its domain and its payload (`Domain.message_inj`), because no label with its
separator starts another one, and the way in which a payload is cut into parts leaves no trace
(`Domain.messageOfParts_eq`). What is assumed of the hash is `CollisionFree`: it tells apart the
messages of one finite list, which is the list of those that were hashed. What is assumed of a
hasher that is fed piece by piece is `Blake3.Hasher.Streams`.
-/

namespace PayrollSeal

namespace Domain

/-! ## Labels -/

/-- A label and the separator behind it. -/
def mark (domain : Domain) : Bytes :=
  Bytes.ofText domain.label ++ [separator]

/-- No mark starts another one. -/
theorem eq_of_mark_prefix_mark {d e : Domain} (h : d.mark <+: e.mark) : d = e := by
  revert h
  cases d <;> cases e <;> decide

theorem message_eq (d : Domain) (p : Bytes) : d.message p = d.mark ++ p := by
  rw [message, mark, List.append_assoc, List.singleton_append]

/-- A message determines its domain and its payload. -/
theorem message_inj {d e : Domain} {p q : Bytes} :
    d.message p = e.message q ↔ d = e ∧ p = q := by
  constructor
  · intro h
    rw [message_eq, message_eq] at h
    -- both marks start the one message, so the shorter of them starts the longer
    have hd : d.mark <+: e.mark ++ q := ⟨p, h⟩
    have he : e.mark <+: e.mark ++ q := List.prefix_append _ _
    have hde : d = e := by
      rcases List.prefix_or_prefix_of_prefix hd he with hm | hm
      · exact eq_of_mark_prefix_mark hm
      · exact (eq_of_mark_prefix_mark hm).symm
    subst hde
    exact ⟨rfl, List.append_cancel_left h⟩
  · rintro ⟨rfl, rfl⟩
    rfl

/-! ## Payloads in parts -/

/-- The way a payload is cut into parts leaves no trace in its message. -/
theorem messageOfParts_eq (d : Domain) (parts : List Bytes) :
    d.messageOfParts parts = d.message parts.flatten := by
  rw [messageOfParts, message, List.flatten_cons, List.flatten_cons, List.singleton_append]

theorem hashParts_eq (d : Domain) (parts : List Bytes) :
    d.hashParts parts = d.hash parts.flatten := by
  rw [hashParts, hash, messageOfParts_eq]

theorem messageOfParts_inj {d e : Domain} {p q : List Bytes} :
    d.messageOfParts p = e.messageOfParts q ↔ d = e ∧ p.flatten = q.flatten := by
  rw [messageOfParts_eq, messageOfParts_eq, message_inj]

end Domain

/-! ## Hashers -/

/-- A hasher that is fed byte strings one after another. -/
structure Blake3.Hasher (State : Type) where
  start : State
  feed : State → Bytes → State
  finish : State → Digest

namespace Blake3.Hasher

variable {State : Type}

/-- The hash of pieces that are fed one after another. -/
def run (hasher : Hasher State) (pieces : List Bytes) : Digest :=
  hasher.finish (pieces.foldl hasher.feed hasher.start)

/-- Feeding pieces is hashing their concatenation. -/
def Streams (hasher : Hasher State) : Prop :=
  ∀ pieces, hasher.run pieces = hash pieces.flatten

/-- The hasher that keeps what it was fed until the end. -/
def keeping : Hasher Bytes where
  start := []
  feed kept piece := kept ++ piece
  finish := hash

theorem streams_keeping : keeping.Streams := by
  have hfeed : ∀ (pieces : List Bytes) (kept : Bytes),
      pieces.foldl keeping.feed kept = kept ++ pieces.flatten := by
    intro pieces
    induction pieces with
    | nil =>
      intro kept
      exact (List.append_nil kept).symm
    | cons piece pieces ih =>
      intro kept
      rw [List.foldl_cons, ih, List.flatten_cons, ← List.append_assoc]
      rfl
  intro pieces
  show hash (pieces.foldl keeping.feed []) = hash pieces.flatten
  rw [hfeed, List.nil_append]

end Blake3.Hasher

/-- What a hasher is fed for a payload in parts: the label, the separator and the parts in turn. -/
def Domain.pieces (domain : Domain) (parts : List Bytes) : List Bytes :=
  Bytes.ofText domain.label :: [separator] :: parts

/-- A hasher that is fed label, separator and parts returns the hash of the parts. -/
theorem Blake3.Hasher.Streams.run_pieces {State : Type} {hasher : Blake3.Hasher State}
    (h : hasher.Streams) (domain : Domain) (parts : List Bytes) :
    hasher.run (domain.pieces parts) = domain.hashParts parts :=
  h (domain.pieces parts)

/-! ## Collisions -/

/-- No two different messages among `messages` have the same hash. -/
def CollisionFree (messages : List Bytes) : Prop :=
  ∀ m ∈ messages, ∀ n ∈ messages, Blake3.hash m = Blake3.hash n → m = n

instance (messages : List Bytes) : Decidable (CollisionFree messages) :=
  inferInstanceAs (Decidable (∀ m ∈ messages, ∀ n ∈ messages, _))

namespace CollisionFree

variable {messages : List Bytes}

/-- Equal hashes of payloads whose messages were hashed have one domain and one payload. -/
theorem hash_inj {d e : Domain} {p q : Bytes} (h : CollisionFree messages)
    (hp : d.message p ∈ messages) (hq : e.message q ∈ messages) (heq : d.hash p = e.hash q) :
    d = e ∧ p = q :=
  Domain.message_inj.mp (h _ hp _ hq heq)

end CollisionFree

namespace Domain

/-- A message determines its domain and the concatenation of its parts, and is determined by them.
So a hash does not depend on how its payload was cut, and domains and payloads that differ have
hashes that differ, unless the two messages collide. -/
theorem messageOfParts_and_hashParts_eq_iff (d e : Domain) (p q : List Bytes) :
    (d.messageOfParts p = e.messageOfParts q ↔ d = e ∧ p.flatten = q.flatten) ∧
      d.hashParts p = d.hash p.flatten ∧
      (∀ (State : Type) (hasher : Blake3.Hasher State), hasher.Streams →
        hasher.run (d.pieces p) = d.hash p.flatten) ∧
      (CollisionFree [d.messageOfParts p, e.messageOfParts q] →
        (d.hashParts p = e.hashParts q ↔ d = e ∧ p.flatten = q.flatten)) := by
  refine ⟨messageOfParts_inj, hashParts_eq d p, ?_, ?_⟩
  · intro State hasher hstreams
    rw [hstreams.run_pieces, hashParts_eq]
  · intro hfree
    constructor
    · intro h
      apply messageOfParts_inj.mp
      exact hfree _ List.mem_cons_self _ (List.mem_cons_of_mem _ List.mem_cons_self) h
    · rintro ⟨rfl, hflatten⟩
      rw [hashParts_eq, hashParts_eq, hflatten]

/-- A hasher that is fed a node's payload in four parts, two of them empty, returns the hash of the
whole payload, and not that of the same bytes as a leaf. -/
theorem hashParts_merkleNode_ne_leaf :
    Blake3.Hasher.keeping.run (merkleNode.pieces [[], [0x01], [], [0x02, 0x00]]) =
        merkleNode.hash [0x01, 0x02, 0x00] ∧
      merkleNode.hashParts [[], [0x01], [], [0x02, 0x00]] ≠ leaf.hashParts [[0x01, 0x02], [0x00]] := by
  obtain ⟨-, -, hrun, hiff⟩ := messageOfParts_and_hashParts_eq_iff merkleNode leaf
    [[], [0x01], [], [0x02, 0x00]] [[0x01, 0x02], [0x00]]
  have hfree : CollisionFree [merkleNode.messageOfParts [[], [0x01], [], [0x02, 0x00]],
      leaf.messageOfParts [[0x01, 0x02], [0x00]]] := by
    decide +kernel
  refine ⟨hrun Bytes Blake3.Hasher.keeping Blake3.Hasher.streams_keeping, ?_⟩
  intro h
  obtain ⟨hdomain, -⟩ := (hiff hfree).mp h
  exact Domain.noConfusion hdomain

end Domain

end PayrollSeal
