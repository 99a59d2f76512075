import PayrollSeal.Blake3.Compress
import PayrollSeal.Digest

/-!
# The BLAKE3 tree

The input is cut into chunks of 1024 bytes and each chunk into blocks of 64. Chunks are the
leaves of a tree whose left subtrees are complete: after `n` chunks one complete subtree is
pending for each binary digit one of `n`, and the last chunk closes them from the right. The node
left at the end is compressed once more with the root flag, and its words are the digest.
-/

namespace PayrollSeal.Blake3

def chunkStart : UInt32 := 1
def chunkEnd : UInt32 := 2
def parentFlag : UInt32 := 4
def rootFlag : UInt32 := 8

/-- A node before its last compression, which depends on whether it is the root. -/
structure Node where
  chain : Chain
  message : Message
  counter : Nat
  length : Nat
  flags : UInt32

namespace Node

/-- What an inner node hands to its parent. -/
def close (node : Node) : Chain :=
  compress node.chain node.message node.counter node.length node.flags

/-- The node above two subtrees. -/
def parent (left right : Chain) : Node :=
  ⟨initial, .ofChains left right, 0, 64, parentFlag⟩

/-- The hash of the root. -/
def digest (node : Node) : Digest :=
  let chain := compress node.chain node.message node.counter node.length (node.flags ||| rootFlag)
  ⟨chain.low.bytes ++ chain.high.bytes, rfl⟩

/-- Works through the blocks of a chunk; the first carries `flags`. -/
def ofBlocks (counter : Nat) (chain : Chain) (flags : UInt32) (block : Bytes) : List Bytes → Node
  | [] => ⟨chain, .ofBytes block, counter, block.length, flags ||| chunkEnd⟩
  | next :: rest =>
    ofBlocks counter (compress chain (.ofBytes block) counter block.length flags) 0 next rest

end Node

/-- Cuts bytes into pieces of `size`, all full but the last; `piece` holds the current one, last
byte first, and `room` what it can still take. -/
def piecesFrom (size : Nat) (piece : Bytes) (room : Nat) : Bytes → List Bytes
  | [] => [piece.reverse]
  | b :: rest =>
    match room with
    | 0 => piece.reverse :: piecesFrom size [b] (size - 1) rest
    | room + 1 => piecesFrom size (b :: piece) room rest

/-- Cuts bytes into pieces of `size`, all full but the last. -/
def pieces (size : Nat) (bytes : Bytes) : List Bytes :=
  piecesFrom size [] size bytes

/-- The node of the chunk at position `counter`. -/
def chunk (counter : Nat) (bytes : Bytes) : Node :=
  match pieces 64 bytes with
  | [] => Node.ofBlocks counter initial chunkStart [] []
  | block :: rest => Node.ofBlocks counter initial chunkStart block rest

/-- Joins a closed subtree to the pending ones, smallest first, when `count` subtrees of its size
are complete. -/
def merge (right : Chain) (count : Nat) : List Chain → List Chain
  | [] => [right]
  | left :: rest =>
    if count % 2 = 0 then merge (Node.parent left right).close (count / 2) rest
    else right :: left :: rest

/-- Works through the chunks from position `counter`, with the subtrees pending so far. -/
def absorb (pending : List Chain) (counter : Nat) (bytes : Bytes) : List Bytes → Node
  | [] => pending.foldl (fun node left => .parent left node.close) (chunk counter bytes)
  | next :: rest =>
    absorb (merge (chunk counter bytes).close (counter + 1) pending) (counter + 1) next rest

/-- The BLAKE3 hash of a byte string. -/
def hash (input : Bytes) : Digest :=
  match pieces 1024 input with
  | [] => (absorb [] 0 [] []).digest
  | bytes :: rest => (absorb [] 0 bytes rest).digest

end PayrollSeal.Blake3
