import PayrollSeal.Bytes

/-!
# BLAKE3 compression

The state is four rows of four words. A round mixes the four columns, then the four diagonals,
each with two words of the message, and the message is permuted between rounds. The output keeps
the first half of the state combined with the second half.
-/

namespace PayrollSeal.Blake3

/-- Four words that are mixed side by side. -/
structure Row where
  w0 : UInt32
  w1 : UInt32
  w2 : UInt32
  w3 : UInt32
deriving DecidableEq

namespace Row

/-- Combines two rows word by word. -/
@[inline] def zip (f : UInt32 → UInt32 → UInt32) (r s : Row) : Row :=
  ⟨f r.w0 s.w0, f r.w1 s.w1, f r.w2 s.w2, f r.w3 s.w3⟩

/-- The words moved one place to the left. -/
def turn (r : Row) : Row :=
  ⟨r.w1, r.w2, r.w3, r.w0⟩

/-- The bytes of a word, low byte first. -/
def bytesOfWord (w : UInt32) : Bytes :=
  [w.toUInt8, (w >>> 8).toUInt8, (w >>> 16).toUInt8, (w >>> 24).toUInt8]

/-- The sixteen bytes of a row. -/
def bytes (r : Row) : Bytes :=
  bytesOfWord r.w0 ++ bytesOfWord r.w1 ++ bytesOfWord r.w2 ++ bytesOfWord r.w3

end Row

/-- The eight words that a node hands to its parent. -/
structure Chain where
  low : Row
  high : Row
deriving DecidableEq

/-- The chain that every chunk starts from. -/
def initial : Chain :=
  ⟨⟨0x6A09E667, 0xBB67AE85, 0x3C6EF372, 0xA54FF53A⟩,
    ⟨0x510E527F, 0x9B05688C, 0x1F83D9AB, 0x5BE0CD19⟩⟩

/-- The sixteen words of a block. -/
structure Message where
  m0 : UInt32
  m1 : UInt32
  m2 : UInt32
  m3 : UInt32
  m4 : UInt32
  m5 : UInt32
  m6 : UInt32
  m7 : UInt32
  m8 : UInt32
  m9 : UInt32
  m10 : UInt32
  m11 : UInt32
  m12 : UInt32
  m13 : UInt32
  m14 : UInt32
  m15 : UInt32

namespace Message

/-- The word that four bytes spell, low byte first. -/
def word (b0 b1 b2 b3 : UInt8) : UInt32 :=
  b0.toUInt32 ||| b1.toUInt32 <<< 8 ||| b2.toUInt32 <<< 16 ||| b3.toUInt32 <<< 24

/-- The words of a byte string; missing bytes of the last word are zero. -/
def words : Bytes → List UInt32
  | [] => []
  | [b0] => [word b0 0 0 0]
  | [b0, b1] => [word b0 b1 0 0]
  | [b0, b1, b2] => [word b0 b1 b2 0]
  | b0 :: b1 :: b2 :: b3 :: rest => word b0 b1 b2 b3 :: words rest

/-- The message of a block of at most 64 bytes; missing bytes are zero. -/
def ofBytes (block : Bytes) : Message :=
  let w := (words block).toArray
  ⟨w.getD 0 0, w.getD 1 0, w.getD 2 0, w.getD 3 0, w.getD 4 0, w.getD 5 0, w.getD 6 0,
    w.getD 7 0, w.getD 8 0, w.getD 9 0, w.getD 10 0, w.getD 11 0, w.getD 12 0, w.getD 13 0,
    w.getD 14 0, w.getD 15 0⟩

/-- The message of a parent: the chains of its two children. -/
def ofChains (left right : Chain) : Message :=
  ⟨left.low.w0, left.low.w1, left.low.w2, left.low.w3,
    left.high.w0, left.high.w1, left.high.w2, left.high.w3,
    right.low.w0, right.low.w1, right.low.w2, right.low.w3,
    right.high.w0, right.high.w1, right.high.w2, right.high.w3⟩

/-- The order of the words in the next round. -/
def permute (m : Message) : Message :=
  ⟨m.m2, m.m6, m.m3, m.m10, m.m7, m.m0, m.m4, m.m13,
    m.m1, m.m11, m.m12, m.m5, m.m9, m.m14, m.m15, m.m8⟩

end Message

/-- The sixteen words that rounds work on. -/
structure State where
  a : Row
  b : Row
  c : Row
  d : Row

namespace State

/-- A word turned to the right by `n` bits, for `0 < n < 32`. -/
@[inline] def rotate (n w : UInt32) : UInt32 :=
  w >>> n ||| w <<< (32 - n)

/-- Adds a row of message words and stirs; `n` and `k` are the two turns. -/
@[inline] def half (n k : UInt32) (m : Row) (s : State) : State :=
  let a := (s.a.zip (· + ·) s.b).zip (· + ·) m
  let d := s.d.zip (fun x y => rotate n (x ^^^ y)) a
  let c := s.c.zip (· + ·) d
  let b := s.b.zip (fun x y => rotate k (x ^^^ y)) c
  ⟨a, b, c, d⟩

/-- Mixes the four columns with two rows of message words. -/
def mix (x y : Row) (s : State) : State :=
  half 8 7 y (half 16 12 x s)

/-- Brings the diagonals into the columns. -/
def slant (s : State) : State :=
  ⟨s.a, s.b.turn, s.c.turn.turn, s.d.turn.turn.turn⟩

/-- Puts the diagonals back. -/
def unslant (s : State) : State :=
  ⟨s.a, s.b.turn.turn.turn, s.c.turn.turn, s.d.turn⟩

/-- One round: the columns, then the diagonals. -/
def round (m : Message) (s : State) : State :=
  let s := mix ⟨m.m0, m.m2, m.m4, m.m6⟩ ⟨m.m1, m.m3, m.m5, m.m7⟩ s
  let s := mix ⟨m.m8, m.m10, m.m12, m.m14⟩ ⟨m.m9, m.m11, m.m13, m.m15⟩ s.slant
  s.unslant

/-- The remaining rounds, with the message permuted after each. -/
def rounds : Nat → Message → State → State
  | 0, _, s => s
  | n + 1, m, s => rounds n m.permute (s.round m)

end State

/-- Compresses a block: `counter` is the chunk's position, `length` the bytes in the block. -/
def compress (chain : Chain) (message : Message) (counter length : Nat) (flags : UInt32) : Chain :=
  let tail : Row := ⟨counter.toUInt32, (counter >>> 32).toUInt32, length.toUInt32, flags⟩
  let s := State.rounds 7 message ⟨chain.low, chain.high, initial.low, tail⟩
  ⟨s.a.zip (· ^^^ ·) s.c, s.b.zip (· ^^^ ·) s.d⟩

end PayrollSeal.Blake3
