import SchemaQuery.Text.Hexadecimal

/-!
# SHA-256

The 256-bit secure hash of a byte sequence: the message is padded to whole blocks of sixteen
words, and every block is mixed into a state of eight words by sixty-four rounds.

## Main definitions

* `State`, `round`, `compress` - the mixing of one block into the state.
* `schedule` - the sixty-four words that a block is expanded to.
* `pad` - the padded message.
* `sha256` - the hash of a text, in hexadecimal.
-/

namespace SchemaQuery.Digest

/-- The working state. -/
structure State where
  a : UInt32
  b : UInt32
  c : UInt32
  d : UInt32
  e : UInt32
  f : UInt32
  g : UInt32
  h : UInt32
  deriving DecidableEq, Repr

/-- The state before the first block. -/
def State.initial : State :=
  ⟨0x6a09e667, 0xbb67ae85, 0x3c6ef372, 0xa54ff53a, 0x510e527f, 0x9b05688c, 0x1f83d9ab, 0x5be0cd19⟩

/-- Word-wise sum of two states. -/
def State.add (x y : State) : State :=
  ⟨x.a + y.a, x.b + y.b, x.c + y.c, x.d + y.d, x.e + y.e, x.f + y.f, x.g + y.g, x.h + y.h⟩

/-- The words of a state in order. -/
def State.words (x : State) : List UInt32 := [x.a, x.b, x.c, x.d, x.e, x.f, x.g, x.h]

/-- The round constants. -/
def roundConstants : List UInt32 :=
  [0x428a2f98, 0x71374491, 0xb5c0fbcf, 0xe9b5dba5, 0x3956c25b, 0x59f111f1, 0x923f82a4, 0xab1c5ed5,
    0xd807aa98, 0x12835b01, 0x243185be, 0x550c7dc3, 0x72be5d74, 0x80deb1fe, 0x9bdc06a7, 0xc19bf174,
    0xe49b69c1, 0xefbe4786, 0x0fc19dc6, 0x240ca1cc, 0x2de92c6f, 0x4a7484aa, 0x5cb0a9dc, 0x76f988da,
    0x983e5152, 0xa831c66d, 0xb00327c8, 0xbf597fc7, 0xc6e00bf3, 0xd5a79147, 0x06ca6351, 0x14292967,
    0x27b70a85, 0x2e1b2138, 0x4d2c6dfc, 0x53380d13, 0x650a7354, 0x766a0abb, 0x81c2c92e, 0x92722c85,
    0xa2bfe8a1, 0xa81a664b, 0xc24b8b70, 0xc76c51a3, 0xd192e819, 0xd6990624, 0xf40e3585, 0x106aa070,
    0x19a4c116, 0x1e376c08, 0x2748774c, 0x34b0bcb5, 0x391c0cb3, 0x4ed8aa4a, 0x5b9cca4f, 0x682e6ff3,
    0x748f82ee, 0x78a5636f, 0x84c87814, 0x8cc70208, 0x90befffa, 0xa4506ceb, 0xbef9a3f7, 0xc67178f2]

/-- Rotation to the right. -/
def rotateRight (x : UInt32) (n : UInt32) : UInt32 := (x >>> n) ||| (x <<< (32 - n))

/-- One round, with a round constant and a word of the schedule. -/
def round (x : State) (input : UInt32 × UInt32) : State :=
  let big1 := rotateRight x.e 6 ^^^ rotateRight x.e 11 ^^^ rotateRight x.e 25
  let choice := (x.e &&& x.f) ^^^ ((~~~x.e) &&& x.g)
  let t1 := x.h + big1 + choice + input.1 + input.2
  let big0 := rotateRight x.a 2 ^^^ rotateRight x.a 13 ^^^ rotateRight x.a 22
  let majority := (x.a &&& x.b) ^^^ (x.a &&& x.c) ^^^ (x.b &&& x.c)
  ⟨t1 + (big0 + majority), x.a, x.b, x.c, x.d + t1, x.e, x.f, x.g⟩

/-- Extends a schedule by `count` words.  The schedule is kept newest word first, so that the
words needed next stand at fixed positions near its head. -/
def extend : (count : Nat) → List UInt32 → List UInt32
  | 0, words => words
  | count + 1, words =>
    let two := words.getD 1 0
    let seven := words.getD 6 0
    let fifteen := words.getD 14 0
    let sixteen := words.getD 15 0
    let small0 := rotateRight fifteen 7 ^^^ rotateRight fifteen 18 ^^^ (fifteen >>> 3)
    let small1 := rotateRight two 17 ^^^ rotateRight two 19 ^^^ (two >>> 10)
    extend count ((sixteen + small0 + seven + small1) :: words)

/-- The sixty-four words that the sixteen words of a block are expanded to. -/
def schedule (block : List UInt32) : List UInt32 := (extend 48 block.reverse).reverse

/-- Mixes a block of sixteen words into the state. -/
def compress (x : State) (block : List UInt32) : State :=
  x.add ((roundConstants.zip (schedule block)).foldl round x)

/-- `count` bytes of a number, most significant first. -/
def bigEndian (count n : Nat) : List UInt8 :=
  (List.range count).reverse.map fun i => UInt8.ofNat (n / Nat.pow 256 i)

/-- The message followed by a one bit, zeros up to the last eight bytes of a block, and the
length of the message in bits. -/
def pad (bytes : List UInt8) : List UInt8 :=
  -- nine bytes: the one bit with seven zeros, and the length
  let used := (bytes.length + 9) % 64
  bytes ++ 0x80 :: List.replicate ((64 - used) % 64) 0 ++ bigEndian 8 (8 * bytes.length)

/-- The big-endian words of a byte sequence; bytes that fill no word are dropped. -/
def wordsOf : List UInt8 → List UInt32
  | a :: b :: c :: d :: rest =>
    (a.toUInt32 <<< 24 ||| b.toUInt32 <<< 16 ||| c.toUInt32 <<< 8 ||| d.toUInt32) :: wordsOf rest
  | _ => []

/-- Cuts words into blocks of sixteen; a shorter rest is dropped. -/
def blocksOf (words : List UInt32) : List (List UInt32) :=
  if words.length < 16 then [] else words.take 16 :: blocksOf (words.drop 16)
termination_by words.length
decreasing_by simp only [List.length_drop]; omega

/-- The hash of a byte sequence as bytes. -/
def hashBytes (bytes : List UInt8) : List UInt8 :=
  ((blocksOf (wordsOf (pad bytes))).foldl compress .initial).words.flatMap fun word =>
    bigEndian 4 word.toNat

/-- Bytes in hexadecimal, two digits each. -/
def hexText (bytes : List UInt8) : String :=
  String.ofList (bytes.flatMap fun byte =>
    [Text.hexDigit (byte.toNat / 16), Text.hexDigit (byte.toNat % 16)])

/-- The hash of a text in UTF-8, in hexadecimal. -/
def sha256 (s : String) : String := hexText (hashBytes s.toUTF8.toList)

end SchemaQuery.Digest
