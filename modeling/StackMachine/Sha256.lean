import StackMachine.Text.Decimal

/-!
# SHA-256

The digest that identifies an artifact's bytes: padding to blocks of 64 bytes, the message
schedule, and 64 rounds of compression for each block.
-/

namespace StackMachine.Sha256

/-- The round constants: the first 32 bits of the fractional parts of the cube roots of the
    first 64 primes. -/
def roundConstants : List UInt32 := [
    0x428a2f98, 0x71374491, 0xb5c0fbcf, 0xe9b5dba5, 0x3956c25b, 0x59f111f1, 0x923f82a4, 0xab1c5ed5,
    0xd807aa98, 0x12835b01, 0x243185be, 0x550c7dc3, 0x72be5d74, 0x80deb1fe, 0x9bdc06a7, 0xc19bf174,
    0xe49b69c1, 0xefbe4786, 0x0fc19dc6, 0x240ca1cc, 0x2de92c6f, 0x4a7484aa, 0x5cb0a9dc, 0x76f988da,
    0x983e5152, 0xa831c66d, 0xb00327c8, 0xbf597fc7, 0xc6e00bf3, 0xd5a79147, 0x06ca6351, 0x14292967,
    0x27b70a85, 0x2e1b2138, 0x4d2c6dfc, 0x53380d13, 0x650a7354, 0x766a0abb, 0x81c2c92e, 0x92722c85,
    0xa2bfe8a1, 0xa81a664b, 0xc24b8b70, 0xc76c51a3, 0xd192e819, 0xd6990624, 0xf40e3585, 0x106aa070,
    0x19a4c116, 0x1e376c08, 0x2748774c, 0x34b0bcb5, 0x391c0cb3, 0x4ed8aa4a, 0x5b9cca4f, 0x682e6ff3,
    0x748f82ee, 0x78a5636f, 0x84c87814, 0x8cc70208, 0x90befffa, 0xa4506ceb, 0xbef9a3f7, 0xc67178f2]

/-- The eight working words of a digest. -/
structure Words where
  a : UInt32
  b : UInt32
  c : UInt32
  d : UInt32
  e : UInt32
  f : UInt32
  g : UInt32
  h : UInt32
  deriving DecidableEq

namespace Words

/-- The words before the first block: the first 32 bits of the fractional parts of the square
    roots of the first eight primes. -/
def start : Words :=
  ⟨0x6a09e667, 0xbb67ae85, 0x3c6ef372, 0xa54ff53a,
    0x510e527f, 0x9b05688c, 0x1f83d9ab, 0x5be0cd19⟩

/-- Word by word sum. -/
def add (x y : Words) : Words :=
  ⟨x.a + y.a, x.b + y.b, x.c + y.c, x.d + y.d, x.e + y.e, x.f + y.f, x.g + y.g, x.h + y.h⟩

/-- The words in order. -/
def toList (w : Words) : List UInt32 := [w.a, w.b, w.c, w.d, w.e, w.f, w.g, w.h]

end Words

/-- Rotation of a word to the right by fewer than 32 places, at least one. -/
def rotateRight (x : UInt32) (n : UInt32) : UInt32 := (x >>> n) ||| (x <<< (32 - n))

/-- One round of compression with the sum of a round constant and a schedule word. -/
def round (w : Words) (input : UInt32) : Words :=
  let s1 := rotateRight w.e 6 ^^^ rotateRight w.e 11 ^^^ rotateRight w.e 25
  let choice := (w.e &&& w.f) ^^^ (~~~w.e &&& w.g)
  let t1 := w.h + s1 + choice + input
  let s0 := rotateRight w.a 2 ^^^ rotateRight w.a 13 ^^^ rotateRight w.a 22
  let majority := (w.a &&& w.b) ^^^ (w.a &&& w.c) ^^^ (w.b &&& w.c)
  ⟨t1 + s0 + majority, w.a, w.b, w.c, w.d + t1, w.e, w.f, w.g⟩

/-- The schedule extended by one word, computed from its last sixteen. -/
def extend (schedule : Array UInt32) : Array UInt32 :=
  let word (back : Nat) := schedule.getD (schedule.size - back) 0
  let x := word 15
  let y := word 2
  let s0 := rotateRight x 7 ^^^ rotateRight x 18 ^^^ (x >>> 3)
  let s1 := rotateRight y 17 ^^^ rotateRight y 19 ^^^ (y >>> 10)
  schedule.push (word 16 + s0 + word 7 + s1)

/-- The 64 schedule words of a block of sixteen. -/
def schedule (block : Array UInt32) : Array UInt32 := Nat.repeat extend 48 block

/-- The words after one more block. -/
def compress (w : Words) (block : Array UInt32) : Words :=
  let inputs := List.zipWith (· + ·) roundConstants (schedule block).toList
  w.add (inputs.foldl round w)

/-- The big-endian bytes of the low `count` bytes of a number. -/
def bigEndian (count : Nat) (n : Nat) : List UInt8 :=
  (List.range count).reverse.map fun i => UInt8.ofNat (n / 256 ^ i)

/-- A message followed by a one bit, zeros, and its length in bits, to a multiple of 64 bytes. -/
def pad (message : List UInt8) : List UInt8 :=
  let size := message.length
  let zeros := (119 - size % 64) % 64
  message ++ 0x80 :: (List.replicate zeros 0 ++ bigEndian 8 (8 * size))

/-- The word with the given bytes, the highest first. -/
def wordOf (a b c d : UInt8) : UInt32 :=
  a.toUInt32 <<< 24 ||| b.toUInt32 <<< 16 ||| c.toUInt32 <<< 8 ||| d.toUInt32

/-- Compression of a sequence of bytes.  Words are collected until they make up a block; what is
    left over at the end is dropped. -/
def absorb (w : Words) (pending : Array UInt32) : List UInt8 → Words
  | a :: b :: c :: d :: rest =>
    let pending := pending.push (wordOf a b c d)
    if pending.size = 16 then absorb (compress w pending) #[] rest
    else absorb w pending rest
  | _ => w

/-- The digest of a message. -/
def digest (message : List UInt8) : List UInt8 :=
  let w := absorb Words.start #[] (pad message)
  w.toList.flatMap fun x => bigEndian 4 x.toNat

/-- The digest of a message as 64 lower-case hexadecimal digits. -/
def hexDigest (message : List UInt8) : String := Text.hexBytes (digest message)

end StackMachine.Sha256
