import Mathlib

/-!
# SHA-256

`crates/deed-fetch/src/sha256.rs`: the digest that a fetched module is known by.
-/

namespace Deed.Fetch

def xor3 (first second third : UInt32) : UInt32 := first ^^^ second ^^^ third

def xor2 (first second : UInt32) : UInt32 := first ^^^ second

/-- `u32::rotate_right`, by fewer than 32 places. -/
def rotateRight (word places : UInt32) : UInt32 :=
  (word >>> places) ||| (word <<< (32 - places))

/-- The eight words of a hash value, and the working variables of a block. -/
structure Words where
  a : UInt32
  b : UInt32
  c : UInt32
  d : UInt32
  e : UInt32
  f : UInt32
  g : UInt32
  h : UInt32
deriving DecidableEq, Repr

/-- Initial hash values: the first 32 bits of the fractional parts of the square roots of
the first eight primes. -/
def initial : Words :=
  ⟨0x6a09e667, 0xbb67ae85, 0x3c6ef372, 0xa54ff53a, 0x510e527f, 0x9b05688c, 0x1f83d9ab,
    0x5be0cd19⟩

/-- Round constants: the first 32 bits of the fractional parts of the cube roots of the
first 64 primes. -/
def K : List UInt32 :=
  [0x428a2f98, 0x71374491, 0xb5c0fbcf, 0xe9b5dba5, 0x3956c25b, 0x59f111f1, 0x923f82a4,
    0xab1c5ed5, 0xd807aa98, 0x12835b01, 0x243185be, 0x550c7dc3, 0x72be5d74, 0x80deb1fe,
    0x9bdc06a7, 0xc19bf174, 0xe49b69c1, 0xefbe4786, 0x0fc19dc6, 0x240ca1cc, 0x2de92c6f,
    0x4a7484aa, 0x5cb0a9dc, 0x76f988da, 0x983e5152, 0xa831c66d, 0xb00327c8, 0xbf597fc7,
    0xc6e00bf3, 0xd5a79147, 0x06ca6351, 0x14292967, 0x27b70a85, 0x2e1b2138, 0x4d2c6dfc,
    0x53380d13, 0x650a7354, 0x766a0abb, 0x81c2c92e, 0x92722c85, 0xa2bfe8a1, 0xa81a664b,
    0xc24b8b70, 0xc76c51a3, 0xd192e819, 0xd6990624, 0xf40e3585, 0x106aa070, 0x19a4c116,
    0x1e376c08, 0x2748774c, 0x34b0bcb5, 0x391c0cb3, 0x4ed8aa4a, 0x5b9cca4f, 0x682e6ff3,
    0x748f82ee, 0x78a5636f, 0x84c87814, 0x8cc70208, 0x90befffa, 0xa4506ceb, 0xbef9a3f7,
    0xc67178f2]

/-! ## Padding -/

/-- The eight bytes of a number, the highest first. -/
def toBeBytes64 (word : UInt64) : List UInt8 :=
  (List.range 8).map fun index => (word >>> (56 - 8 * UInt64.ofNat index)).toUInt8

/-- The four bytes of a word, the highest first. -/
def toBeBytes (word : UInt32) : List UInt8 :=
  (List.range 4).map fun index => (word >>> (24 - 8 * UInt32.ofNat index)).toUInt8

def zeroes (length : Nat) : Nat :=
  let remainder := length % 64
  if remainder ≤ 56 then 56 - remainder else 120 - remainder

/-- The message, a one bit, zeros until a block lacks eight bytes, and its length in bits. -/
def padded (input : List UInt8) : List UInt8 :=
  let marked := input ++ [0x80]
  marked ++ List.replicate (zeroes marked.length) 0 ++
    toBeBytes64 (UInt64.ofNat input.length * 8)

/-! ## Blocks -/

def fromBeBytes (bytes : List UInt8) : UInt32 :=
  bytes.foldl (fun word byte => (word <<< 8) ||| byte.toUInt32) 0

/-- One more word of the message schedule, which is held with its last word first. -/
def extended (schedule : List UInt32) : List UInt32 :=
  let back := fun places => schedule.getD (places - 1) 0
  let s0 := xor3 (rotateRight (back 15) 7) (rotateRight (back 15) 18) (back 15 >>> 3)
  let s1 := xor3 (rotateRight (back 2) 17) (rotateRight (back 2) 19) (back 2 >>> 10)
  (back 16 + s0 + back 7 + s1) :: schedule

/-- Some bytes in pieces of a length, without what is left over. -/
def chunksExact (size : Nat) (bytes : List UInt8) : List (List UInt8) :=
  (List.range (bytes.length / size)).map fun index =>
    (bytes.drop (size * index)).take size

/-- The message schedule of a block. -/
def schedule (block : List UInt8) : List UInt32 :=
  let words := ((chunksExact 4 block).take 16).map fromBeBytes
  ((List.range 48).foldl (fun schedule _ => extended schedule) words.reverse).reverse

/-- One round, with its constant and its word of the schedule. -/
def compressed (words : Words) (step : UInt32 × UInt32) : Words :=
  let s1 := xor3 (rotateRight words.e 6) (rotateRight words.e 11) (rotateRight words.e 25)
  let ch := xor2 (words.e &&& words.f) (~~~words.e &&& words.g)
  let temp1 := words.h + s1 + ch + step.1 + step.2
  let s0 := xor3 (rotateRight words.a 2) (rotateRight words.a 13) (rotateRight words.a 22)
  let maj := xor3 (words.a &&& words.b) (words.a &&& words.c) (words.b &&& words.c)
  let temp2 := s0 + maj
  { a := temp1 + temp2, b := words.a, c := words.b, d := words.c
    e := words.d + temp1, f := words.e, g := words.f, h := words.g }

/-- What a block makes of the hash value before it. -/
def absorbed (hash : Words) (block : List UInt8) : Words :=
  let done := (K.zip (schedule block)).foldl compressed hash
  { a := hash.a + done.a, b := hash.b + done.b, c := hash.c + done.c, d := hash.d + done.d
    e := hash.e + done.e, f := hash.f + done.f, g := hash.g + done.g, h := hash.h + done.h }

def Words.bytes (words : Words) : List UInt8 :=
  [words.a, words.b, words.c, words.d, words.e, words.f, words.g, words.h].flatMap toBeBytes

/-- The SHA-256 digest of some bytes. -/
def sha256 (input : List UInt8) : List UInt8 :=
  ((chunksExact 64 (padded input)).foldl absorbed initial).bytes

/-! ## Digests -/

/-- A hexadecimal digit, in lowercase. -/
def hexDigit (value : Nat) : Char :=
  if value < 10 then Char.ofNat ('0'.toNat + value) else Char.ofNat ('a'.toNat + (value - 10))

/-- Some bytes as lowercase hexadecimal. -/
def hex (bytes : List UInt8) : String :=
  String.ofList (bytes.flatMap fun byte => [hexDigit (byte.toNat / 16), hexDigit (byte.toNat % 16)])

/-- The digest as it is written down and a cache entry is called. -/
def digest (bytes : List UInt8) : String := hex (sha256 bytes)

end Deed.Fetch
