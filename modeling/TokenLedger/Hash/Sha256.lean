import TokenLedger.Bytes

/-!
# SHA-256

The digests here all work on blocks of 64 bytes. A message is filled up to whole blocks with a set
bit, zero bytes, and its length in bits as a 64-bit integer.

Embeds `sha256` and `sha256d` (`crypto`). These call the packages `sha2` and `bitcoin_hashes`, which
are not part of the modelled sources: the digests stand for them, by their published definition.
Theorems about all inputs use no more of a digest than the number of its bytes.
-/

namespace TokenLedger.Hash

/-! ### Blocks of a message -/

/-- A message with its filling, its length in bits written by `lengthBytes`. -/
def padded (lengthBytes : Nat → Bytes) (message : Bytes) : Bytes :=
  message ++ 0x80 :: List.replicate ((119 - message.length % 64) % 64) 0
    ++ lengthBytes (8 * message.length)

/-- The whole blocks of 64 bytes. -/
def blocks (bytes : Bytes) : List Bytes :=
  if bytes.length < 64 then [] else bytes.take 64 :: blocks (bytes.drop 64)
termination_by bytes.length
decreasing_by simp; omega

/-- The 32-bit words of a block, each read by `word`. -/
def words (word : Bytes → Nat) : Bytes → List UInt32
  | a :: b :: c :: d :: bytes => UInt32.ofNat (word [a, b, c, d]) :: words word bytes
  | _ => []

def rotateLeft (x : UInt32) (n : UInt32) : UInt32 := (x <<< n) ||| (x >>> (32 - n))

def rotateRight (x : UInt32) (n : UInt32) : UInt32 := (x >>> n) ||| (x <<< (32 - n))

/-! ### The digest -/

namespace Sha256

/-- The eight working words. -/
structure State where
  a : UInt32
  b : UInt32
  c : UInt32
  d : UInt32
  e : UInt32
  f : UInt32
  g : UInt32
  h : UInt32

namespace State

/-- The first 32 bits of the fractional parts of the square roots of the first eight primes. -/
def initial : State :=
  ⟨0x6a09e667, 0xbb67ae85, 0x3c6ef372, 0xa54ff53a, 0x510e527f, 0x9b05688c, 0x1f83d9ab, 0x5be0cd19⟩

def add (s t : State) : State :=
  ⟨s.a + t.a, s.b + t.b, s.c + t.c, s.d + t.d, s.e + t.e, s.f + t.f, s.g + t.g, s.h + t.h⟩

def words (s : State) : List UInt32 := [s.a, s.b, s.c, s.d, s.e, s.f, s.g, s.h]

end State

/-- The first 32 bits of the fractional parts of the cube roots of the first 64 primes. -/
def roundConstants : List UInt32 :=
  [0x428a2f98, 0x71374491, 0xb5c0fbcf, 0xe9b5dba5, 0x3956c25b, 0x59f111f1, 0x923f82a4, 0xab1c5ed5,
   0xd807aa98, 0x12835b01, 0x243185be, 0x550c7dc3, 0x72be5d74, 0x80deb1fe, 0x9bdc06a7, 0xc19bf174,
   0xe49b69c1, 0xefbe4786, 0x0fc19dc6, 0x240ca1cc, 0x2de92c6f, 0x4a7484aa, 0x5cb0a9dc, 0x76f988da,
   0x983e5152, 0xa831c66d, 0xb00327c8, 0xbf597fc7, 0xc6e00bf3, 0xd5a79147, 0x06ca6351, 0x14292967,
   0x27b70a85, 0x2e1b2138, 0x4d2c6dfc, 0x53380d13, 0x650a7354, 0x766a0abb, 0x81c2c92e, 0x92722c85,
   0xa2bfe8a1, 0xa81a664b, 0xc24b8b70, 0xc76c51a3, 0xd192e819, 0xd6990624, 0xf40e3585, 0x106aa070,
   0x19a4c116, 0x1e376c08, 0x2748774c, 0x34b0bcb5, 0x391c0cb3, 0x4ed8aa4a, 0x5b9cca4f, 0x682e6ff3,
   0x748f82ee, 0x78a5636f, 0x84c87814, 0x8cc70208, 0x90befffa, 0xa4506ceb, 0xbef9a3f7, 0xc67178f2]

/-- Extends the sixteen words of a block to one word a round. -/
def schedule (block : List UInt32) : List UInt32 :=
  let extend (w : Array UInt32) (_ : Nat) : Array UInt32 :=
    let at16 := w.getD (w.size - 16) 0
    let at15 := w.getD (w.size - 15) 0
    let at7 := w.getD (w.size - 7) 0
    let at2 := w.getD (w.size - 2) 0
    let s0 := rotateRight at15 7 ^^^ rotateRight at15 18 ^^^ (at15 >>> 3)
    let s1 := rotateRight at2 17 ^^^ rotateRight at2 19 ^^^ (at2 >>> 10)
    w.push (at16 + s0 + at7 + s1)
  ((List.range 48).foldl extend block.toArray).toList

def round (s : State) (constant word : UInt32) : State :=
  let s1 := rotateRight s.e 6 ^^^ rotateRight s.e 11 ^^^ rotateRight s.e 25
  let choice := (s.e &&& s.f) ^^^ (~~~ s.e &&& s.g)
  let t1 := s.h + s1 + choice + constant + word
  let s0 := rotateRight s.a 2 ^^^ rotateRight s.a 13 ^^^ rotateRight s.a 22
  let majority := (s.a &&& s.b) ^^^ (s.a &&& s.c) ^^^ (s.b &&& s.c)
  ⟨t1 + s0 + majority, s.a, s.b, s.c, s.d + t1, s.e, s.f, s.g⟩

def compress (s : State) (block : Bytes) : State :=
  let rounds := roundConstants.zip (schedule (words Bytes.ofBigEndian block))
  s.add (rounds.foldl (fun s (constant, word) => round s constant word) s)

end Sha256

def sha256 (message : Bytes) : Hash256 :=
  let state := (blocks (padded (Bytes.bigEndian 8) message)).foldl Sha256.compress .initial
  ⟨state.words.flatMap fun word => Bytes.bigEndian 4 word.toNat, by simp [Sha256.State.words]⟩

/-- SHA-256 applied twice. -/
def sha256d (message : Bytes) : Hash256 := sha256 (sha256 message).val

end TokenLedger.Hash
