import TokenLedger.Hash.Sha256

/-!
# SHA-1

Embeds `sha1` (`crypto`), which calls the package `bitcoin_hashes`. The package is not part of the
modelled sources: the digest stands for it.
-/

namespace TokenLedger.Hash

namespace Sha1

/-- The five working words. -/
structure State where
  a : UInt32
  b : UInt32
  c : UInt32
  d : UInt32
  e : UInt32

namespace State

def initial : State := ⟨0x67452301, 0xefcdab89, 0x98badcfe, 0x10325476, 0xc3d2e1f0⟩

def add (s t : State) : State := ⟨s.a + t.a, s.b + t.b, s.c + t.c, s.d + t.d, s.e + t.e⟩

def words (s : State) : List UInt32 := [s.a, s.b, s.c, s.d, s.e]

end State

/-- Extends the sixteen words of a block to one word a round. -/
def schedule (block : List UInt32) : List UInt32 :=
  let extend (w : Array UInt32) (_ : Nat) : Array UInt32 :=
    w.push (rotateLeft (w.getD (w.size - 3) 0 ^^^ w.getD (w.size - 8) 0
      ^^^ w.getD (w.size - 14) 0 ^^^ w.getD (w.size - 16) 0) 1)
  ((List.range 64).foldl extend block.toArray).toList

/-- The mixing function and the constant of a round. -/
def mix (s : State) (index : Nat) : UInt32 × UInt32 :=
  if index < 20 then ((s.b &&& s.c) ||| (~~~ s.b &&& s.d), 0x5a827999)
  else if index < 40 then (s.b ^^^ s.c ^^^ s.d, 0x6ed9eba1)
  else if index < 60 then ((s.b &&& s.c) ||| (s.b &&& s.d) ||| (s.c &&& s.d), 0x8f1bbcdc)
  else (s.b ^^^ s.c ^^^ s.d, 0xca62c1d6)

def round (s : State) (word : UInt32) (index : Nat) : State :=
  let (mixed, constant) := mix s index
  ⟨rotateLeft s.a 5 + mixed + s.e + constant + word, s.a, rotateLeft s.b 30, s.c, s.d⟩

def compress (s : State) (block : Bytes) : State :=
  let rounds := (schedule (words Bytes.ofBigEndian block)).zipIdx
  s.add (rounds.foldl (fun s (word, index) => round s word index) s)

end Sha1

def sha1 (message : Bytes) : Hash160 :=
  let state := (blocks (padded (Bytes.bigEndian 8) message)).foldl Sha1.compress .initial
  ⟨state.words.flatMap fun word => Bytes.bigEndian 4 word.toNat, by simp [Sha1.State.words]⟩

end TokenLedger.Hash
