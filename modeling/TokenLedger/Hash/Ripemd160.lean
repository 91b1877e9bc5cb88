import TokenLedger.Hash.Sha256

/-!
# RIPEMD-160

Two lines of eighty rounds run over the same block with different orders of its words, and are
added crosswise.

Embeds `ripemd160` and `hash160` (`crypto`). These call the packages `ripemd` and `bitcoin_hashes`,
which are not part of the modelled sources: the digests stand for them.
-/

namespace TokenLedger.Hash

namespace Ripemd160

/-- The five working words. -/
structure State where
  a : UInt32
  b : UInt32
  c : UInt32
  d : UInt32
  e : UInt32

namespace State

def initial : State := ⟨0x67452301, 0xefcdab89, 0x98badcfe, 0x10325476, 0xc3d2e1f0⟩

def words (s : State) : List UInt32 := [s.a, s.b, s.c, s.d, s.e]

end State

/-- One of the two lines: for each group of sixteen rounds its mixing function and constant, and
for each round the word it takes and the rotation. -/
structure Line where
  groups : List (Nat × UInt32)
  order : List Nat
  rotations : List UInt32

def leftLine : Line where
  groups := [(0, 0), (1, 0x5a827999), (2, 0x6ed9eba1), (3, 0x8f1bbcdc), (4, 0xa953fd4e)]
  order :=
    [0, 1, 2, 3, 4, 5, 6, 7, 8, 9, 10, 11, 12, 13, 14, 15,
     7, 4, 13, 1, 10, 6, 15, 3, 12, 0, 9, 5, 2, 14, 11, 8,
     3, 10, 14, 4, 9, 15, 8, 1, 2, 7, 0, 6, 13, 11, 5, 12,
     1, 9, 11, 10, 0, 8, 12, 4, 13, 3, 7, 15, 14, 5, 6, 2,
     4, 0, 5, 9, 7, 12, 2, 10, 14, 1, 3, 8, 11, 6, 15, 13]
  rotations :=
    [11, 14, 15, 12, 5, 8, 7, 9, 11, 13, 14, 15, 6, 7, 9, 8,
     7, 6, 8, 13, 11, 9, 7, 15, 7, 12, 15, 9, 11, 7, 13, 12,
     11, 13, 6, 7, 14, 9, 13, 15, 14, 8, 13, 6, 5, 12, 7, 5,
     11, 12, 14, 15, 14, 15, 9, 8, 9, 14, 5, 6, 8, 6, 5, 12,
     9, 15, 5, 11, 6, 8, 13, 12, 5, 12, 13, 14, 11, 8, 5, 6]

def rightLine : Line where
  groups := [(4, 0x50a28be6), (3, 0x5c4dd124), (2, 0x6d703ef3), (1, 0x7a6d76e9), (0, 0)]
  order :=
    [5, 14, 7, 0, 9, 2, 11, 4, 13, 6, 15, 8, 1, 10, 3, 12,
     6, 11, 3, 7, 0, 13, 5, 10, 14, 15, 8, 12, 4, 9, 1, 2,
     15, 5, 1, 3, 7, 14, 6, 9, 11, 8, 12, 2, 10, 0, 4, 13,
     8, 6, 4, 1, 3, 11, 15, 0, 5, 12, 2, 13, 9, 7, 10, 14,
     12, 15, 10, 4, 1, 5, 8, 7, 6, 2, 13, 14, 0, 3, 9, 11]
  rotations :=
    [8, 9, 9, 11, 13, 15, 15, 5, 7, 7, 8, 11, 14, 14, 12, 6,
     9, 13, 15, 7, 12, 8, 9, 11, 7, 7, 12, 7, 6, 15, 13, 11,
     9, 7, 15, 11, 8, 6, 6, 14, 12, 13, 5, 14, 13, 13, 7, 5,
     15, 5, 8, 11, 14, 14, 6, 14, 6, 9, 12, 9, 12, 5, 15, 8,
     8, 5, 12, 9, 12, 5, 14, 6, 8, 13, 6, 5, 15, 13, 11, 11]

def mix (x y z : UInt32) : Nat → UInt32
  | 0 => x ^^^ y ^^^ z
  | 1 => (x &&& y) ||| (~~~ x &&& z)
  | 2 => (x ||| ~~~ y) ^^^ z
  | 3 => (x &&& z) ||| (y &&& ~~~ z)
  | _ => x ^^^ (y ||| ~~~ z)

def round (s : State) (kind : Nat) (constant word rotation : UInt32) : State :=
  let t := rotateLeft (s.a + mix s.b s.c s.d kind + word + constant) rotation + s.e
  ⟨s.e, t, s.b, rotateLeft s.c 10, s.d⟩

def Line.run (line : Line) (block : Array UInt32) (s : State) : State :=
  let groups := line.groups.flatMap (List.replicate 16)
  let rounds := groups.zip (line.order.zip line.rotations)
  rounds.foldl (fun s ((kind, constant), index, rotation) =>
    round s kind constant (block.getD index 0) rotation) s

def compress (s : State) (block : Bytes) : State :=
  let block := (words Bytes.ofLittleEndian block).toArray
  let l := leftLine.run block s
  let r := rightLine.run block s
  ⟨s.b + l.c + r.d, s.c + l.d + r.e, s.d + l.e + r.a, s.e + l.a + r.b, s.a + l.b + r.c⟩

end Ripemd160

def ripemd160 (message : Bytes) : Hash160 :=
  let state := (blocks (padded (Bytes.littleEndian 8) message)).foldl Ripemd160.compress .initial
  ⟨state.words.flatMap fun word => Bytes.littleEndian 4 word.toNat,
    by simp [Ripemd160.State.words]⟩

/-- RIPEMD-160 of SHA-256: the hash that stands for a key or a script in a locking script. -/
def hash160 (message : Bytes) : Hash160 := ripemd160 (sha256 message).val

end TokenLedger.Hash
