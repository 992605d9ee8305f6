import Mathlib.Data.List.Basic
import Mathlib.Algebra.Group.Nat.Defs

/-!
# SHA-256

The digests of the evidence store are `hashlib.sha256(...).hexdigest()`. The hash is written out
here over octets and 32-bit words as natural numbers, so that a stored digest can be evaluated on
a concrete payload; nothing in the development argues about its insides.
-/

namespace AtlasDb.Core.Sha256

/-- Reduce to a 32-bit word. -/
def word (n : Nat) : Nat := n % 2 ^ 32

/-- Rotate a 32-bit word right. -/
def rotr (r n : Nat) : Nat := word ((n >>> r) ||| (n <<< (32 - r)))

/-- Bitwise complement of a 32-bit word. -/
def complement (n : Nat) : Nat := (2 ^ 32 - 1) - n

def roundConstants : List Nat :=
  [0x428a2f98, 0x71374491, 0xb5c0fbcf, 0xe9b5dba5, 0x3956c25b, 0x59f111f1, 0x923f82a4, 0xab1c5ed5,
   0xd807aa98, 0x12835b01, 0x243185be, 0x550c7dc3, 0x72be5d74, 0x80deb1fe, 0x9bdc06a7, 0xc19bf174,
   0xe49b69c1, 0xefbe4786, 0x0fc19dc6, 0x240ca1cc, 0x2de92c6f, 0x4a7484aa, 0x5cb0a9dc, 0x76f988da,
   0x983e5152, 0xa831c66d, 0xb00327c8, 0xbf597fc7, 0xc6e00bf3, 0xd5a79147, 0x06ca6351, 0x14292967,
   0x27b70a85, 0x2e1b2138, 0x4d2c6dfc, 0x53380d13, 0x650a7354, 0x766a0abb, 0x81c2c92e, 0x92722c85,
   0xa2bfe8a1, 0xa81a664b, 0xc24b8b70, 0xc76c51a3, 0xd192e819, 0xd6990624, 0xf40e3585, 0x106aa070,
   0x19a4c116, 0x1e376c08, 0x2748774c, 0x34b0bcb5, 0x391c0cb3, 0x4ed8aa4a, 0x5b9cca4f, 0x682e6ff3,
   0x748f82ee, 0x78a5636f, 0x84c87814, 0x8cc70208, 0x90befffa, 0xa4506ceb, 0xbef9a3f7, 0xc67178f2]

def initialState : List Nat :=
  [0x6a09e667, 0xbb67ae85, 0x3c6ef372, 0xa54ff53a, 0x510e527f, 0x9b05688c, 0x1f83d9ab, 0x5be0cd19]

/-- Extend the message schedule by `n` words. The schedule is kept newest word first, so the word
`i` places back is at index `i - 1`. -/
def extendSchedule : Nat → List Nat → List Nat
  | 0, ws => ws
  | n + 1, ws =>
    let w15 := ws.getD 14 0
    let w2 := ws.getD 1 0
    let s0 := rotr 7 w15 ^^^ rotr 18 w15 ^^^ (w15 >>> 3)
    let s1 := rotr 17 w2 ^^^ rotr 19 w2 ^^^ (w2 >>> 10)
    extendSchedule n (word (ws.getD 15 0 + s0 + ws.getD 6 0 + s1) :: ws)

/-- One compression round on the eight working words. -/
def round : List Nat → Nat → Nat → List Nat
  | [a, b, c, d, e, f, g, h], k, w =>
    let s1 := rotr 6 e ^^^ rotr 11 e ^^^ rotr 25 e
    let choice := (e &&& f) ^^^ (complement e &&& g)
    let t1 := h + s1 + choice + k + w
    let s0 := rotr 2 a ^^^ rotr 13 a ^^^ rotr 22 a
    let majority := (a &&& b) ^^^ (a &&& c) ^^^ (b &&& c)
    [word (t1 + s0 + majority), a, b, c, word (d + t1), e, f, g]
  | state, _, _ => state

def rounds : List Nat → List Nat → List Nat → List Nat
  | state, k :: ks, w :: ws => rounds (round state k w) ks ws
  | state, _, _ => state

/-- Fold one sixteen-word block into the chaining state. -/
def compress (state block : List Nat) : List Nat :=
  let schedule := (extendSchedule 48 block.reverse).reverse
  List.zipWith (fun x y => word (x + y)) state (rounds state roundConstants schedule)

/-- Big-endian words of an octet string. -/
def words : List Nat → List Nat
  | a :: b :: c :: d :: rest => (((a * 256 + b) * 256 + c) * 256 + d) :: words rest
  | _ => []

/-- The message followed by the delimiter, zeros up to a block boundary and its bit length. -/
def pad (octets : List Nat) : List Nat :=
  let zeros := (55 + 64 - octets.length % 64) % 64
  let bits := octets.length * 8
  octets ++ 0x80 :: (List.replicate zeros 0 ++
    [56, 48, 40, 32, 24, 16, 8, 0].map fun shift => (bits >>> shift) % 256)

def blocks : Nat → List Nat → List (List Nat)
  | 0, _ => []
  | n + 1, ws => ws.take 16 :: blocks n (ws.drop 16)

def hexDigit (n : Nat) : Char := "0123456789abcdef".toList.getD n '0'

def hexWord (n : Nat) : List Char :=
  [28, 24, 20, 16, 12, 8, 4, 0].map fun shift => hexDigit ((n >>> shift) % 16)

/-- `hashlib.sha256(octets).hexdigest()`. -/
def hexdigest (octets : List Nat) : List Char :=
  let ws := words (pad octets)
  ((blocks (ws.length / 16) ws).foldl compress initialState).flatMap hexWord

-- The FIPS 180-4 test vector.
example : hexdigest ("abc".toList.map Char.toNat) =
    "ba7816bf8f01cfea414140de5dae2223b00361a396177a9cb410ff61f20015ad".toList := by
  decide +kernel

end AtlasDb.Core.Sha256
