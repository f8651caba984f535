import Classwright.Bytes

/-!
The SHA-256 digest.

A message is padded to blocks of sixteen words. Each block gives a schedule of sixty-four words, and
a round for each of them mixes the eight words of the state.
-/

namespace Classwright.Sha256

structure State where
  a : UInt32
  b : UInt32
  c : UInt32
  d : UInt32
  e : UInt32
  f : UInt32
  g : UInt32
  h : UInt32
  deriving DecidableEq, Repr

/-- The state before the first block. -/
def State.start : State :=
  ⟨0x6a09e667, 0xbb67ae85, 0x3c6ef372, 0xa54ff53a, 0x510e527f, 0x9b05688c, 0x1f83d9ab, 0x5be0cd19⟩

def constants : Array UInt32 := #[
  0x428a2f98, 0x71374491, 0xb5c0fbcf, 0xe9b5dba5, 0x3956c25b, 0x59f111f1, 0x923f82a4, 0xab1c5ed5,
  0xd807aa98, 0x12835b01, 0x243185be, 0x550c7dc3, 0x72be5d74, 0x80deb1fe, 0x9bdc06a7, 0xc19bf174,
  0xe49b69c1, 0xefbe4786, 0x0fc19dc6, 0x240ca1cc, 0x2de92c6f, 0x4a7484aa, 0x5cb0a9dc, 0x76f988da,
  0x983e5152, 0xa831c66d, 0xb00327c8, 0xbf597fc7, 0xc6e00bf3, 0xd5a79147, 0x06ca6351, 0x14292967,
  0x27b70a85, 0x2e1b2138, 0x4d2c6dfc, 0x53380d13, 0x650a7354, 0x766a0abb, 0x81c2c92e, 0x92722c85,
  0xa2bfe8a1, 0xa81a664b, 0xc24b8b70, 0xc76c51a3, 0xd192e819, 0xd6990624, 0xf40e3585, 0x106aa070,
  0x19a4c116, 0x1e376c08, 0x2748774c, 0x34b0bcb5, 0x391c0cb3, 0x4ed8aa4a, 0x5b9cca4f, 0x682e6ff3,
  0x748f82ee, 0x78a5636f, 0x84c87814, 0x8cc70208, 0x90befffa, 0xa4506ceb, 0xbef9a3f7, 0xc67178f2]

def rotate (x n : UInt32) : UInt32 := x >>> n ||| x <<< (32 - n)

/-! ### Schedule -/

def small0 (x : UInt32) : UInt32 := rotate x 7 ^^^ rotate x 18 ^^^ x >>> 3

def small1 (x : UInt32) : UInt32 := rotate x 17 ^^^ rotate x 19 ^^^ x >>> 10

/-- Adds the next word of a schedule. -/
def extend (w : Array UInt32) : Array UInt32 :=
  let back (n : Nat) := w.getD (w.size - n) 0
  w.push (back 16 + small0 (back 15) + back 7 + small1 (back 2))

/-- The schedule of a block. -/
def schedule (block : Array UInt32) : Array UInt32 := Nat.repeat extend 48 block

/-! ### Rounds -/

def big0 (x : UInt32) : UInt32 := rotate x 2 ^^^ rotate x 13 ^^^ rotate x 22

def big1 (x : UInt32) : UInt32 := rotate x 6 ^^^ rotate x 11 ^^^ rotate x 25

/-- One round with the sum of a constant and a word of the schedule. -/
def State.round (s : State) (k : UInt32) : State :=
  let t1 := s.h + big1 s.e + (s.e &&& s.f ^^^ ~~~s.e &&& s.g) + k
  let t2 := big0 s.a + (s.a &&& s.b ^^^ s.a &&& s.c ^^^ s.b &&& s.c)
  ⟨t1 + t2, s.a, s.b, s.c, s.d + t1, s.e, s.f, s.g⟩

def State.add (s t : State) : State :=
  ⟨s.a + t.a, s.b + t.b, s.c + t.c, s.d + t.d, s.e + t.e, s.f + t.f, s.g + t.g, s.h + t.h⟩

/-- Mixes a block into a state. -/
def State.absorb (s : State) (block : Array UInt32) : State :=
  let ks := (constants.zipWith (· + ·) (schedule block)).toList
  s.add (ks.foldl State.round s)

/-! ### Messages -/

/-- A message with its padding: a one bit, zeros, and the length in bits. -/
def pad (message : Bytes) : Bytes :=
  let n := message.length
  message ++ 0x80 :: (List.replicate ((119 - n % 64) % 64) 0 ++ Bytes.ofU64 (UInt64.ofNat (8 * n)))

/-- Groups bytes into words, and a full block into the state. -/
def absorbAll (s : State) (block : Array UInt32) : Bytes → State
  | a :: b :: c :: d :: rest =>
    let block := block.push (Bytes.u32 a b c d)
    if block.size = 16 then absorbAll (s.absorb block) #[] rest else absorbAll s block rest
  | _ => s

/-- The digest of a message, of thirty-two bytes. -/
def digest (message : Bytes) : Bytes :=
  let s := absorbAll .start #[] (pad message)
  [s.a, s.b, s.c, s.d, s.e, s.f, s.g, s.h].flatMap Bytes.ofU32

end Classwright.Sha256
