/-!
Bytes, and numbers written most significant byte first.
-/

namespace Classwright

/-- A sequence of bytes. -/
abbrev Bytes := List UInt8

namespace Bytes

def ofU16 (v : UInt16) : Bytes := [(v >>> 8).toUInt8, v.toUInt8]

def ofU32 (v : UInt32) : Bytes :=
  [(v >>> 24).toUInt8, (v >>> 16).toUInt8, (v >>> 8).toUInt8, v.toUInt8]

def ofU64 (v : UInt64) : Bytes := ofU32 (v >>> 32).toUInt32 ++ ofU32 v.toUInt32

/-- A signed number in four bytes, modulo their range. -/
def ofInt32 (i : Int) : Bytes := ofU32 (UInt32.ofInt i)

/-- A signed number in two bytes, modulo their range. -/
def ofInt16 (i : Int) : Bytes := ofU16 (UInt16.ofInt i)

def u16 (a b : UInt8) : UInt16 := a.toUInt16 <<< 8 ||| b.toUInt16

def u32 (a b c d : UInt8) : UInt32 := (u16 a b).toUInt32 <<< 16 ||| (u16 c d).toUInt32

def int16 (a b : UInt8) : Int := (u16 a b).toInt16.toInt

/-- Four bytes as a signed number. -/
def int32 (a b c d : UInt8) : Int := (u32 a b c d).toInt32.toInt

/-- Reads a signed number of four bytes. -/
def takeInt32? : Bytes → Option (Int × Bytes)
  | a :: b :: c :: d :: rest => some (int32 a b c d, rest)
  | _ => none

/-- Reads `n` signed numbers of four bytes. -/
def takeInt32s? : Nat → Bytes → Option (List Int × Bytes)
  | 0, bs => some ([], bs)
  | n + 1, bs => do
    let (v, bs) ← takeInt32? bs
    let (vs, bs) ← takeInt32s? n bs
    return (v :: vs, bs)

/-- The first `n` bytes and the rest, if there are so many. -/
def split? (n : Nat) (bs : Bytes) : Option (Bytes × Bytes) :=
  let (front, rest) := bs.splitAt n
  if front.length = n then some (front, rest) else none

end Bytes

end Classwright
