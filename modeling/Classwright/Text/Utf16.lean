/-!
Text in sixteen-bit units.

Characters outside the basic plane take a pair of surrogates. A surrogate without its partner stands
for no character and is read as the replacement character.
-/

namespace Classwright.Text

def charUnits (c : Char) : List UInt16 :=
  if c.toNat < 0x10000 then [UInt16.ofNat c.toNat]
  else
    let v := c.toNat - 0x10000
    [UInt16.ofNat (0xD800 + v / 0x400), UInt16.ofNat (0xDC00 + v % 0x400)]

def units (s : String) : List UInt16 := s.toList.flatMap charUnits

/-- Whether a unit is the first half of a pair. -/
def isHigh (u : UInt16) : Bool := 0xD800 ≤ u && u < 0xDC00

/-- Whether a unit is the second half of a pair. -/
def isLow (u : UInt16) : Bool := 0xDC00 ≤ u && u < 0xE000

/-- The character of a pair of surrogates. -/
def pairChar (high low : UInt16) : Char :=
  Char.ofNat (0x10000 + (high.toNat - 0xD800) * 0x400 + (low.toNat - 0xDC00))

def ofUnitsList : List UInt16 → List Char
  | [] => []
  | [u] => [if isHigh u || isLow u then '�' else Char.ofNat u.toNat]
  | u :: v :: rest =>
    if isHigh u && isLow v then pairChar u v :: ofUnitsList rest
    else (if isHigh u || isLow u then '�' else Char.ofNat u.toNat) :: ofUnitsList (v :: rest)

def ofUnits (us : List UInt16) : String := String.ofList (ofUnitsList us)

/-- The hash that texts have at run time: the units as digits in base 31, in 32 bits. -/
def hash (s : String) : Int32 := (units s).foldl (fun h u => 31 * h + Int32.ofNat u.toNat) 0

end Classwright.Text
