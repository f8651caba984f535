import Classwright.Number.Decimal
import Classwright.Text.Hex

/-!
Reading numbers from decimal text.

A number is a sign, digits with an optional fraction, and an optional exponent; or one of the words
for infinity and for what is not a number, in any case.
-/

namespace Classwright.Number

def takeSign : List Char → Bool × List Char
  | '-' :: cs => (true, cs)
  | '+' :: cs => (false, cs)
  | cs => (false, cs)

def ofDigits (ds : List Char) : Nat := ds.foldl (fun n d => 10 * n + (d.toNat - 48)) 0

/-- An exponent, which must use up the text. No text is the exponent 0. -/
def readExponent? : List Char → Option Int
  | [] => some 0
  | c :: cs =>
    let (negative, ds) := takeSign cs
    if (c = 'e' ∨ c = 'E') ∧ !ds.isEmpty ∧ ds.all Char.isDigit then
      some (if negative then -(ofDigits ds : Int) else ofDigits ds)
    else none

/-- Digits with an optional fraction and exponent, as an integer and a power of ten. -/
def readDecimal? (cs : List Char) : Option (Nat × Int) :=
  let whole := cs.takeWhile Char.isDigit
  let (fraction, rest) := match cs.dropWhile Char.isDigit with
    | '.' :: r => (r.takeWhile Char.isDigit, r.dropWhile Char.isDigit)
    | r => ([], r)
  if whole.isEmpty ∧ fraction.isEmpty then none
  else (readExponent? rest).map fun e => (ofDigits (whole ++ fraction), e - fraction.length)

/-- The pattern nearest to `± n * 10 ^ exponent`, without computing powers that are far out of
range. -/
def ofDecimalBounded (f : Format) (negative : Bool) (n : Nat) (exponent : Int) : Nat :=
  let size := exponent + (decimalDigits n).length
  if n = 0 ∨ size < -400 then withSign f negative 0
  else if 400 < size then withSign f negative f.infinity
  else ofDecimal f negative n exponent

def ofText? (f : Format) (s : String) : Option Nat :=
  let (negative, cs) := takeSign s.toList
  match String.ofList (cs.map Char.toLower) with
  | "inf" | "infinity" => some (withSign f negative f.infinity)
  | "nan" => some f.quietNaN
  | _ => (readDecimal? cs).map fun (n, e) => ofDecimalBounded f negative n e

/-! ### Integers in any base -/

/-- Digits of a base, with single underscores between digits. -/
def readDigits? (base n : Nat) (afterDigit : Bool) : List Char → Option Nat
  | [] => if afterDigit then some n else none
  | '_' :: cs => if afterDigit then readDigits? base n false cs else none
  | c :: cs => do
    let d ← Text.hexValue? c
    if d < base then readDigits? base (base * n + d) true cs else none

/-- The base that a letter after a zero stands for. -/
def baseOf? (c : Char) : Option Nat :=
  match c.toLower with
  | 'b' => some 2
  | 'o' => some 8
  | 'x' => some 16
  | _ => none

/-- A number in decimal, or after a zero in octal or in the base of a letter. -/
def readNatural? : List Char → Option Nat
  | '0' :: [] => some 0
  | '0' :: c :: cs =>
    match baseOf? c, cs with
    | some base, _ :: _ => readDigits? base 0 true cs
    | _, _ => readDigits? 8 0 true (c :: cs)
  | cs => readDigits? 10 0 false cs

def readInt64? (s : String) : Option Int := do
  let (negative, cs) := takeSign s.toList
  let n ← readNatural? cs
  let i : Int := if negative then -(n : Int) else n
  if -9223372036854775808 ≤ i ∧ i ≤ 9223372036854775807 then some i else none

end Classwright.Number
