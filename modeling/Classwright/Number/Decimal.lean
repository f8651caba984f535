import Classwright.Number.Binary

/-!
Decimal text of binary numbers.

`shortest` finds the fewest digits that read back as the same pattern and, among those, the nearest
to the number. `ofDecimal` reads digits back. `Decimal.general` is the notation of messages:
positional in a middle range, scientific outside it.
-/

namespace Classwright.Number

/-- A positive decimal `0.d₁d₂… * 10 ^ point`, its digits without a trailing zero. Zero has no
digits. -/
structure Decimal where
  digits : List Nat
  point : Int
  deriving DecidableEq, Repr

/-- The digits of `n`, most significant first; none for zero. -/
def decimalDigits (n : Nat) : List Nat :=
  if n = 0 then [] else decimalDigits (n / 10) ++ [n % 10]

def Decimal.ofScaled (n : Nat) (exponent : Int) : Decimal :=
  let ds := decimalDigits n
  ⟨(ds.reverse.dropWhile (· = 0)).reverse, exponent + ds.length⟩

/-- The pattern nearest to `± n * 10 ^ exponent`. -/
def ofDecimal (f : Format) (negative : Bool) (n : Nat) (exponent : Int) : Nat :=
  if exponent < 0 then round f negative n (Nat.pow 10 (-exponent).toNat)
  else round f negative (n * Nat.pow 10 exponent.toNat) 1

/-- The greatest power of ten not above `num / den`, for positive operands, found by at most `fuel`
corrections of a guess. -/
def log10Ratio (fuel : Nat) (guess : Int) (num den : Nat) : Int :=
  match fuel with
  | 0 => guess
  | fuel + 1 =>
    let reached (e : Int) : Bool :=
      if e < 0 then den ≤ num * Nat.pow 10 (-e).toNat else den * Nat.pow 10 e.toNat ≤ num
    if !reached guess then log10Ratio fuel (guess - 1) num den
    else if reached (guess + 1) then log10Ratio fuel (guess + 1) num den
    else guess

/-- On the grid of `10 ^ exponent`, the point nearest to `value / den` among its two neighbours that
lie between `low` and `high` over `den`, ends included if `closed`; a tie goes to the even one. -/
def nearestOnGrid (exponent : Int) (low value high den : Nat) (closed : Bool) : Option Nat :=
  let up := if exponent < 0 then Nat.pow 10 (-exponent).toNat else 1
  let unit := if exponent < 0 then den else den * Nat.pow 10 exponent.toNat
  let fits (c : Nat) : Bool :=
    let x := c * unit
    if closed then low * up ≤ x ∧ x ≤ high * up else low * up < x ∧ x < high * up
  let below := value * up / unit
  let gap := value * up - below * unit
  match below != 0 && fits below, fits (below + 1) with
  | true, true =>
    if 2 * gap < unit ∨ (2 * gap = unit ∧ below % 2 = 0) then some below else some (below + 1)
  | true, false => some below
  | false, true => some (below + 1)
  | false, false => none

/-- Tries grids of more and more digits until one has a point in the rounding interval. -/
def searchDigits (fuel : Nat) (exponent : Int) (low value high den : Nat) (closed : Bool) :
    Decimal :=
  match nearestOnGrid exponent low value high den closed with
  | some n => .ofScaled n exponent
  | none =>
    match fuel with
    | 0 => ⟨[], 0⟩
    | fuel + 1 => searchDigits fuel (exponent - 1) low value high den closed

/-- The fewest digits that read back as the magnitude `mantissa * 2 ^ scale` of format `f`. -/
def shortest (f : Format) (mantissa : Nat) (scale : Int) : Decimal :=
  if mantissa = 0 then ⟨[], 0⟩
  else
    -- The rounding interval in units of a quarter of the last place.
    let value := 4 * mantissa
    let high := value + 2
    let low := if mantissa = Nat.pow 2 f.fraction ∧ scale > f.minScale then value - 1 else value - 2
    let place := scale - 2
    let up := if place < 0 then 1 else 1 <<< place.toNat
    let den := if place < 0 then 1 <<< (-place).toNat else 1
    let guess := log2Ratio (value * up) den * 3 / 10
    let top := log10Ratio 40 guess (value * up) den
    searchDigits 20 top (low * up) (value * up) (high * up) den (mantissa % 2 = 0)

/-! ### Notations -/

def digitChar (d : Nat) : Char := Char.ofNat (48 + d)

/-- The digits of a decimal with a decimal point among them, such as `12.5` or `0.03`. -/
def Decimal.positional (d : Decimal) : String :=
  let chars := d.digits.map digitChar
  if d.digits.isEmpty then "0"
  else if d.point ≤ 0 then
    "0." ++ String.ofList (List.replicate (-d.point).toNat '0' ++ chars)
  else
    let whole := d.point.toNat
    let head := chars.take whole ++ List.replicate (whole - chars.length) '0'
    let tail := chars.drop whole
    if tail.isEmpty then String.ofList head else String.ofList (head ++ '.' :: tail)

/-- The digits with the point after the first, such as `1.25` or `3`. -/
def Decimal.leading (d : Decimal) : String :=
  match d.digits.map digitChar with
  | [] => "0"
  | [c] => String.singleton c
  | c :: rest => String.ofList (c :: '.' :: rest)

/-- The power of ten that goes with `leading`. -/
def Decimal.exponent (d : Decimal) : Int :=
  if d.digits.isEmpty then 0 else d.point - 1

/-- An exponent with its sign and at least two digits. -/
def signedExponent (e : Int) : String :=
  let digits := toString e.natAbs
  (if e < 0 then "-" else "+") ++ (if digits.length < 2 then "0" ++ digits else digits)

/-- General notation: positional from `10 ^ -4` to below `10 ^ 6`, scientific with a signed
two-digit exponent outside. -/
def Decimal.general (d : Decimal) : String :=
  if d.exponent < -4 ∨ d.exponent ≥ 6 then d.leading ++ "e" ++ signedExponent d.exponent
  else d.positional

def generalText (f : Format) (bits : Nat) : String :=
  match decode f bits with
  | .notANumber => "NaN"
  | .infinite negative => if negative then "-Inf" else "+Inf"
  | .finite negative m e => (if negative then "-" else "") ++ (shortest f m e).general

end Classwright.Number
