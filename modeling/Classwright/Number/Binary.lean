/-!
Binary floating-point numbers as bit patterns.

A `Format` fixes the widths of the two fields; `decode` reads a pattern as a `Datum`, a sign, a
whole mantissa and a power of two, and `round` gives the pattern nearest to a quotient, a tie going
to the even one. Every operation is exact on data followed by one rounding, so nothing here depends
on the arithmetic of the machine that runs it.
-/

namespace Classwright.Number

/-- A binary interchange format: the widths of the stored fraction and of the exponent. -/
structure Format where
  fraction : Nat
  exponent : Nat

def single : Format := ⟨23, 8⟩

def double : Format := ⟨52, 11⟩

namespace Format

variable (f : Format)

/-- The power of two that the last place of the smallest numbers counts. -/
def minScale : Int := 2 - (Nat.pow 2 (f.exponent - 1) : Int) - f.fraction

/-- The pattern of positive infinity; patterns above it are not numbers. -/
def infinity : Nat := (Nat.pow 2 f.exponent - 1) * Nat.pow 2 f.fraction

def signBit : Nat := Nat.pow 2 (f.fraction + f.exponent)

/-- The pattern used for every result that is not a number. -/
def quietNaN : Nat := f.infinity + Nat.pow 2 (f.fraction - 1)

end Format

/-- What a bit pattern stands for: `finite` is `± mantissa * 2 ^ scale`. -/
inductive Datum where
  | notANumber
  | infinite (negative : Bool)
  | finite (negative : Bool) (mantissa : Nat) (scale : Int)
  deriving DecidableEq, Repr

def decode (f : Format) (bits : Nat) : Datum :=
  let negative := bits / f.signBit % 2 = 1
  let field := bits / Nat.pow 2 f.fraction % Nat.pow 2 f.exponent
  let rest := bits % Nat.pow 2 f.fraction
  if field = Nat.pow 2 f.exponent - 1 then
    if rest = 0 then .infinite negative else .notANumber
  else if field = 0 then .finite negative rest f.minScale
  else .finite negative (rest + Nat.pow 2 f.fraction) (f.minScale + field - 1)

/-- Adds the sign bit to the pattern of a magnitude. -/
def withSign (f : Format) (negative : Bool) (magnitude : Nat) : Nat :=
  if negative then f.signBit + magnitude else magnitude

/-- The greatest power of two not above `num / den`, for positive operands. -/
def log2Ratio (num den : Nat) : Int :=
  let guess : Int := (Nat.log2 num : Int) - Nat.log2 den
  let reached := if guess < 0 then den ≤ num <<< (-guess).toNat else den <<< guess.toNat ≤ num
  if reached then guess else guess - 1

/-- `num / den` rounded to a whole number, a tie going to the even one. -/
def roundQuotient (num den : Nat) : Nat :=
  let q := num / den
  let twice := 2 * (num % den)
  if twice > den ∨ (twice = den ∧ q % 2 = 1) then q + 1 else q

/-- The pattern nearest to `± num / den`; magnitudes past the largest number become infinite. -/
def round (f : Format) (negative : Bool) (num den : Nat) : Nat :=
  if num = 0 then withSign f negative 0
  else
    let scale := max f.minScale (log2Ratio num den - f.fraction)
    let q := if scale < 0 then roundQuotient (num <<< (-scale).toNat) den
      else roundQuotient num (den <<< scale.toNat)
    withSign f negative (min f.infinity ((scale - f.minScale).toNat * Nat.pow 2 f.fraction + q))

/-- The pattern nearest to `± mantissa * 2 ^ scale`. -/
def roundScaled (f : Format) (negative : Bool) (mantissa : Nat) (scale : Int) : Nat :=
  if scale < 0 then round f negative mantissa (1 <<< (-scale).toNat)
  else round f negative (mantissa <<< scale.toNat) 1

def encode (f : Format) : Datum → Nat
  | .notANumber => f.quietNaN
  | .infinite negative => withSign f negative f.infinity
  | .finite negative mantissa scale => roundScaled f negative mantissa scale

def ofInt (f : Format) (n : Int) : Nat := round f (n < 0) n.natAbs 1

/-! ### Arithmetic -/

namespace Datum

/-- The signed mantissa of a finite datum counted in units of `2 ^ unit`, for `unit` at most its
scale. -/
def units (negative : Bool) (mantissa : Nat) (scale unit : Int) : Int :=
  let n : Int := mantissa <<< (scale - unit).toNat
  if negative then -n else n

def neg : Datum → Datum
  | .notANumber => .notANumber
  | .infinite s => .infinite (!s)
  | .finite s m e => .finite (!s) m e

/-- The exact sum; a zero sum is negative only when both operands are. -/
def add : Datum → Datum → Datum
  | .notANumber, _ | _, .notANumber => .notANumber
  | .infinite s, .infinite t => if s = t then .infinite s else .notANumber
  | .infinite s, _ => .infinite s
  | _, .infinite t => .infinite t
  | .finite s m e, .finite t n d =>
    let unit := min e d
    let total := units s m e unit + units t n d unit
    if total = 0 then .finite (s && t) 0 unit
    else .finite (total < 0) total.natAbs unit

def sub (a b : Datum) : Datum := a.add b.neg

def mul : Datum → Datum → Datum
  | .notANumber, _ | _, .notANumber => .notANumber
  | .infinite s, .infinite t => .infinite (s != t)
  | .infinite s, .finite t n _ => if n = 0 then .notANumber else .infinite (s != t)
  | .finite s m _, .infinite t => if m = 0 then .notANumber else .infinite (s != t)
  | .finite s m e, .finite t n d => .finite (s != t) (m * n) (e + d)

/-- The remainder of a quotient cut toward zero; it has the sign of the dividend. -/
def rem : Datum → Datum → Datum
  | .finite s m e, .finite t n d =>
    if n = 0 then .notANumber
    else
      let unit := min e d
      let x := (units false m e unit).natAbs
      let y := (units (t && false) n d unit).natAbs
      .finite s (x % y) unit
  | .finite s m e, .infinite _ => .finite s m e
  | _, _ => .notANumber

/-- Strict order of numbers; nothing is below or above a datum that is no number. -/
def lt : Datum → Datum → Bool
  | .notANumber, _ | _, .notANumber => false
  | .infinite s, .infinite t => s && !t
  | .infinite s, .finite .. => s
  | .finite .., .infinite t => !t
  | .finite s m e, .finite t n d =>
    let unit := min e d
    units s m e unit < units t n d unit

/-- Numerical equality: both zeros are equal, and a datum that is no number equals nothing. -/
def eq (a b : Datum) : Bool :=
  a != .notANumber && b != .notANumber && !a.lt b && !b.lt a

def isNaN (a : Datum) : Bool := a == .notANumber

def truncate : Datum → Int
  | .finite s m e =>
    let n : Int := if e < 0 then m >>> (-e).toNat else m <<< e.toNat
    if s then -n else n
  | _ => 0

end Datum

def divide (f : Format) : Datum → Datum → Nat
  | .notANumber, _ | _, .notANumber | .infinite _, .infinite _ => f.quietNaN
  | .infinite s, .finite t _ _ => withSign f (s != t) f.infinity
  | .finite s _ _, .infinite t => withSign f (s != t) 0
  | .finite s m e, .finite t n d =>
    if n = 0 then (if m = 0 then f.quietNaN else withSign f (s != t) f.infinity)
    else if e < d then round f (s != t) m (n <<< (d - e).toNat)
    else round f (s != t) (m <<< (e - d).toNat) n

inductive Arith where
  | add | sub | mul | div | rem
  deriving DecidableEq, Repr

/-- Applies an operator to two patterns of one format and rounds once. -/
def Arith.apply (op : Arith) (f : Format) (a b : Nat) : Nat :=
  let x := decode f a
  let y := decode f b
  match op with
  | .add => encode f (x.add y)
  | .sub => encode f (x.sub y)
  | .mul => encode f (x.mul y)
  | .div => divide f x y
  | .rem => encode f (x.rem y)

/-! ### Change of width -/

/-- Sixty-four bits from thirty-two; exact. What is no number keeps its leading payload and becomes
quiet. -/
def widen (bits : UInt32) : UInt64 :=
  let n := bits.toNat
  match decode single n with
  | .notANumber =>
    UInt64.ofNat (withSign double (n ≥ single.signBit)
      (double.infinity + ((n % 8388608 ||| 4194304) <<< 29)))
  | d => UInt64.ofNat (encode double d)

/-- Thirty-two bits from sixty-four, rounded to the nearest. -/
def narrow (bits : UInt64) : UInt32 :=
  let n := bits.toNat
  match decode double n with
  | .notANumber =>
    UInt32.ofNat (withSign single (n ≥ double.signBit)
      (single.infinity + ((n % 4503599627370496) >>> 29 ||| 4194304)))
  | d => UInt32.ofNat (encode single d)

end Classwright.Number
