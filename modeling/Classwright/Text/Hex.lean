/-!
Numbers and bytes in hexadecimal: `hex` pads a number to a width, `hexOfBytes` writes two digits a
byte and `bytesOfHex?` reads them back.
-/

namespace Classwright.Text

/-- The digit of a value below sixteen. -/
def hexDigit (upper : Bool) (n : Nat) : Char :=
  if n < 10 then Char.ofNat (n + 48) else Char.ofNat (n + (if upper then 55 else 87))

/-- The hexadecimal digits of `n`, most significant first; none for zero. -/
def hexDigits (upper : Bool) (n : Nat) : List Char :=
  if n = 0 then [] else hexDigits upper (n / 16) ++ [hexDigit upper (n % 16)]

/-- `n` in at least `width` digits, filled with zeros. -/
def hexPadded (upper : Bool) (width n : Nat) : String :=
  let digits := hexDigits upper n
  String.ofList (List.replicate (width - digits.length) '0' ++ digits)

/-- `n` in at least `width` lower-case digits. -/
def hex (width n : Nat) : String := hexPadded false width n

def hexOfBytes (bytes : List UInt8) : String :=
  String.ofList (bytes.flatMap fun b =>
    [hexDigit false (b.toNat / 16), hexDigit false (b.toNat % 16)])

def hexValue? (c : Char) : Option Nat :=
  if '0' ≤ c ∧ c ≤ '9' then some (c.toNat - 48)
  else if 'a' ≤ c ∧ c ≤ 'f' then some (c.toNat - 87)
  else if 'A' ≤ c ∧ c ≤ 'F' then some (c.toNat - 55)
  else none

/-- Reads a number in base sixteen; an empty text is no number. -/
def hexNat? (digits : List Char) : Option Nat :=
  if digits.isEmpty then none
  else digits.foldlM (fun n c => (hexValue? c).map (16 * n + ·)) 0

def bytesOfHex? : List Char → Option (List UInt8)
  | [] => some []
  | hi :: lo :: rest => do
    let h ← hexValue? hi
    let l ← hexValue? lo
    let bytes ← bytesOfHex? rest
    return UInt8.ofNat (16 * h + l) :: bytes
  | [_] => none

end Classwright.Text
