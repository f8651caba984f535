import Classwright.Text.CharClass
import Classwright.Text.Hex

/-!
Quoted text, as it stands in messages and listings. The quotation mark and the backslash are
escaped, printable characters stand for themselves, and every other character has an escape: a
letter for the common controls, then `\x`, `\u` or `\U` by the size of the code point.
-/

namespace Classwright.Text

/-- The escape letter of a common control character. -/
def controlLetter? (c : Char) : Option Char :=
  match c.toNat with
  | 7 => some 'a'
  | 8 => some 'b'
  | 12 => some 'f'
  | 10 => some 'n'
  | 13 => some 'r'
  | 9 => some 't'
  | 11 => some 'v'
  | _ => none

/-- One character between quotation marks `mark`. -/
def quoteChar (mark c : Char) : String :=
  if c = mark ∨ c = '\\' then String.ofList ['\\', c]
  else if isPrintable c then String.singleton c
  else match controlLetter? c with
    | some l => String.ofList ['\\', l]
    | none =>
      if c.toNat < 0x20 ∨ c.toNat = 0x7F then "\\x" ++ hex 2 c.toNat
      else if c.toNat < 0x10000 then "\\u" ++ hex 4 c.toNat
      else "\\U" ++ hex 8 c.toNat

/-- A text between double quotation marks. -/
def quoted (s : String) : String :=
  "\"" ++ String.join (s.toList.map (quoteChar '"')) ++ "\""

/-- A character between single quotation marks. -/
def quotedChar (c : Char) : String :=
  "'" ++ quoteChar '\'' c ++ "'"

end Classwright.Text
