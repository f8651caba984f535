import Classwright.Bytes
import Classwright.Text.Hex
import Classwright.Text.Utf16

/-!
Modified UTF-8, the form of texts in class files: each sixteen-bit unit is coded on its own in one
to three bytes, and zero takes two, so that no byte of a text is zero.
-/

namespace Classwright

inductive TextError where
  | truncated (i : Nat)
  | invalid (byte : UInt8) (i : Nat)
  deriving DecidableEq, Repr

def TextError.message : TextError → String
  | truncated i => s!"truncated utf8 sequence at {i}"
  | invalid b i => s!"invalid utf8 byte 0x{Text.hexPadded true 2 b.toNat} at {i}"

namespace ModifiedUtf8

/-- The six bits of a unit above its lowest `n`, as the byte that continues a sequence. -/
def continuation (u n : UInt16) : UInt8 := 0x80 ||| (u >>> n &&& 0x3F).toUInt8

/-- The bytes of a unit. -/
def encodeUnit (u : UInt16) : Bytes :=
  if u ≠ 0 ∧ u < 0x80 then [u.toUInt8]
  else if u < 0x800 then
    [(0xC0 : UInt8) ||| (u >>> 6).toUInt8, continuation u 0]
  else
    [(0xE0 : UInt8) ||| (u >>> 12).toUInt8, continuation u 6, continuation u 0]

def encode (s : String) : Bytes := (Text.units s).flatMap encodeUnit

/-- The units of bytes that start at position `i`, onto those before them. -/
def decodeOnto (done : List UInt16) (i : Nat) : Bytes → Except TextError (List UInt16)
  | [] => .ok done.reverse
  | a :: rest =>
    if a < 0x80 then decodeOnto (a.toUInt16 :: done) (i + 1) rest
    else if a &&& 0xE0 = 0xC0 then
      match rest with
      | b :: rest =>
        let u := (a &&& 0x1F).toUInt16 <<< 6 ||| (b &&& 0x3F).toUInt16
        decodeOnto (u :: done) (i + 2) rest
      | [] => .error (.truncated i)
    else if a &&& 0xF0 = 0xE0 then
      match rest with
      | b :: c :: rest =>
        let u := (a &&& 0x0F).toUInt16 <<< 12 ||| (b &&& 0x3F).toUInt16 <<< 6
          ||| (c &&& 0x3F).toUInt16
        decodeOnto (u :: done) (i + 3) rest
      | _ => .error (.truncated i)
    else .error (.invalid a i)

/-- The text of bytes. Continuation bytes are not checked. -/
def decode (bs : Bytes) : Except TextError String := Text.ofUnits <$> decodeOnto [] 0 bs

end ModifiedUtf8

end Classwright
