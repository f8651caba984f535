import Classwright.Bytecode.Program

/-!
Assembly programs in source form.

A directive is a list of words: its name and its operands, which are numbers, texts and lists. Bytes
and bit patterns are texts in hexadecimal, and an opcode is a mnemonic or a number.
-/

namespace Classwright

/-- A word of a directive. -/
inductive Word where
  | none
  | int (i : Int)
  | text (s : String)
  | list (ws : List Word)
  deriving Inhabited

namespace Word

def toInt : Word → Int
  | int i => i
  | _ => 0

def toText : Word → String
  | text s => s
  | _ => ""

def text? : Word → Option String
  | text s => some s
  | _ => Option.none

def toList : Word → List Word
  | list ws => ws
  | _ => []

def texts (w : Word) : List String := w.toList.map toText

def int32 (w : Word) : Int32 := .ofInt w.toInt

/-- The number that hexadecimal digits stand for. -/
def bits (w : Word) : Nat := (Text.hexNat? w.toText.toList).getD 0

def bytes (w : Word) : Bytes := (Text.bytesOfHex? w.toText.toList).getD []

def opcode : Word → Opcode
  | text s => (Opcode.ofName? s).getD ⟨0⟩
  | w => ⟨.ofInt w.toInt⟩

end Word

/-- A constant from the name of its kind and its parts. -/
def PoolConst.ofWords (ws : List Word) : PoolConst :=
  let v := ws.getD 1 .none
  let s (i : Nat) : String := (ws.getD i .none).toText
  match s 0 with
  | "class" => .cls (s 1)
  | "string" => .str (s 1)
  | "int" => .int v.int32
  | "float" => .float (.ofNat v.bits)
  | "long" => .long (.ofInt v.toInt)
  | "double" => .double (.ofNat v.bits)
  | "nat" => .nameAndType (s 1) (s 2)
  | "field" => .field (s 1) (s 2) (s 3)
  | "method" => .method (s 1) (s 2) (s 3) false
  | "imethod" => .method (s 1) (s 2) (s 3) true
  | _ => .utf8 (s 1)

/-- A directive from its words. -/
def Directive.ofWords (ws : List Word) : Directive :=
  let w (i : Nat) : Word := ws.getD i .none
  let s (i : Nat) : String := (w i).toText
  let op := (w 1).opcode
  match s 0 with
  | "raw" => .ops ((w 1).bytes.map Opcode.mk)
  | "nops" => .ops (List.replicate (w 1).toInt.toNat ⟨0⟩)
  | "u8" | "i8" => .byte op (.ofInt (w 2).toInt)
  | "u16" | "i16" => .short op (.ofInt (w 2).toInt)
  | "local" => .slot op (w 2).toInt
  | "jump" => .jump op (s 2)
  | "mark" => .mark (s 1)
  | "join" => .join (s 1)
  | "here" => .here (s 1)
  | "table" => .table (w 1).int32 (w 2).int32 (s 3) (w 4).texts
  | "lookup" => .lookup (s 1) ((w 2).toList.map Word.int32) (w 3).texts
  | "iface" => .interface (.method (s 1) (s 2) (s 3) true) (.ofInt (w 4).toInt)
  | "handler" => .guard (s 1) (s 2) (s 3) (w 4).text?
  | "ref" => .ref op (.ofWords (ws.drop 2))
  | "ldc" => .ldc (.ofWords (ws.drop 1))
  | _ => .ops [op]

end Classwright
