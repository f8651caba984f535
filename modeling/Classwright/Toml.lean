import Classwright.Text.Hex

/-!
Settings text as a tree of tables. How a text is read is left to a `Parser`.
-/

namespace Classwright.Toml

/-- A key by its parts, outermost first. -/
abbrev Key := List String

/-- A value in a document. Of the elements of an array nothing is kept. -/
inductive Node where
  | text (s : String)
  | int (i : Int)
  | float (bits : UInt64)
  | bool (b : Bool)
  | moment
  | array
  | table (entries : List (String × Node))
  /-- Tables under one name, the latest first. -/
  | tables (rows : List (List (String × Node)))

abbrev Table := List (String × Node)

/-- The tree of a text and its keys in the order in which they were given. -/
structure Document where
  root : Table
  keys : List Key

/-- Reads texts; what is not well formed has no document. -/
class Parser where
  document? : String → Option Document

/-! ### Keys in messages -/

def isBare (c : Char) : Bool := c.isAlphanum || c == '_' || c == '-'

/-- A character of a quoted key part. -/
def quoteKeyChar (c : Char) : String :=
  match c with
  | '"' => "\\\""
  | '\\' => "\\\\"
  | '\x08' => "\\b"
  | '\t' => "\\t"
  | '\n' => "\\n"
  | '\x0c' => "\\f"
  | '\r' => "\\r"
  | c => if c.toNat < 0x20 ∨ c.toNat = 0x7F then "\\u" ++ Text.hex 4 c.toNat else String.singleton c

def keyPartText (s : String) : String :=
  if s.toList.all isBare && s != "" then s
  else "\"" ++ String.join (s.toList.map quoteKeyChar) ++ "\""

/-- A key with dots between its parts, which are quoted where they must be. -/
def Key.text (key : Key) : String := ".".intercalate (key.map keyPartText)

end Classwright.Toml
