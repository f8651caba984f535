import Classwright.Bytes

/-!
Concise binary objects.

An `Item` is a tree of integers, byte and text strings, arrays, maps, tags and simple values. How
items are written as bytes and read again is left to a `Codec`. What is decided here is the
canonical order of maps, and what kind of value an item stands for.
-/

namespace Classwright.Cbor

/-- A data item. A text has the chunks it was written in, a map its keys and values in turn, and
`negative n` is `-1 - n`. The value of a floating-point number is not kept. -/
inductive Item where
  | uint (n : Nat)
  | negative (n : Nat)
  | bytes (data : Bytes)
  | text (chunks : List Bytes)
  | array (items : List Item)
  | map (items : List Item)
  | tag (n : Nat) (item : Item)
  | simple (n : Nat)
  | float

instance : Inhabited Item := ⟨.uint 0⟩

def Item.ofString (s : String) : Item := .text [s.toUTF8.toList]

def Item.ofInt (i : Int) : Item := if 0 ≤ i then .uint i.toNat else .negative (-1 - i).toNat

/-- Writes items as bytes and reads them. -/
class Codec where
  encode : Item → Bytes
  /-- The item that some bytes are; nothing may follow it. -/
  decode? : Bytes → Option Item

/-! ### Canonical order -/

/-- Whether a key comes first in canonical order: the shorter one, or else the lesser bytes. -/
def keyBefore (a b : Bytes) : Bool :=
  if a.length = b.length then a ≤ b else a.length < b.length

/-- A map with text keys in canonical order. -/
def Item.textMap [Codec] (pairs : List (String × Item)) : Item :=
  let sorted := pairs.mergeSort fun a b =>
    keyBefore (Codec.encode (.ofString a.1)) (Codec.encode (.ofString b.1))
  .map (sorted.flatMap fun (k, v) => [.ofString k, v])

/-! ### Values of a kind -/

def pairs : List Item → List (Item × Item)
  | k :: v :: rest => (k, v) :: pairs rest
  | _ => []

def Item.isNull : Item → Bool
  | .simple n => n = 22 || n = 23
  | _ => false

/-- Whether the content of a tag is of the kind that the tag asks for: times are texts or numbers,
and large integers are byte strings. -/
def Item.fitsTag (n : Nat) (item : Item) : Bool :=
  match n, item with
  | 0, .text _ => true
  | 1, .uint _ | 1, .negative _ | 1, .float => true
  | 2, .bytes _ | 3, .bytes _ => true
  | n, _ => 4 ≤ n

def bigNat (data : Bytes) : Nat := data.foldl (fun v d => 256 * v + d.toNat) 0

def ofChunks? (chunks : List Bytes) : Option String :=
  chunks.foldlM (fun s c => (String.fromUTF8? ⟨c.toArray⟩).map (s ++ ·)) ""

/-- An integer in sixty-four bits; null is the given one. -/
def Item.int? (default : Int) : Item → Option Int
  | .uint n => if n < 9223372036854775808 then some n else none
  | .negative n => if n < 9223372036854775808 then some (-1 - n) else none
  | .simple n => if n = 20 ∨ n = 21 then none else if n = 22 ∨ n = 23 then some default else some n
  | .tag 2 (.bytes data) => if bigNat data < 9223372036854775808 then some (bigNat data) else none
  | .tag 3 (.bytes data) =>
    if bigNat data < 9223372036854775808 then some (-1 - bigNat data) else none
  | .tag n item => if item.fitsTag n then item.int? default else none
  | _ => none

/-- A text; null is the empty text. -/
def Item.text? : Item → Option String
  | .text chunks => ofChunks? chunks
  | .tag n item => if item.fitsTag n && n ≠ 2 && n ≠ 3 then item.text? else none
  | item => if item.isNull then some "" else none

/-- Cuts or fills with zeros to a length. -/
def sized (n : Nat) (data : Bytes) : Bytes := (data ++ List.replicate n 0).take n

/-- Bytes of a fixed number, from a byte string or an array of numbers; null is zeros. -/
def Item.fixed? (n : Nat) : Item → Option Bytes
  | .bytes data => some (sized n data)
  | .array items => do
    let data ← (items.take n).mapM fun i => do
      let v ← i.int? 0
      if 0 ≤ v ∧ v ≤ 255 then some (UInt8.ofInt v) else none
    return sized n data
  | .tag t item => if item.fitsTag t then item.fixed? n else none
  | item => if item.isNull then some (List.replicate n 0) else none

/-- A map; null is the empty map. -/
def Item.map? : Item → Option (List (Item × Item))
  | .map items => some (pairs items)
  | .tag n item => if item.fitsTag n && n ≠ 2 && n ≠ 3 then item.map? else none
  | item => if item.isNull then some [] else none

/-- A key of a record: its number, if it has one. A text stands for the number it spells. -/
def Item.fieldKey? : Item → Option (Option Nat)
  | .uint n => some (some n)
  | .negative n => if n < 9223372036854775808 then some none else none
  | .text chunks => (ofChunks? chunks).map fun s =>
    match s.toList with
    | [c] => if c.isDigit then some (c.toNat - 48) else none
    | _ => none
  | _ => none

/-- The fields of a record by number, the first of each. -/
def Item.fields? (item : Item) : Option (List (Nat × Item)) := do
  let fields ← (← item.map?).mapM fun (k, v) => do return (← k.fieldKey?, v)
  return fields.filterMap fun (k, v) => k.map (·, v)

end Classwright.Cbor
