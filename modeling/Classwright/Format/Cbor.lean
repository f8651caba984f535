import Classwright.Cbor

/-!
The codec of the program.

Items are written with the shortest heads and definite lengths. Definite and indefinite lengths are
read, within a depth of thirty-two and up to 131072 elements or pairs.
-/

namespace Classwright.Cbor

/-! ### Writing -/

/-- The head of an item of a major type, in the shortest form. -/
def head (major : UInt8) (n : Nat) : Bytes :=
  let first (info : UInt8) : UInt8 := major <<< 5 ||| info
  if n < 24 then [first (UInt8.ofNat n)]
  else if n < 256 then [first 24, UInt8.ofNat n]
  else if n < 65536 then first 25 :: Bytes.ofU16 (UInt16.ofNat n)
  else if n < 4294967296 then first 26 :: Bytes.ofU32 (UInt32.ofNat n)
  else first 27 :: Bytes.ofU64 (UInt64.ofNat n)

mutual

def Item.encode : Item → Bytes
  | .uint n => head 0 n
  | .negative n => head 1 n
  | .bytes data => head 2 data.length ++ data
  | .text chunks => head 3 chunks.flatten.length ++ chunks.flatten
  | .array items => head 4 items.length ++ encodeAll items
  | .map items => head 5 (items.length / 2) ++ encodeAll items
  | .tag n item => head 6 n ++ item.encode
  | .simple n => head 7 n
  | .float => []

def encodeAll : List Item → Bytes
  | [] => []
  | i :: is => i.encode ++ encodeAll is

end

/-! ### Reading -/

/-- The head of an item: its major type, the low five bits, and its number. -/
structure Head where
  major : Nat
  info : Nat
  value : Nat

def readNumber (n : Nat) (bs : Bytes) : Option (Nat × Bytes) := do
  let (ds, rest) ← Bytes.split? n bs
  return (ds.foldl (fun v d => 256 * v + d.toNat) 0, rest)

/-- Reads a head. An indefinite length is the low bits 31; neither numbers nor tags have one, and
the one of a simple value ends an item instead of starting one. -/
def readHead : Bytes → Option (Head × Bytes)
  | [] => none
  | b :: bs => do
    let major := (b >>> 5).toNat
    let info := (b &&& 31).toNat
    if info < 24 then return (⟨major, info, info⟩, bs)
    else if info ≤ 27 then
      let (value, rest) ← readNumber (Nat.pow 2 (info - 24)) bs
      if major = 7 ∧ info = 24 ∧ value < 32 then none else return (⟨major, info, value⟩, rest)
    else if info = 31 ∧ 2 ≤ major ∧ major ≤ 5 then return (⟨major, info, info⟩, bs)
    else none

def readTimes (one : Bytes → Option (Item × Bytes)) : Nat → Bytes → Option (List Item × Bytes)
  | 0, bs => some ([], bs)
  | n + 1, bs => do
    let (i, rest) ← one bs
    let (is, rest) ← readTimes one n rest
    return (i :: is, rest)

/-- Reads items up to the byte that ends them. -/
def readOpen {α : Type} (one : Bytes → Option (α × Bytes)) : Nat → Bytes → Option (List α × Bytes)
  | 0, _ => none
  | fuel + 1, bs => do
    match bs with
    | 0xFF :: rest => return ([], rest)
    | bs =>
      let (i, rest) ← one bs
      let (is, rest) ← readOpen one fuel rest
      return (i :: is, rest)

/-- Reads a chunk of a string of a major type. -/
def readChunk (major : Nat) (bs : Bytes) : Option (Bytes × Bytes) := do
  let (h, rest) ← readHead bs
  if h.major = major ∧ h.info ≠ 31 then Bytes.split? h.value rest else none

def readChunks (h : Head) (bs : Bytes) : Option (List Bytes × Bytes) := do
  if h.info = 31 then readOpen (readChunk h.major) (bs.length + 1) bs
  else
    let (data, rest) ← Bytes.split? h.value bs
    return ([data], rest)

/-- How deep arrays, maps and runs of tags may nest. -/
def maxDepth : Nat := 32

/-- How many elements or pairs an item may have. -/
def maxCount : Nat := 131072

/-- Reads an item below `depth` others; `tagged` if it is the content of a tag. -/
def readItem : Nat → Nat → Bool → Bytes → Option (Item × Bytes)
  | 0, _, _, _ => none
  | fuel + 1, depth, tagged, bs => do
    let (h, rest) ← readHead bs
    match h.major with
    | 0 => return (.uint h.value, rest)
    | 1 => return (.negative h.value, rest)
    | 2 =>
      let (chunks, rest) ← readChunks h rest
      return (.bytes chunks.flatten, rest)
    | 3 =>
      let (chunks, rest) ← readChunks h rest
      return (.text chunks, rest)
    | 4 =>
      if maxDepth ≤ depth then none
      let one := readItem fuel (depth + 1) false
      if h.info = 31 then
        let (items, rest) ← readOpen one (rest.length + 1) rest
        if maxCount < items.length then none
        return (.array items, rest)
      else
        if maxCount < h.value then none
        let (items, rest) ← readTimes one h.value rest
        return (.array items, rest)
    | 5 =>
      if maxDepth ≤ depth then none
      let one := readItem fuel (depth + 1) false
      if h.info = 31 then
        let (items, rest) ← readOpen one (rest.length + 1) rest
        if items.length % 2 = 1 ∨ 2 * maxCount < items.length then none
        return (.map items, rest)
      else
        if maxCount < h.value then none
        let (items, rest) ← readTimes one (2 * h.value) rest
        return (.map items, rest)
    | 6 =>
      let depth := if tagged then depth + 1 else depth
      if maxDepth < depth then none
      let (item, rest) ← readItem fuel depth true rest
      return (.tag h.value item, rest)
    | _ =>
      if 25 ≤ h.info then return (.float, rest) else return (.simple h.value, rest)

def Item.read? (bs : Bytes) : Option Item :=
  match readItem (bs.length + 1) 0 false bs with
  | some (i, []) => some i
  | _ => none

instance : Codec := ⟨Item.encode, Item.read?⟩

end Classwright.Cbor
