import Classwright.Format.Toml.Reading

/-!
Documents of settings text.

`Document.ofText?` puts the entries of a text into a tree of tables. A key is given once; a table
that was only named on the way to another may still be opened, once. The document keeps the order in
which keys were given.
-/

namespace Classwright.Toml

namespace Table

def set (t : Table) (k : String) (n : Node) : Table :=
  if (t.lookup k).isSome then t.map fun (k', n') => (k', if k' = k then n else n')
  else t ++ [(k, n)]

/-- Changes the table at a path. Of several tables under one name the latest is meant. -/
def change? (f : Table → Option Table) : Key → Table → Option Table
  | [], t => f t
  | k :: ks, t =>
    match t.lookup k with
    | some (.table u) => (change? f ks u).map fun u => t.set k (.table u)
    | some (.tables (u :: us)) => (change? f ks u).map fun u => t.set k (.tables (u :: us))
    | _ => none

/-- The table at a path. -/
def at? : Key → Table → Option Table
  | [], t => some t
  | k :: ks, t =>
    match t.lookup k with
    | some (.table u) | some (.tables (u :: _)) => at? ks u
    | _ => none

end Table

/-- A document in the making. `context` is the table that entries go into, `implied` has the tables
that may still be opened, `arrays` the keys whose values are arrays, and `order` the keys, latest
first. -/
structure Draft where
  root : Table := []
  context : Key := []
  implied : List Key := []
  arrays : List Key := []
  order : List Key := []

namespace Draft

def imply (d : Draft) (key : Key) : Draft := { d with implied := key :: d.implied }

def settle (d : Draft) (key : Key) : Draft := { d with implied := d.implied.filter (· != key) }

def ordered (d : Draft) (key : Key) : Draft := { d with order := key :: d.order }

/-- Gives a key of the current table a value. A key that has one keeps it if it was only implied. -/
def setValue (d : Draft) (k : String) (n : Node) : Option Draft := do
  let key := d.context ++ [k]
  let t ← Table.at? d.context d.root
  if (t.lookup k).isSome then
    if !d.implied.contains key then none
    else if d.arrays.contains key then
      let root ← Table.change? (fun t => some (t.set k n)) d.context d.root
      some ({ d with root }.settle key)
    else some (d.settle key)
  else
    let root ← Table.change? (fun t => some (t.set k n)) d.context d.root
    some { d with root }

/-- Makes the tables on the way to a key. -/
def makeParents (d : Draft) (done : Key) : Key → Option Draft
  | [] => some d
  | k :: ks => do
    let t ← Table.at? done d.root
    let d ← match t.lookup k with
      | some (.table _) | some (.tables _) => some d
      | some _ => none
      | none =>
        (Table.change? (fun t => some (t.set k (.table []))) done d.root).map fun root =>
          { d with root }.imply (done ++ [k])
    d.makeParents (done ++ [k]) ks

/-- Opens the table at a key, or one more table under its name. -/
def openTable (d : Draft) (key : Key) (several : Bool) : Option Draft := do
  let above := key.dropLast
  let k := key.getLastD ""
  let d ← d.makeParents [] above
  let d := { d with context := above }
  let d ← if several then
      (Table.change? (fun t =>
        match t.lookup k with
        | none => some (t.set k (.tables [[]]))
        | some (.tables us) => some (t.set k (.tables ([] :: us)))
        | some _ => none) above d.root).map fun root => { d with root }
    else d.setValue k (.table [])
  return { d with context := key }

/-- Opens tables one below the other, whether or not they were opened before. -/
def enter (d : Draft) : Key → Option Draft
  | [] => some d
  | k :: ks =>
    let key := d.context ++ [k]
    ((d.imply key).openTable key false).bind fun d => d.enter ks

mutual

/-- The node of a value under a key of the current table. -/
def node? (d : Draft) (k : String) (inArray : Bool) : Written → Option (Node × Draft)
  | .text s => some (.text s, d)
  | .int i => some (.int i, d)
  | .float bits => some (.float bits, d)
  | .bool b => some (.bool b, d)
  | .moment => some (.moment, d)
  | .array items =>
    (elements? { d with arrays := (d.context ++ [k]) :: d.arrays } k items).map (.array, ·)
  | .table entries =>
    let key := d.context ++ [k]
    ((d.imply key).openTable key inArray).bind fun inner =>
      (entries? inner entries).map fun inner => (.table [], { inner with context := d.context })

def elements? (d : Draft) (k : String) : List Written → Option Draft
  | [] => some d
  | v :: vs => (node? d k true v).bind fun (_, d) => elements? d k vs

/-- Gives a key a value, from the current table. -/
def assign? (d : Draft) : Entry → Option Draft
  | .mk key value =>
    (d.enter key.dropLast).bind fun inner =>
      let k := key.getLastD ""
      let inner := inner.ordered (inner.context ++ [k])
      (node? inner k false value).bind fun (n, inner) =>
        (inner.setValue k n).map fun inner => { inner with context := d.context }

def entries? (d : Draft) : List Entry → Option Draft
  | [] => some d
  | e :: es => (assign? d e).bind fun d => entries? d es

end

def line? (d : Draft) : Line → Option Draft
  | .table key => (d.openTable key false).map fun d => d.ordered key
  | .tables key => (d.openTable key true).map fun d => d.ordered key
  | .entry e => assign? d e

end Draft

def Document.ofText? (text : String) : Option Document := do
  let d ← (← lines? text).foldlM Draft.line? {}
  return ⟨d.root, d.order.reverse⟩

instance : Parser := ⟨Document.ofText?⟩

end Classwright.Toml
