import Classwright.Bytes
import Std.Data.HashMap

/-!
Constant pools.

A pool keeps its entries in the order they were added and adds none twice. Index 0 is not used, nor
is the index after a `long` or `double`. Once an entry does not fit, the pool has overflowed.
-/

namespace Classwright

/-- An entry of a pool; references are indices. -/
inductive Entry where
  | utf8 (text : String)
  | int (bits : UInt32)
  | float (bits : UInt32)
  | long (bits : UInt64)
  | double (bits : UInt64)
  | cls (name : UInt16)
  | str (text : UInt16)
  | field (owner nameAndType : UInt16)
  | method (owner nameAndType : UInt16)
  | interfaceMethod (owner nameAndType : UInt16)
  | nameAndType (name desc : UInt16)
  deriving DecidableEq, Hashable, Repr

namespace Entry

def tag : Entry → Nat
  | utf8 _ => 1
  | int _ => 3
  | float _ => 4
  | long _ => 5
  | double _ => 6
  | cls _ => 7
  | str _ => 8
  | field .. => 9
  | method .. => 10
  | interfaceMethod .. => 11
  | nameAndType .. => 12

/-- Whether the entry takes two indices. -/
def isWide : Entry → Bool
  | long _ | double _ => true
  | _ => false

/-- The indices an entry takes. -/
def slots (e : Entry) : Nat := if e.isWide then 2 else 1

end Entry

/-- A constant pool. -/
structure Pool where
  entries : Array (Option Entry) := #[none]
  index : Std.HashMap Entry UInt16 := ∅
  overflowed : Bool := false

/-- A reference to a field or method, resolved. -/
structure MemberRef where
  owner : String
  name : String
  desc : String
  isInterface : Bool
  deriving DecidableEq, Repr

/-- Why an index does not resolve. -/
inductive PoolError where
  | badIndex (i : UInt16)
  | badTag (i : UInt16) (tag : Nat) (wanted : List Nat)
  deriving DecidableEq, Repr

def PoolError.message : PoolError → String
  | badIndex i => s!"invalid constant pool index {i.toNat}"
  | badTag i tag wanted =>
    let list := " ".intercalate (wanted.map toString)
    s!"constant pool index {i.toNat} has tag {tag}, want [{list}]"

/-- Computations that may add entries to a pool. -/
abbrev PoolM := StateM Pool

namespace Pool

def empty : Pool := {}

instance : Inhabited Pool := ⟨empty⟩

/-- One more than the highest index. -/
def count (p : Pool) : Nat := p.entries.size

/-- The largest count a pool may have. -/
def limit : Nat := 65535

/-! ### Adding -/

/-- The index of an entry, which is added if need be; 0 if it does not fit. -/
def add (e : Entry) : PoolM UInt16 := fun p =>
  match p.index[e]? with
  | some i => (i, p)
  | none =>
    if p.count + e.slots > limit then (0, { p with overflowed := true })
    else
      let i := UInt16.ofNat p.count
      let entries := p.entries.push (some e)
      let entries := if e.isWide then entries.push none else entries
      (i, { p with entries, index := p.index.insert e i })

def utf8 (s : String) : PoolM UInt16 := add (.utf8 s)

/-- A class by internal name or array descriptor. -/
def cls (name : String) : PoolM UInt16 := do add (.cls (← utf8 name))

def str (s : String) : PoolM UInt16 := do add (.str (← utf8 s))

def int (v : Int32) : PoolM UInt16 := add (.int v.toUInt32)

def float (bits : UInt32) : PoolM UInt16 := add (.float bits)

def long (v : Int64) : PoolM UInt16 := add (.long v.toUInt64)

def double (bits : UInt64) : PoolM UInt16 := add (.double bits)

def nameAndType (name desc : String) : PoolM UInt16 := do
  let n ← utf8 name
  let d ← utf8 desc
  add (.nameAndType n d)

def field (owner name desc : String) : PoolM UInt16 := do
  let c ← cls owner
  let n ← nameAndType name desc
  add (.field c n)

/-- A method, or a method of an interface. -/
def method (owner name desc : String) (isInterface : Bool) : PoolM UInt16 := do
  let c ← cls owner
  let n ← nameAndType name desc
  add (if isInterface then .interfaceMethod c n else .method c n)

/-! ### Resolving -/

/-- The entry at an index. -/
def entry (p : Pool) (i : UInt16) : Except PoolError Entry :=
  match p.entries[i.toNat]? with
  | some (some e) => .ok e
  | _ => .error (.badIndex i)

/-- The text at an index. -/
def utf8At (p : Pool) (i : UInt16) : Except PoolError String := do
  match ← p.entry i with
  | .utf8 s => return s
  | e => throw (.badTag i e.tag [1])

/-- The class name at an index. -/
def classAt (p : Pool) (i : UInt16) : Except PoolError String := do
  match ← p.entry i with
  | .cls name => p.utf8At name
  | e => throw (.badTag i e.tag [7])

/-- The name and descriptor at an index. -/
def nameAndTypeAt (p : Pool) (i : UInt16) : Except PoolError (String × String) := do
  match ← p.entry i with
  | .nameAndType n d => return (← p.utf8At n, ← p.utf8At d)
  | e => throw (.badTag i e.tag [12])

/-- The field or method at an index. -/
def memberAt (p : Pool) (i : UInt16) : Except PoolError MemberRef := do
  let resolve (owner nt : UInt16) (isInterface : Bool) : Except PoolError MemberRef := do
    let owner ← p.classAt owner
    let (name, desc) ← p.nameAndTypeAt nt
    return ⟨owner, name, desc, isInterface⟩
  match ← p.entry i with
  | .field c n | .method c n => resolve c n false
  | .interfaceMethod c n => resolve c n true
  | e => throw (.badTag i e.tag [9, 10, 11])

end Pool

end Classwright
