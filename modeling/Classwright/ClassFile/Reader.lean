import Classwright.ClassFile.Attribute

/-!
Reading class files.
-/

namespace Classwright

/-- Why bytes are no class file. -/
inductive ReadError where
  | unexpectedEnd (what : String)
  | badMagic (magic : UInt32)
  | badTag (tag : UInt8) (index : Nat)
  | badText (cause : TextError)
  | trailing (n : Nat)
  deriving DecidableEq, Repr

def ReadError.message : ReadError → String
  | unexpectedEnd what => s!"unexpected end of class file reading {what}"
  | badMagic magic => s!"bad magic 0x{Text.hexPadded true 8 magic.toNat}"
  | badTag tag index => s!"unsupported constant pool tag {tag.toNat} at index {index}"
  | badText cause => cause.message
  | trailing n => s!"{n} trailing bytes after class file"

/-- Computations that take bytes off the front of their input. -/
abbrev ReadM := StateT Bytes (Except ReadError)

namespace Read

def bytes (n : Nat) (what : String) : ReadM Bytes := fun bs =>
  match Bytes.split? n bs with
  | some r => .ok r
  | none => .error (.unexpectedEnd what)

def u16 (what : String) : ReadM UInt16 := fun bs =>
  match bs with
  | a :: b :: rest => .ok (Bytes.u16 a b, rest)
  | _ => .error (.unexpectedEnd what)

def u32 (what : String) : ReadM UInt32 := fun bs =>
  match bs with
  | a :: b :: c :: d :: rest => .ok (Bytes.u32 a b c d, rest)
  | _ => .error (.unexpectedEnd what)

def u64 (what : String) : ReadM UInt64 := fun bs =>
  match bs with
  | a :: b :: c :: d :: e :: f :: g :: h :: rest =>
    .ok ((Bytes.u32 a b c d).toUInt64 <<< 32 ||| (Bytes.u32 e f g h).toUInt64, rest)
  | _ => .error (.unexpectedEnd what)

/-- A tag; the end of the input counts as the tag 0. -/
def tag : ReadM UInt8 := fun bs =>
  match bs with
  | a :: rest => .ok (a, rest)
  | [] => .ok (0, [])

/-- Reads `n` things onto those before them. -/
def timesOnto {α : Type} (done : List α) (read : ReadM α) : Nat → ReadM (List α)
  | 0 => return done.reverse
  | n + 1 => do
    let a ← read
    timesOnto (a :: done) read n

/-- Reads `n` things. -/
def times {α : Type} (n : Nat) (read : ReadM α) : ReadM (List α) := timesOnto [] read n

def oneAttribute : ReadM Attribute := do
  let name ← u16 "attribute name"
  let size ← u32 "attribute length"
  return ⟨name, ← bytes size.toNat "attribute body"⟩

def attributes : ReadM (List Attribute) := do
  let n ← u16 "attribute count"
  times n.toNat oneAttribute

/-- The entry of a pool at an index. -/
def entry (index : Nat) : ReadM Entry := do
  let ref := u16 "constant reference"
  let t ← tag
  match t.toNat with
  | 1 =>
    let n ← u16 "utf8 length"
    let text ← bytes n.toNat "utf8 bytes"
    match ModifiedUtf8.decode text with
    | .ok s => return .utf8 s
    | .error e => throw (.badText e)
  | 3 => return .int (← u32 "constant")
  | 4 => return .float (← u32 "constant")
  | 5 => return .long (← u64 "constant")
  | 6 => return .double (← u64 "constant")
  | 7 => return .cls (← ref)
  | 8 => return .str (← ref)
  | 9 => return .field (← ref) (← ref)
  | 10 => return .method (← ref) (← ref)
  | 11 => return .interfaceMethod (← ref) (← ref)
  | 12 => return .nameAndType (← ref) (← ref)
  | _ => throw (.badTag t index)

/-- Puts an entry at the end of a pool, also if the pool has it already. -/
def place (p : Pool) (e : Entry) : Pool :=
  let entries := p.entries.push (some e)
  let i := UInt16.ofNat p.count
  { p with
    entries := if e.isWide then entries.push none else entries
    index := p.index.insertIfNew e i }

/-- Reads entries until the pool has `count` indices; each adds one at least. -/
def entries (fuel count : Nat) (p : Pool) : ReadM Pool :=
  match fuel with
  | 0 => return p
  | fuel + 1 =>
    if p.count < count then do
      let e ← entry p.count
      entries fuel count (place p e)
    else return p

def pool : ReadM Pool := do
  let count ← u16 "constant pool count"
  entries count.toNat count.toNat .empty

def member : ReadM Member := do
  let access ← u16 "member access"
  let name ← u16 "member name"
  let desc ← u16 "member descriptor"
  return ⟨access, name, desc, ← attributes⟩

def members : ReadM (List Member) := do
  let n ← u16 "member count"
  times n.toNat member

def classFile : ReadM ClassFile := do
  let magic ← u32 "magic"
  if magic ≠ ClassFile.magic then throw (.badMagic magic)
  let minor ← u16 "minor version"
  let major ← u16 "major version"
  let pool ← pool
  let access ← u16 "access flags"
  let this ← u16 "this class"
  let super ← u16 "super class"
  let n ← u16 "interface count"
  let interfaces ← times n.toNat (u16 "interface")
  let fields ← members
  let methods ← members
  let attributes ← attributes
  return { minor, major, pool, access, this, super, interfaces, fields, methods, attributes }

def handler : ReadM ExceptionEntry := do
  let start ← u16 "start pc"
  let stop ← u16 "end pc"
  let handler ← u16 "handler pc"
  return ⟨start, stop, handler, ← u16 "catch type"⟩

def codeAttribute : ReadM CodeAttribute := do
  let maxStack ← u16 "max stack"
  let maxLocals ← u16 "max locals"
  let size ← u32 "code length"
  let code ← bytes size.toNat "code"
  let n ← u16 "exception table length"
  let handlers ← times n.toNat handler
  return ⟨maxStack, maxLocals, code, handlers, ← attributes⟩

end Read

/-- Reads a class file, which takes all of the input. -/
def ClassFile.parse (data : Bytes) : Except ReadError ClassFile := do
  match ← Read.classFile.run data with
  | (cf, []) => return cf
  | (_, rest) => throw (.trailing rest.length)

/-- Reads the body of a code attribute; bytes after it are ignored. -/
def CodeAttribute.parse (a : Attribute) : Except ReadError CodeAttribute := do
  return (← Read.codeAttribute.run a.data).1

/-- The code of a method, if it has any. -/
def ClassFile.code? (cf : ClassFile) (m : Member) : Except ReadError (Option CodeAttribute) :=
  match cf.attribute? m.attributes "Code" with
  | none => .ok none
  | some a => some <$> CodeAttribute.parse a

end Classwright
