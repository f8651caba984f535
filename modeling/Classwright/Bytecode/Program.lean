import Classwright.Bytecode.Assembler
import Classwright.ClassFile.Pool

/-!
Assembly programs: sequences of directives that drive the assembler.

Labels have names, which stand for a label from their first use on, and constants are given by their
parts and added to the pool when a directive refers to them.
-/

namespace Classwright

/-- A constant by its parts. -/
inductive PoolConst where
  | utf8 (s : String)
  | cls (name : String)
  | str (s : String)
  | int (v : Int32)
  | float (bits : UInt32)
  | long (v : Int64)
  | double (bits : UInt64)
  | nameAndType (name desc : String)
  | field (owner name desc : String)
  | method (owner name desc : String) (isInterface : Bool)

/-- The index of a constant in a pool. -/
def PoolConst.add : PoolConst → PoolM UInt16
  | utf8 s => Pool.utf8 s
  | cls name => Pool.cls name
  | str s => Pool.str s
  | int v => Pool.int v
  | float bits => Pool.float bits
  | long v => Pool.long v
  | double bits => Pool.double bits
  | nameAndType name desc => Pool.nameAndType name desc
  | field owner name desc => Pool.field owner name desc
  | method owner name desc isInterface => Pool.method owner name desc isInterface

def Pool.ofConsts (cs : List PoolConst) : Pool := ((cs.mapM PoolConst.add).run .empty).2

inductive Directive where
  | ops (os : List Opcode)
  | byte (o : Opcode) (v : UInt8)
  | short (o : Opcode) (v : UInt16)
  | slot (o : Opcode) (n : Int)
  | jump (o : Opcode) (target : String)
  | mark (label : String)
  | join (label : String)
  | here (label : String)
  | table (low high : Int32) (default : String) (targets : List String)
  | lookup (default : String) (keys : List Int32) (targets : List String)
  | interface (method : PoolConst) (count : UInt8)
  | guard (start stop handler : String) (catching : Option String)
  | ref (o : Opcode) (c : PoolConst)
  | ldc (c : PoolConst)

/-- Code under assembly, with the pool and the names of labels. -/
structure Assembly where
  code : Code := {}
  pool : Pool := .empty
  names : List (String × Label) := []

namespace Assembly

def label (a : Assembly) (name : String) : Label × Assembly :=
  match a.names.lookup name with
  | some l => (l, a)
  | none =>
    let (l, code) := a.code.newLabel
    (l, { a with code, names := (name, l) :: a.names })

def labels (a : Assembly) : List String → List Label × Assembly
  | [] => ([], a)
  | n :: ns =>
    let (l, a) := a.label n
    let (ls, a) := a.labels ns
    (l :: ls, a)

def const (a : Assembly) (c : PoolConst) : UInt16 × Assembly :=
  let (i, pool) := c.add.run a.pool
  (i, { a with pool })

/-- Takes new code, or keeps the old and the violation. -/
def update (a : Assembly) (r : Except Misuse Code) : Assembly × Option Misuse :=
  match r with
  | .ok code => ({ a with code }, none)
  | .error m => (a, some m)

/-- One directive. After a violation the code is as before. -/
def step (a : Assembly) : Directive → Assembly × Option Misuse
  | .ops os => ({ a with code := os.foldl Code.emit a.code }, none)
  | .byte o v => ({ a with code := a.code.emitByte o v }, none)
  | .short o v => ({ a with code := a.code.emitShort o v }, none)
  | .slot o n => a.update (a.code.emitLocal o n)
  | .jump o target =>
    let (l, a) := a.label target
    a.update (a.code.emitJump o l)
  | .mark name =>
    let (l, a) := a.label name
    a.update (a.code.mark l)
  | .join name =>
    let (l, a) := a.label name
    a.update (a.code.join l)
  | .here name =>
    let (l, code) := a.code.here
    ({ a with code, names := (name, l) :: a.names.filter (·.1 != name) }, none)
  | .table low high default targets =>
    let (d, a) := a.label default
    let (ts, a) := a.labels targets
    a.update (a.code.emitTable low high d ts)
  | .lookup default keys targets =>
    let (d, a) := a.label default
    let (ts, a) := a.labels targets
    a.update (a.code.emitLookup d keys ts)
  | .interface method count =>
    let (i, a) := a.const method
    ({ a with code := a.code.emitInterface i count }, none)
  | .guard start stop handler catching =>
    let (c, a) := match catching with
      | some name => a.const (.cls name)
      | none => (0, a)
    let (s, a) := a.label start
    let (e, a) := a.label stop
    let (h, a) := a.label handler
    ({ a with code := a.code.guard ⟨s, e, h, c⟩ }, none)
  | .ref o c =>
    let (i, a) := a.const c
    ({ a with code := a.code.emitShort o i }, none)
  | .ldc c =>
    let (i, a) := a.const c
    ({ a with code := a.code.emitByte Action.ldc.opcode i.toUInt8 }, none)

/-- All directives; the first violation stops them. -/
def run (a : Assembly) : List Directive → Except Misuse Assembly
  | [] => .ok a
  | d :: ds =>
    match a.step d with
    | (a, none) => a.run ds
    | (_, some m) => .error m

end Assembly

end Classwright
