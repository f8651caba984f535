import Classwright.Bytecode.Insn
import Classwright.ClassFile.Pool
import Classwright.Text.Quoted

/-!
Listings of method code: a line for each instruction, with references resolved through a pool where
one is given.
-/

namespace Classwright

namespace Listing

/-- An index as it stands. -/
def bareIndex (i : UInt16) : String := s!"#{i.toNat}"

def className (pool : Option Pool) (i : UInt16) : String :=
  (pool.bind fun p => (p.classAt i).toOption).getD (bareIndex i)

def member (pool : Option Pool) (i : UInt16) : String :=
  match pool.bind fun p => (p.memberAt i).toOption with
  | some m => m.owner ++ "." ++ m.name ++ ":" ++ m.desc
  | none => bareIndex i

/-- A loadable constant; floating constants are shown by index. -/
def constant (pool : Option Pool) (i : UInt16) : String :=
  match pool with
  | none => bareIndex i
  | some p =>
    match p.entry i with
    | .ok (.str t) => Text.quoted ((p.utf8At t).toOption.getD "")
    | .ok (.cls _) => className pool i ++ ".class"
    | .ok (.int bits) => toString bits.toInt32.toInt
    | .ok (.long bits) => toString bits.toInt64.toInt
    | _ => bareIndex i

def cases (i : Insn) : String :=
  String.join ((i.keys.zip i.targets).map fun (k, t) => s!" {k}: {t}")

/-- What stands after the mnemonic. -/
def operands (pool : Option Pool) (i : Insn) : String :=
  let ref := UInt16.ofInt i.operand
  match i.op.action? with
  | some .tableSwitch | some .lookupSwitch =>
    " \x7b" ++ cases i ++ s!" default: {i.default} \x7d"
  | some .ldc | some .ldcWide | some .ldcTwo => " " ++ constant pool ref
  | some .getStatic | some .putStatic | some .getField | some .putField | some .invokeVirtual
  | some .invokeSpecial | some .invokeStatic | some .invokeInterface => " " ++ member pool ref
  | some .new | some .newRefArray | some .checkCast | some .instanceOf => " " ++ className pool ref
  | some .increment => s!" {i.operand} {i.operand2}"
  | _ => if i.len > 1 || i.wide then s!" {i.operand}" else ""

/-- A number with at least four digits. -/
def paddedOffset (n : Nat) : String :=
  let s := toString n
  String.ofList (List.replicate (4 - s.length) '0') ++ s

def line (pool : Option Pool) (i : Insn) : String :=
  paddedOffset i.offset ++ "  " ++ i.op.name ++ operands pool i ++ "\n"

end Listing

/-- The listing of a method's code. -/
def listing (code : Bytes) (pool : Option Pool) : Except DecodeError String := do
  return String.join ((← Insn.decodeAll code).map (Listing.line pool))

end Classwright
