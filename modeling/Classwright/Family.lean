/-!
Families of errors.

An error may belong to a family, by which callers tell errors apart without reading their messages.
Of errors that are reported together, the family that comes first in `Family.all` counts.
-/

namespace Classwright

inductive Family where
  | duplicateMember | emptyEnum | invalidIdentifier | invalidDecl
  | unresolved | narrowing | typeMismatch | voidValue | duplicateName | duplicateKey | missingReturn
  | unsupported | frameMismatch | codeTooLarge | poolOverflow | duplicateType | invalid
  | noClass | noMethod | badCode | stackDepth
  deriving DecidableEq, Repr

namespace Family

def all : List Family :=
  [duplicateMember, emptyEnum, invalidIdentifier, invalidDecl, unresolved, narrowing, typeMismatch,
   voidValue, duplicateName, duplicateKey, missingReturn, unsupported, frameMismatch, codeTooLarge,
   poolOverflow, duplicateType, invalid, noClass, noMethod, badCode, stackDepth]

def name : Family → String
  | duplicateMember => "DuplicateMember"
  | emptyEnum => "EmptyEnum"
  | invalidIdentifier => "InvalidIdentifier"
  | invalidDecl => "InvalidDecl"
  | unresolved => "Unresolved"
  | narrowing => "Narrowing"
  | typeMismatch => "TypeMismatch"
  | voidValue => "VoidValue"
  | duplicateName => "DuplicateName"
  | duplicateKey => "DuplicateKey"
  | missingReturn => "MissingReturn"
  | unsupported => "Unsupported"
  | frameMismatch => "FrameMismatch"
  | codeTooLarge => "CodeTooLarge"
  | poolOverflow => "PoolOverflow"
  | duplicateType => "DuplicateType"
  | invalid => "Invalid"
  | noClass => "NoClass"
  | noMethod => "NoMethod"
  | badCode => "BadCode"
  | stackDepth => "StackDepth"

/-- The family that counts among several. -/
def first? (fs : List Family) : Option Family := all.find? fs.contains

end Family

end Classwright
