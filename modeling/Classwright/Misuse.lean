/-!
Contract violations.

Some operations are only defined for some of their arguments: a primitive has no class name, a label
has one position. Asked outside their domain they answer with a `Misuse`, which names the rule that
was broken; `broken` stands for a part that had to be there and was not, and carries no text.
-/

namespace Classwright

/-- The rule a caller broke. -/
inductive Misuse where
  | broken
  | notReference (type : String)
  | unknownType
  | notLocalInsn (op : String)
  | notBranch (op : String)
  | notConditional (op : String)
  | tableRange
  | lookupCounts
  | labelResolved
  deriving DecidableEq, Repr

/-- The text of a violation, if it has one. -/
def Misuse.message? : Misuse → Option String
  | .broken => none
  | .notReference type => some s!"model: {type} is not a reference type"
  | .unknownType => some "model: unknown type <nil>"
  | .notLocalInsn op => some s!"classfile: {op} is not a local variable instruction"
  | .notBranch op => some s!"classfile: {op} is not a branch"
  | .notConditional op => some s!"classfile: {op} is not a conditional branch"
  | .tableRange => some "classfile: tableswitch target count does not match range"
  | .lookupCounts => some "classfile: lookupswitch key and target counts differ"
  | .labelResolved => some "label already resolved"

/-- The value of an option whose absence is a violation without a text. -/
def orBroken {α : Type} : Option α → Except Misuse α
  | some a => .ok a
  | none => .error .broken

end Classwright
