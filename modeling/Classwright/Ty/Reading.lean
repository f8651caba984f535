import Classwright.Ty.Basic

/-!
Types from their short text: a primitive name, or a class name behind the word of its kind, and
square brackets for each array dimension.
-/

namespace Classwright

/-- The kind with a name; any other name is that of an ordinary class. -/
def ClassKind.ofName (s : String) : ClassKind :=
  ([interface, enumeration, record, annotationType].find? (·.name == s)).getD ordinary

/-- A class type from its binary name, which may follow the word of its kind and a blank. -/
def ClassTy.ofText (s : String) : ClassTy :=
  let word := s.toList.takeWhile (· ≠ ' ')
  match ClassKind.ofName (String.ofList word) with
  | .ordinary => ⟨s, .ordinary, false⟩
  | kind =>
    if word.length < s.toList.length then ⟨String.ofList (s.toList.drop (word.length + 1)),
      kind, false⟩
    else ⟨s, .ordinary, false⟩

/-- Drops trailing brackets from a reversed text and counts them. -/
def bracketPairs : List Char → List Char × Nat
  | ']' :: '[' :: cs =>
    let (base, n) := bracketPairs cs
    (base, n + 1)
  | cs => (cs, 0)

/-- A type from its short text. -/
def Ty.ofText (s : String) : Ty :=
  let (base, dims) := bracketPairs s.toList.reverse
  let name := String.ofList base.reverse
  let t := match Prim.ofName? name with
    | some p => Ty.prim p
    | none => .cls (ClassTy.ofText name)
  if dims = 0 then t else .array t dims

end Classwright
