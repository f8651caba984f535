import Classwright.Text.Quoted

/-!
Descriptors of fields and methods.

A field descriptor is any number of opening brackets and a letter for a primitive, or `L`, a class
name and a semicolon. A method descriptor is a parenthesised sequence of these and a return type,
which may also be `V`.
-/

namespace Classwright

inductive DescriptorError where
  | malformed (desc : String)
  | badParameter (desc : String) (cause : DescriptorError)
  | badReturn (desc : String)
  | truncated (field : String)
  | unterminated (field : String)
  | badCharacter (c : Char)
  deriving DecidableEq, Repr

/-- The first byte of a character, as a character. -/
def leadByte (c : Char) : Char :=
  match String.utf8EncodeChar c with
  | b :: _ => Char.ofNat b.toNat
  | [] => c

def DescriptorError.message : DescriptorError → String
  | malformed desc => s!"malformed method descriptor {Text.quoted desc}"
  | badParameter desc cause => s!"method descriptor {Text.quoted desc}: {cause.message}"
  | badReturn desc => s!"malformed return type in {Text.quoted desc}"
  | truncated field => s!"truncated descriptor {Text.quoted field}"
  | unterminated field => s!"unterminated class descriptor {Text.quoted field}"
  | badCharacter c => s!"bad descriptor character {Text.quotedChar (leadByte c)}"

namespace Descriptor

def primitives : List Char := ['B', 'C', 'D', 'F', 'I', 'J', 'S', 'Z']

/-- Splits the field descriptor off the front of a text. -/
def takeField (cs : List Char) : Except DescriptorError (List Char × List Char) :=
  let brackets := cs.takeWhile (· = '[')
  match cs.dropWhile (· = '[') with
  | [] => .error (.truncated (String.ofList cs))
  | 'L' :: rest =>
    let name := rest.takeWhile (· ≠ ';')
    match rest.dropWhile (· ≠ ';') with
    | [] => .error (.unterminated (String.ofList cs))
    | _ :: rest => .ok (brackets ++ 'L' :: name ++ [';'], rest)
  | c :: rest =>
    if primitives.contains c then .ok (brackets ++ [c], rest) else .error (.badCharacter c)

/-- Splits parameters off up to the closing parenthesis. The length of the text is fuel enough. -/
def takeParams (fuel : Nat) (cs : List Char) :
    Except DescriptorError (List (List Char) × List Char) :=
  match fuel, cs with
  | _, [] => .ok ([], [])
  | _, ')' :: rest => .ok ([], ')' :: rest)
  | 0, cs => .ok ([], cs)
  | fuel + 1, cs => do
    let (p, rest) ← takeField cs
    let (ps, rest) ← takeParams fuel rest
    return (p :: ps, rest)

/-- Splits a method descriptor into those of its parameters and its return type. -/
def parse (desc : String) : Except DescriptorError (List String × String) := do
  if desc.utf8ByteSize < 3 then throw (.malformed desc)
  let '(' :: cs := desc.toList | throw (.malformed desc)
  let (params, rest) ← (takeParams cs.length cs).mapError (.badParameter desc)
  let _ :: ret := rest | throw (.malformed desc)
  if ret ≠ ['V'] then
    match takeField ret with
    | .ok (_, []) => pure ()
    | _ => throw (.badReturn desc)
  return (params.map String.ofList, String.ofList ret)

/-- Stack words of a value by its descriptor. -/
def width (desc : String) : Nat :=
  if desc = "V" then 0 else if desc = "J" ∨ desc = "D" then 2 else 1

/-- Stack words of a method's arguments, the receiver apart. -/
def argWords (desc : String) : Except DescriptorError Nat := do
  let (params, _) ← parse desc
  return (params.map width).foldr (· + ·) 0

end Descriptor

end Classwright
