import Classwright.Text.Quoted
import Classwright.Ty.Basic

/-!
Names of members and types.

An identifier is a letter, an underscore or a dollar sign, followed by those or digits, and is no
reserved word. A binary type name is a dotted sequence of identifiers whose last segment may hold
the names of member types between dollar signs. Accessors of a property are named by a verb and the
property with its first letter raised.
-/

namespace Classwright

inductive NameError where
  | empty
  | emptyType
  | reserved (name : String)
  | malformed (name : String)
  | inType (name : String) (cause : NameError)
  deriving DecidableEq, Repr

def NameError.message : NameError → String
  | empty => "invalid identifier: empty name"
  | emptyType => "invalid identifier: empty type name"
  | reserved name => s!"invalid identifier: {Text.quoted name} is reserved"
  | malformed name => s!"invalid identifier: {Text.quoted name}"
  | inType name cause => s!"type name {Text.quoted name}: {cause.message}"

/-- Words that name nothing. -/
def reservedWords : List String :=
  ["abstract", "assert", "boolean", "break", "byte", "case", "catch", "char", "class", "const",
   "continue", "default", "do", "double", "else", "enum", "extends", "final", "finally", "float",
   "for", "goto", "if", "implements", "import", "instanceof", "int", "interface", "long", "native",
   "new", "package", "private", "protected", "public", "return", "short", "static", "strictfp",
   "super", "switch", "synchronized", "this", "throw", "throws", "transient", "try", "void",
   "volatile", "while", "true", "false", "null", "_"]

/-- Characters an identifier may start with. -/
def isNameStart (c : Char) : Bool := Text.isLetter c || c == '_' || c == '$'

/-- Characters an identifier may go on with. -/
def isNamePart (c : Char) : Bool := isNameStart c || Text.isDigit c

def checkIdentifier (name : String) : Except NameError Unit :=
  match name.toList with
  | [] => .error .empty
  | c :: cs =>
    if reservedWords.contains name then .error (.reserved name)
    else if isNameStart c && cs.all isNamePart then .ok ()
    else .error (.malformed name)

/-- The parts of a text between the occurrences of a character. -/
def pieces (c : Char) (s : String) : List String :=
  (s.toList.foldr (fun x parts =>
    if x = c then [] :: parts
    else match parts with
      | p :: ps => (x :: p) :: ps
      | [] => [[x]]) [[]]).map String.ofList

/-- The identifiers of a binary name: its dotted parts, the last one split at dollar signs. -/
def nameSegments (name : String) : List String :=
  let parts := pieces '.' name
  parts.dropLast ++ (parts.getLast?.map (pieces '$')).getD []

def checkTypeName (name : String) : Except NameError Unit :=
  if name.isEmpty then .error .emptyType
  else (nameSegments name).forM fun segment =>
    (checkIdentifier segment).mapError (.inType name)

/-- Joins a verb to a property name whose first letter is raised. Only one-byte letters can be
raised; every byte of a longer first letter turns into the replacement character. -/
def accessorName (verb property : String) : String :=
  match property.toList with
  | [] => verb
  | c :: cs =>
    let first := if c.utf8Size = 1 then [c.toUpper] else List.replicate c.utf8Size '�'
    verb ++ String.ofList (first ++ cs)

/-- The accessor that reads a property of a type of kind `kind`; records name it like the
property. -/
def getterName (kind : ClassKind) (property : String) : String :=
  if kind = .record then property else accessorName "get" property

def setterName (property : String) : String := accessorName "set" property

def nestedName (outer : ClassTy) (simple : String) : String := outer.name ++ "$" ++ simple

end Classwright
