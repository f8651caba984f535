import Classwright.Number.Reading
import Classwright.Text.Quoted

/-!
The arguments of the command line.

Flags come first, with one dash or two; what follows the first argument that is no flag, or two
dashes alone, names samples.
-/

namespace Classwright.Command

inductive Flag where
  | verbose | searchDir | output | workers | noIndex | list | listing
  deriving DecidableEq, Repr

namespace Flag

def all : List Flag := [verbose, searchDir, output, workers, noIndex, list, listing]

def name : Flag → String
  | verbose => "v"
  | searchDir => "C"
  | output => "o"
  | workers => "workers"
  | noIndex => "no-index"
  | list => "list"
  | listing => "disasm"

def find? (name : String) : Option Flag := all.find? (·.name == name)

/-- Whether a flag is on or off and needs no value. -/
def isSwitch : Flag → Bool
  | verbose | noIndex | list | listing => true
  | searchDir | output | workers => false

end Flag

structure Arguments where
  verbose : Bool := false
  searchDir : String := "."
  output : String := ""
  workers : Int := 0
  noIndex : Bool := false
  list : Bool := false
  listing : Bool := false
  samples : List String := []
  deriving DecidableEq, Repr

/-- Why arguments are not taken. -/
inductive UsageError where
  | help
  | badForm (arg : String)
  | unknown (name : String)
  | needsValue (f : Flag)
  | badValue (f : Flag) (value : String)
  deriving DecidableEq, Repr

def UsageError.message? : UsageError → Option String
  | help => none
  | badForm arg => some s!"bad flag syntax: {arg}"
  | unknown name => some s!"flag provided but not defined: -{name}"
  | needsValue f => some s!"flag needs an argument: -{f.name}"
  | badValue f value =>
    let shown := Text.quoted value
    some (if f.isSwitch then s!"invalid boolean value {shown} for -{f.name}: parse error"
      else s!"invalid value {shown} for flag -{f.name}: parse error")

/-- The words for on and off. -/
def readSwitch? (s : String) : Option Bool :=
  if ["1", "t", "T", "TRUE", "true", "True"].contains s then some true
  else if ["0", "f", "F", "FALSE", "false", "False"].contains s then some false
  else none

namespace Arguments

/-- Gives a flag a value. -/
def set? (a : Arguments) (f : Flag) (value : String) : Option Arguments :=
  match f with
  | .verbose => (readSwitch? value).map fun b => { a with verbose := b }
  | .noIndex => (readSwitch? value).map fun b => { a with noIndex := b }
  | .list => (readSwitch? value).map fun b => { a with list := b }
  | .listing => (readSwitch? value).map fun b => { a with listing := b }
  | .workers => (Number.readInt64? value).map fun i => { a with workers := i }
  | .searchDir => some { a with searchDir := value }
  | .output => some { a with output := value }

def set (a : Arguments) (f : Flag) (value : String) : Except UsageError Arguments :=
  match a.set? f value with
  | some a => .ok a
  | none => .error (.badValue f value)

end Arguments

/-- A flag as it stands in an argument: its name and the value after an equals sign. -/
structure Spelled where
  name : String
  value : Option String

/-- What an argument is. -/
inductive Argument where
  | flag (s : Spelled)
  | stop
  | plain
  | malformed

/-- Cuts a name from the value after it; the name has a character at least. -/
def spelled (cs : List Char) : Spelled :=
  let name := cs.takeWhile (· != '=')
  match cs.dropWhile (· != '=') with
  | _ :: value => ⟨String.ofList name, some (String.ofList value)⟩
  | [] => ⟨String.ofList name, none⟩

def Argument.ofText (arg : String) : Argument :=
  let flag (cs : List Char) : Argument :=
    match cs with
    | [] | '-' :: _ | '=' :: _ => .malformed
    | _ => .flag (spelled cs)
  match arg.toList with
  | ['-', '-'] => .stop
  | '-' :: '-' :: cs => flag cs
  | ['-'] => .plain
  | '-' :: cs => flag cs
  | _ => .plain

namespace Arguments

/-- Reads arguments after those that `a` has. -/
def read (a : Arguments) : List String → Except UsageError Arguments
  | [] => .ok a
  | arg :: rest =>
    match Argument.ofText arg with
    | .plain => .ok { a with samples := arg :: rest }
    | .stop => .ok { a with samples := rest }
    | .malformed => .error (.badForm arg)
    | .flag s =>
      match Flag.find? s.name with
      | none => .error (if s.name = "help" ∨ s.name = "h" then .help else .unknown s.name)
      | some f =>
        match s.value with
        | some v => do read (← a.set f v) rest
        | none =>
          if f.isSwitch then do read (← a.set f "true") rest
          else
            match rest with
            | [] => .error (.needsValue f)
            | v :: rest => do read (← a.set f v) rest

end Arguments

end Classwright.Command
