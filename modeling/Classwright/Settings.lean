import Classwright.Generation.Class
import Classwright.Path
import Classwright.Toml

/-!
Settings of the generator.

Settings start from defaults; a file in a directory or in one above it replaces the ones that it
names. `complaints` has all that is out of range.
-/

namespace Classwright

structure Settings where
  major : UInt16 := 61
  sourceFile : Bool := false
  /-- The bits of the least density of a table switch. -/
  density : UInt64 := 0x3FE0000000000000
  output : String := "build/classes"
  workers : Int := 4
  index : String := ""
  verbosity : Int := 1
  log : String := ""
  /-- The directory of the file that the settings came from, if they came from one. -/
  home : String := ""
  deriving DecidableEq, Repr

inductive Complaint where
  | major (found : UInt16)
  | density (bits : UInt64)
  | workers
  | verbosity
  deriving DecidableEq, Repr

def invalidSettings (what : String) : String := "invalid configuration: " ++ what

def Complaint.message : Complaint → String
  | major found => invalidSettings s!"classfile.major {found.toNat} outside 50..69"
  | density bits =>
    let text := Number.generalText Number.double bits.toNat
    invalidSettings s!"lowering.switch-density {text} outside (0, 1]"
  | workers => invalidSettings "output.workers must be positive"
  | verbosity => invalidSettings "log.verbosity must not be negative"

namespace Settings

def options (s : Settings) : Options := ⟨s.major, s.sourceFile, s.density⟩

/-- Whether a density is above 0 and at most 1; what is not a number is let through. -/
def densityFits (bits : UInt64) : Bool :=
  let d := Number.decode Number.double bits.toNat
  let zero := Number.decode Number.double 0
  let one := Number.decode Number.double (Number.ofInt Number.double 1)
  d.isNaN || (zero.lt d && !one.lt d)

/-- All that is out of range, in a fixed order. -/
def complaints (s : Settings) : List Complaint :=
  (if s.major < 50 || 69 < s.major then [.major s.major] else [])
  ++ (if densityFits s.density then [] else [.density s.density])
  ++ (if s.workers < 1 then [.workers] else [])
  ++ if s.verbosity < 0 then [.verbosity] else []

end Settings

/-- The messages of complaints, one below the other. -/
def complaintsText (cs : List Complaint) : String := "\n".intercalate (cs.map Complaint.message)

/-! ### Places in a file -/

inductive Setting where
  | major | sourceFile | density | output | workers | index | verbosity | log
  deriving DecidableEq, Repr

namespace Setting

def all : List Setting := [major, sourceFile, density, output, workers, index, verbosity, log]

/-- The table and the key of a setting. -/
def place : Setting → String × String
  | major => ("classfile", "major")
  | sourceFile => ("classfile", "source-file")
  | density => ("lowering", "switch-density")
  | output => ("output", "dir")
  | workers => ("output", "workers")
  | index => ("output", "index")
  | verbosity => ("log", "verbosity")
  | log => ("log", "file")

/-- Characters that count as one in keys: those that differ in case only. -/
def foldChar (c : Char) : Char :=
  match c.toNat with
  | 0x17F => 's'
  | 0x212A => 'k'
  | _ => c.toLower

def sameKey (name key : String) : Bool := name.toList == key.toList.map foldChar

def ofTable (key : String) : List Setting := all.filter fun s => sameKey s.place.1 key

def find? (table key : String) : Option Setting :=
  (ofTable table).find? fun s => sameKey s.place.2 key

/-- Whether a key is that of a table of settings or of a setting. -/
def isKnown : Toml.Key → Bool
  | [t] => !(ofTable t).isEmpty
  | [t, k] => (find? t k).isSome
  | _ => false

end Setting

namespace Settings

/-- Integers up to this size are numbers of the double format. -/
def maxExact : Int := 9007199254740991

/-- Replaces a setting by a value of its type and range. -/
def set? (s : Settings) (key : Setting) (v : Toml.Node) : Option Settings :=
  match key, v with
  | .major, .int i => if 0 ≤ i ∧ i < 65536 then some { s with major := .ofInt i } else none
  | .sourceFile, .bool b => some { s with sourceFile := b }
  | .density, .float bits => some { s with density := bits }
  | .density, .int i =>
    if -maxExact ≤ i ∧ i ≤ maxExact then
      some { s with density := .ofNat (Number.ofInt Number.double i) }
    else none
  | .output, .text t => some { s with output := t }
  | .workers, .int i => some { s with workers := i }
  | .index, .text t => some { s with index := t }
  | .verbosity, .int i => some { s with verbosity := i }
  | .log, .text t => some { s with log := t }
  | _, _ => none

def setTable? (s : Settings) (name : String) (t : Toml.Table) : Option Settings :=
  t.foldlM (fun s (k, v) =>
    match Setting.find? name k with
    | some key => s.set? key v
    | none => some s) s

/-- Replaces the settings that a document gives; keys that are no settings are passed over. -/
def setAll? (s : Settings) (root : Toml.Table) : Option Settings :=
  root.foldlM (fun s (k, v) =>
    if (Setting.ofTable k).isEmpty then some s
    else match v with
      | .table t => s.setTable? k t
      | _ => none) s

end Settings

/-! ### Files -/

inductive SettingsError where
  | missing (path : String)
  | malformed (path : String)
  | unknownKey (key : Toml.Key) (path : String)
  | invalid (path : String) (cs : List Complaint)

def SettingsError.message : SettingsError → String
  | missing path => s!"cannot read {path}: open {path}: no such file or directory"
  | malformed path => s!"parse error in {path}: malformed"
  | unknownKey key path => invalidSettings s!"unknown key {key.text} in {path}"
  | invalid path cs => path ++ ": " ++ complaintsText cs

/-- Whether the settings were read and found wanting. -/
def SettingsError.isInvalid : SettingsError → Bool
  | unknownKey .. | invalid .. => true
  | _ => false

namespace Settings

def fileName : String := "sourcegen.toml"

variable [Toml.Parser]

/-- Reads the settings of a file in a directory. -/
def ofText (dir text : String) : Except SettingsError Settings :=
  let path := Path.join dir fileName
  match Toml.Parser.document? text with
  | none => .error (.malformed path)
  | some doc =>
    match ({ home := dir } : Settings).setAll? doc.root with
    | none => .error (.malformed path)
    | some s =>
      match doc.keys.find? (!Setting.isKnown ·) with
      | some key => .error (.unknownKey key path)
      | none => if s.complaints.isEmpty then .ok s else .error (.invalid path s.complaints)

/-- Loads the settings of a directory, given the texts of files. -/
def load (read? : String → Option String) (dir : String) : Except SettingsError Settings :=
  let path := Path.join dir fileName
  match read? path with
  | some text => ofText dir text
  | none => .error (.missing path)

/-- Loads the settings of the nearest directory that has some, or the defaults. -/
def find (read? : String → Option String) (dir : String) : Except SettingsError Settings :=
  match (Path.ancestors dir).find? fun d => (read? (Path.join d fileName)).isSome with
  | some d => load read? d
  | none => .ok {}

/-- A path as seen from the directory of the settings. -/
def resolve (s : Settings) (path : String) : String :=
  if Path.isAbsolute path || s.home == "" then path else Path.join s.home path

def outputDir (s : Settings) : String := s.resolve s.output

/-- The path of the index, if there is to be one. -/
def indexPath? (s : Settings) : Option String :=
  if s.index = "" then none else some (s.resolve s.index)

/-- The path of the log, if it goes to a file. -/
def logPath? (s : Settings) : Option String := if s.log = "" then none else some (s.resolve s.log)

end Settings

end Classwright
