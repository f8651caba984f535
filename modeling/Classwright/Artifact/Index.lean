import Std.Data.TreeMap
import Classwright.Artifact.Sink
import Classwright.Cbor
import Classwright.Digest.Sha256

/-!
The index of written artifacts.

An index has the digest of what was last written at each path, so that a sink over it can pass on
only what changed. It is stored in canonical form.
-/

namespace Classwright

/-- What was last written at a path. -/
structure IndexEntry where
  name : String
  hash : Bytes
  size : Int
  runId : String
  deriving DecidableEq, Repr

/-- Entries by path, each path once. -/
structure Index where
  version : Int
  entries : List (String × IndexEntry)
  deriving DecidableEq, Repr

inductive IndexError where
  | unreadable (path : String) (cause : FileFault)
  | malformed
  | version (found : Int)
  deriving DecidableEq, Repr

namespace Index

def currentVersion : Int := 1

def empty : Index := ⟨currentVersion, []⟩

def find? (i : Index) (path : String) : Option IndexEntry := i.entries.lookup path

/-- Records an entry in the place of one with its path. -/
def insert (i : Index) (path : String) (e : IndexEntry) : Index :=
  { i with entries := (path, e) :: i.entries.filter (·.1 != path) }

/-- Entries in the order of their paths; of two with one path the earlier counts. -/
def byPath (es : List (String × IndexEntry)) : Std.TreeMap String IndexEntry :=
  es.foldr (fun x m => m.insert x.1 x.2) ∅

/-- Records entries one after the other. -/
def insertAll (i : Index) (es : List (String × IndexEntry)) : Index :=
  { i with entries := (byPath (es.reverse ++ i.entries)).toList }

/-! ### Storage -/

end Index

def IndexEntry.item (e : IndexEntry) : Cbor.Item :=
  .map ([.uint 1, .ofString e.name, .uint 2, .bytes e.hash, .uint 3, .ofInt e.size]
    ++ if e.runId.isEmpty then [] else [.uint 4, .ofString e.runId])

def IndexEntry.ofItem? (item : Cbor.Item) : Option IndexEntry := do
  let fields ← item.fields?
  let get {α : Type} (n : Nat) (default : α) (read : Cbor.Item → Option α) : Option α :=
    match fields.lookup n with
    | some v => read v
    | none => some default
  return ⟨← get 1 "" Cbor.Item.text?, ← get 2 (List.replicate 32 0) (Cbor.Item.fixed? 32),
    ← get 3 0 (Cbor.Item.int? 0), ← get 4 "" Cbor.Item.text?⟩

namespace Index

def item [Cbor.Codec] (i : Index) : Cbor.Item :=
  .map [.uint 1, .ofInt i.version, .uint 2, .textMap (i.entries.map fun (p, e) => (p, e.item))]

def bytes [Cbor.Codec] (i : Index) : Bytes := Cbor.Codec.encode i.item

/-- The entries of a map; of two with one path the later counts. -/
def entriesOf? (item : Cbor.Item) : Option (List (String × IndexEntry)) := do
  let pairs ← (← item.map?).mapM fun (k, v) => do return (← k.text?, ← IndexEntry.ofItem? v)
  return (empty.insertAll pairs).entries

def ofItem? (item : Cbor.Item) : Option Index := do
  let fields ← item.fields?
  let version ← match fields.lookup 1 with
    | some v => v.int? 0
    | none => some 0
  let entries ← match fields.lookup 2 with
    | some v => entriesOf? v
    | none => some []
  return ⟨version, entries⟩

def read [Cbor.Codec] (bs : Bytes) : Except IndexError Index :=
  match (Cbor.Codec.decode? bs).bind ofItem? with
  | none => .error .malformed
  | some i => if i.version = currentVersion then .ok i else .error (.version i.version)

end Index

def IndexError.message : IndexError → String
  | .unreadable path cause => s!"cannot read {path}: {cause.message}"
  | .malformed => "writer: unmarshal index: malformed"
  | .version found => s!"writer: index version {found}, want {Index.currentVersion}"

/-! ### The sink over an index -/

/-- A sink's state with the index of what it holds, the run that writes, and the number of artifacts
that were not passed on. -/
structure Indexed (σ : Type) where
  next : σ
  index : Index
  runId : String := ""
  skipped : Nat := 0

namespace Indexed

/-- The artifacts that differ from what the index has for their paths. -/
def changed (i : Index) (as : List Artifact) : List Artifact :=
  as.filter fun a => (i.find? a.path).map (·.hash) != some (Sha256.digest a.data)

/-- Records artifacts as written by a run. -/
def record (i : Index) (runId : String) (as : List Artifact) : Index :=
  i.insertAll (as.map fun a => (a.path, ⟨a.name, Sha256.digest a.data, a.data.length, runId⟩))

/-- What a write finds out first: the artifacts that changed, the run it writes for, and how many
artifacts did not change. -/
structure Plan where
  changed : List Artifact
  runId : String
  skipped : Nat
  deriving DecidableEq, Repr

variable {σ : Type}

/-- Compares artifacts with the index. -/
def plan (as : List Artifact) (st : Indexed σ) : Plan :=
  let new := changed st.index as
  ⟨new, st.runId, as.length - new.length⟩

/-- Passes on what changed, if anything did. -/
def forward (s : Sink σ) (p : Plan) (next : σ) : Option WriteError × σ :=
  if p.changed.isEmpty then (none, next)
  else
    let ((_, failure), next) := s.writeAll p.changed next
    (failure, next)

def commit (p : Plan) (st : Indexed σ) : Indexed σ :=
  { st with index := record st.index p.runId p.changed, skipped := st.skipped + p.skipped }

/-- Passes on what changed, and records it if that succeeds. -/
def writeUnit (s : Sink σ) (as : List Artifact) (st : Indexed σ) :
    Except WriteError Unit × Indexed σ :=
  let p := plan as st
  match forward s p st.next with
  | (some e, next) => (.error e, { st with next })
  | (none, next) => (.ok (), commit p { st with next })

/-- A sink that passes on to another only what changed. -/
def sink (s : Sink σ) : Sink (Indexed σ) where
  write a := writeUnit s [a]
  writeUnit := some (writeUnit s)

end Indexed

end Classwright
