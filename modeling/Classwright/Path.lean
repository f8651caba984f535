/-!
Paths in text, with components between slashes.

`clean` is the shortest path that names the same file; `join` puts one path below another.
-/

namespace Classwright.Path

def isAbsolute (path : String) : Bool := path.toList.head? == some '/'

/-- The components of a path, empty ones too. -/
def components (path : String) : List String := path.splitOn "/"

/-- Adds a component to a reversed clean path. -/
def step (rooted : Bool) (done : List String) (c : String) : List String :=
  if c = "" ∨ c = "." then done
  else if c = ".." then
    match done with
    | [] => if rooted then [] else [c]
    | last :: above => if last = ".." then c :: done else above
  else c :: done

def cleanComponents (path : String) : List String :=
  ((components path).foldl (step (isAbsolute path)) []).reverse

/-- The shortest path with the same meaning. -/
def clean (path : String) : String :=
  let body := "/".intercalate (cleanComponents path)
  if isAbsolute path then "/" ++ body else if body = "" then "." else body

/-- One path below another; an empty one adds nothing. -/
def join (dir path : String) : String :=
  if dir = "" then if path = "" then "" else clean path
  else if path = "" then clean dir
  else clean (dir ++ "/" ++ path)

def resolve (dir path : String) : String :=
  if isAbsolute path then clean path else join dir path

def parent (path : String) : String :=
  match (components path).dropLast with
  | [] => "."
  | [""] => if isAbsolute path then "/" else "."
  | cs => clean ("/".intercalate cs)

/-- A directory and all above it, the nearest first. -/
def ancestors (dir : String) : List String :=
  let cs := cleanComponents dir
  (List.range (cs.length + 1)).map fun i => "/" ++ "/".intercalate (cs.take (cs.length - i))

end Classwright.Path
