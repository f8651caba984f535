import Classwright.Number.Reading
import Classwright.Toml

/-!
Settings text, line by line.

`lines?` reads a text into table headers and entries with their values as written. Every reader
takes the characters from where it stands and hands on the rest.
-/

namespace Classwright.Toml

mutual

/-- A value as it is written. -/
inductive Written where
  | text (s : String)
  | int (i : Int)
  | float (bits : UInt64)
  | bool (b : Bool)
  | moment
  | array (items : List Written)
  | table (entries : List Entry)

inductive Entry where
  | mk (key : Key) (value : Written)

end

inductive Line where
  | table (key : Key)
  | tables (key : Key)
  | entry (e : Entry)

/-! ### Characters -/

def isBlank (c : Char) : Bool := c == ' ' || c == '\t'

def isNewline (c : Char) : Bool := c == '\n' || c == '\r'

/-- Whether all characters may occur: no control character but the tab and line ends, and no
carriage return alone. -/
def isClean : List Char → Bool
  | [] => true
  | '\r' :: cs => cs.head? == some '\n' && isClean cs
  | c :: cs => ((0x20 ≤ c.toNat && c.toNat != 0x7F) || c == '\t' || c == '\n') && isClean cs

def skipBlanks (cs : List Char) : List Char := cs.dropWhile isBlank

/-- Skips blanks, line ends and comments. -/
def skipLines (inComment : Bool) : List Char → List Char
  | [] => []
  | c :: cs =>
    if inComment then skipLines (c != '\n') cs
    else if isBlank c || isNewline c then skipLines false cs
    else if c == '#' then skipLines true cs
    else c :: cs

/-- Whether an item may end here. -/
def atLineEnd (cs : List Char) : Bool :=
  match skipBlanks cs with
  | [] => true
  | c :: _ => isNewline c || c == '#'

/-! ### Strings -/

/-- The character with a code point in hexadecimal digits. -/
def codePoint? (digits : List Char) : Option Char := do
  let n ← Text.hexNat? digits
  if n < 0xD800 ∨ (0xDFFF < n ∧ n < 0x110000) then some (Char.ofNat n) else none

/-- Reads the digits of an escape of a given size. -/
def hexEscape? (size : Nat) (cs : List Char) : Option (List Char × List Char) := do
  if cs.length < size then none
  return ([← codePoint? (cs.take size)], cs.drop size)

/-- What an escape stands for. In a text over several lines a line end after the backslash goes away
with all blanks and line ends around it. -/
def escape? (multi : Bool) (cs : List Char) : Option (List Char × List Char) :=
  match cs with
  | 'b' :: r => some (['\x08'], r)
  | 't' :: r => some (['\t'], r)
  | 'n' :: r => some (['\n'], r)
  | 'f' :: r => some (['\x0c'], r)
  | 'r' :: r => some (['\r'], r)
  | 'e' :: r => some (['\x1b'], r)
  | '"' :: r => some (['"'], r)
  | '\\' :: r => some (['\\'], r)
  | 'x' :: r => hexEscape? 2 r
  | 'u' :: r => hexEscape? 4 r
  | 'U' :: r => hexEscape? 8 r
  | _ =>
    let isSpace (c : Char) : Bool := isBlank c || isNewline c
    if multi && (cs.takeWhile isSpace).contains '\n' then some ([], cs.dropWhile isSpace) else none

/-- Reads a text up to its closing mark. Three to five marks close a text over several lines, and
those over three belong to it. -/
def text? (multi escapes : Bool) (mark : Char) : Nat → List Char → Option (List Char × List Char)
  | 0, _ => none
  | fuel + 1, cs =>
    let go (out : List Char) (rest : List Char) : Option (List Char × List Char) :=
      (text? multi escapes mark fuel rest).map fun (more, rest) => (out ++ more, rest)
    match cs with
    | [] => none
    | c :: rest =>
      if c == mark then
        if multi then
          let run := cs.takeWhile (· == mark)
          let after := cs.drop run.length
          if run.length < 3 then go run after
          else if run.length ≤ 5 then some (run.drop 3, after)
          else none
        else some ([], rest)
      else if escapes && c == '\\' then
        match escape? multi rest with
        | some (out, rest) => go out rest
        | none => none
      else if !multi && isNewline c then none
      else go [c] rest

/-- A line end right after the opening marks does not count. -/
def dropFirstNewline : List Char → List Char
  | '\n' :: cs => cs
  | '\r' :: '\n' :: cs => cs
  | cs => cs

/-- Reads a text from its opening mark on. -/
def quoted? (multi : Bool) (cs : List Char) : Option (String × List Char) :=
  match cs with
  | [] => none
  | mark :: rest =>
    let escapes := mark == '"'
    let read (multi : Bool) (rest : List Char) : Option (String × List Char) :=
      (text? multi escapes mark (rest.length + 1) rest).map fun (s, r) => (String.ofList s, r)
    if multi && rest.take 2 == [mark, mark] then read true (dropFirstNewline (rest.drop 2))
    else read false rest

/-! ### Keys -/

def isMark (c : Char) : Bool := c == '"' || c == '\''

def keyPart? (cs : List Char) : Option (String × List Char) :=
  let cs := skipBlanks cs
  if (cs.head?.map isMark).getD false then quoted? false cs
  else
    let name := cs.takeWhile isBare
    if name.isEmpty then none else some (String.ofList name, cs.drop name.length)

/-- Reads parts with dots between them. -/
def key? : Nat → List Char → Option (Key × List Char)
  | 0, _ => none
  | fuel + 1, cs =>
    match keyPart? cs with
    | none => none
    | some (part, rest) =>
      match skipBlanks rest with
      | '.' :: rest => (key? fuel rest).map fun (parts, rest) => (part :: parts, rest)
      | rest => some ([part], rest)

def wholeKey? (cs : List Char) : Option (Key × List Char) := key? (cs.length + 1) cs

/-! ### Numbers -/

/-- Whether every underscore stands between digits. -/
def underscoresFit (accept : Bool) : List Char → Bool
  | [] => accept
  | c :: cs => (c != '_' || accept) && underscoresFit (Text.hexValue? c).isSome cs

def unsigned : List Char → List Char
  | '+' :: cs | '-' :: cs => cs
  | cs => cs

/-- Whether digits start with a zero that is not all. -/
def hasLeadingZero (cs : List Char) : Bool :=
  match unsigned cs with
  | '0' :: _ :: _ => true
  | _ => false

def digitsIn? (base : Nat) (cs : List Char) : Option Nat :=
  if cs.isEmpty then none
  else cs.foldlM (fun n c => do
    let d ← Text.hexValue? c
    if d < base then some (base * n + d) else none) 0

/-- An integer in a base, if it fits in 64 bits. -/
def integer? (base : Nat) (cs : List Char) : Option Written := do
  let (negative, digits) := Number.takeSign cs
  let n ← digitsIn? base (digits.filter (· != '_'))
  let i : Int := if negative then -n else n
  if underscoresFit false digits && -9223372036854775808 ≤ i && i ≤ 9223372036854775807 then
    some (.int i)
  else none

def isExponentMark (c : Char) : Bool := c == 'e' || c == 'E'

/-- Whether a digit follows every point. -/
def pointsFit : List Char → Bool
  | [] => true
  | '.' :: cs => (cs.head?.map Char.isDigit).getD false && pointsFit cs
  | _ :: cs => pointsFit cs

/-- The parts of a number between points and exponent marks. -/
def floatParts (cs : List Char) : List (List Char) :=
  let cut (c : Char) : Bool := c == '.' || isExponentMark c
  (cs.foldr (fun c parts =>
    if cut c then [] :: parts
    else match parts with
      | p :: ps => (c :: p) :: ps
      | [] => [[c]]) [[]]).filter (!·.isEmpty)

/-- A finite number with a fraction or an exponent. -/
def float? (cs : List Char) : Option Written := do
  let parts := floatParts cs
  let bits ← Number.ofText? Number.double (String.ofList (cs.filter (· != '_')))
  if parts.all (underscoresFit false) && !hasLeadingZero (parts.headD []) && pointsFit cs
      && bits % Number.double.signBit != Number.double.infinity then
    some (.float (.ofNat bits))
  else none

/-! ### Dates and times -/

/-- A number of exactly `n` digits in a range. -/
def field? (n low high : Nat) (cs : List Char) : Option (Nat × List Char) :=
  let ds := cs.take n
  let v := Number.ofDigits ds
  if ds.length = n ∧ ds.all Char.isDigit ∧ low ≤ v ∧ v ≤ high then some (v, cs.drop n) else none

def expect? (c : Char) : List Char → Option (List Char)
  | d :: cs => if d = c then some cs else none
  | [] => none

def daysIn (year month : Nat) : Nat :=
  if month = 2 then if year % 4 = 0 ∧ (year % 100 ≠ 0 ∨ year % 400 = 0) then 29 else 28
  else if month = 4 ∨ month = 6 ∨ month = 9 ∨ month = 11 then 30 else 31

def date? (cs : List Char) : Option (List Char) := do
  let (year, cs) ← field? 4 0 9999 cs
  let (month, cs) ← field? 2 1 12 (← expect? '-' cs)
  let (_, cs) ← field? 2 1 (daysIn year month) (← expect? '-' cs)
  return cs

/-- Hours and minutes, then seconds and their fraction if they are there. -/
def time? (cs : List Char) : Option (List Char) := do
  let (_, cs) ← field? 2 0 23 cs
  let (_, cs) ← field? 2 0 59 (← expect? ':' cs)
  match cs with
  | ':' :: cs =>
    let (_, cs) ← field? 2 0 59 cs
    match cs with
    | '.' :: cs =>
      if (cs.head?.map Char.isDigit).getD false then some (cs.dropWhile Char.isDigit) else none
    | cs => some cs
  | cs => some cs

def offset? : List Char → Option (List Char)
  | 'Z' :: cs => some cs
  | c :: cs => do
    if c != '+' && c != '-' then none
    let (_, cs) ← field? 2 0 24 cs
    let (_, cs) ← field? 2 0 60 (← expect? ':' cs)
    return cs
  | [] => some []

/-- Whether a text is a date, a time, or both with or without an offset. -/
def isMoment (cs : List Char) : Bool :=
  let cs := cs.map fun c => if c = 'z' then 'Z' else if c = 't' ∨ c = ' ' then 'T' else c
  match date? cs with
  | some [] => true
  | some ('T' :: cs) => (time? cs).bind offset? == some []
  | some _ => false
  | none => time? cs == some []

/-! ### Values -/

/-- Cuts off the longest start of characters in a class. -/
def span (p : Char → Bool) (cs : List Char) : List Char × List Char :=
  (cs.takeWhile p, cs.dropWhile p)

def isFloatChar (c : Char) : Bool :=
  c.isDigit || c == '_' || c == '.' || c == '-' || c == '+' || isExponentMark c

def isMomentChar (c : Char) : Bool :=
  c.isDigit || ['-', ':', 'T', 't', ' ', '.', 'Z', 'z', '+'].contains c

/-- Reads a decimal number whose sign and first digits were cut off. -/
def decimal? (start cs : List Char) : Option (Written × List Char) :=
  let (more, rest) := span (fun c => c.isDigit || c == '_') cs
  let whole := start ++ more
  match rest with
  | c :: _ =>
    if c == '.' || isExponentMark c then
      let (tail, rest) := span isFloatChar rest
      (float? (whole ++ tail)).map (·, rest)
    else if hasLeadingZero whole then none
    else (integer? 10 whole).map (·, rest)
  | [] => if hasLeadingZero whole then none else (integer? 10 whole).map (·, [])

def based? (base : Nat) (cs : List Char) : Option (Written × List Char) :=
  let isDigit (c : Char) : Bool := ((Text.hexValue? c).map (decide <| · < base)).getD false
  let (digits, rest) := span (fun c => isDigit c || c == '_') cs
  (integer? base digits).map (·, rest)

/-- Reads a number or a date that starts with a digit. -/
def numeral? (cs : List Char) : Option (Written × List Char) :=
  match cs with
  | '0' :: 'b' :: r => based? 2 r
  | '0' :: 'o' :: r => based? 8 r
  | '0' :: 'x' :: r => based? 16 r
  | _ =>
    let (digits, rest) := span Char.isDigit cs
    match rest with
    | c :: _ =>
      if (c == '-' || c == ':') && digits != ['0'] then
        let (token, rest) := span isMomentChar cs
        if isMoment (token.reverse.dropWhile isBlank).reverse then some (.moment, rest) else none
      else decimal? digits rest
    | [] => decimal? digits rest

/-- Reads the words for what is no ordinary number. -/
def special? (negative : Bool) : List Char → Option (Written × List Char)
  | 'i' :: 'n' :: 'f' :: r =>
    some (.float (.ofNat (Number.withSign Number.double negative Number.double.infinity)), r)
  | 'n' :: 'a' :: 'n' :: r =>
    some (.float (.ofNat (Number.withSign Number.double negative Number.double.quietNaN)), r)
  | _ => none

/-- Reads a number with a sign. -/
def signed? (sign : Char) (cs : List Char) : Option (Written × List Char) :=
  match special? (sign == '-') cs with
  | some r => some r
  | none =>
    let (digits, rest) := span Char.isDigit cs
    if digits.isEmpty then none else decimal? (sign :: digits) rest

def word? (cs : List Char) : Option (Written × List Char) :=
  match special? false cs with
  | some r => some r
  | none =>
    let (word, rest) := span Char.isAlpha cs
    match String.ofList word with
    | "true" => some (.bool true, rest)
    | "false" => some (.bool false, rest)
    | _ => none

mutual

/-- Reads a value. -/
def value? : Nat → List Char → Option (Written × List Char)
  | 0, _ => none
  | fuel + 1, cs =>
    match skipBlanks cs with
    | [] => none
    | c :: rest =>
      if c == '[' then (elements? fuel rest).map fun (items, rest) => (.array items, rest)
      else if c == '{' then (entries? fuel rest).map fun (es, rest) => (.table es, rest)
      else if isMark c then (quoted? true (c :: rest)).map fun (s, rest) => (.text s, rest)
      else if c.isDigit then numeral? (c :: rest)
      else if c == '-' || c == '+' then signed? c rest
      else word? (c :: rest)

/-- Reads the elements of an array up to its closing bracket. -/
def elements? : Nat → List Char → Option (List Written × List Char)
  | 0, _ => none
  | fuel + 1, cs =>
    match skipLines false cs with
    | ']' :: rest => some ([], rest)
    | cs =>
      match value? fuel cs with
      | none => none
      | some (v, rest) =>
        match skipLines false rest with
        | ',' :: rest => (elements? fuel rest).map fun (vs, rest) => (v :: vs, rest)
        | ']' :: rest => some ([v], rest)
        | _ => none

/-- Reads the entries of a table within braces up to the closing one. -/
def entries? : Nat → List Char → Option (List Entry × List Char)
  | 0, _ => none
  | fuel + 1, cs =>
    match skipLines false cs with
    | '}' :: rest => some ([], rest)
    | cs =>
      match pair? fuel cs with
      | none => none
      | some (e, rest) =>
        match skipLines false rest with
        | ',' :: rest => (entries? fuel rest).map fun (es, rest) => (e :: es, rest)
        | '}' :: rest => some ([e], rest)
        | _ => none

/-- Reads a key, an equals sign and a value. -/
def pair? : Nat → List Char → Option (Entry × List Char)
  | 0, _ => none
  | fuel + 1, cs =>
    match wholeKey? cs with
    | some (key, '=' :: rest) => (value? fuel rest).map fun (v, rest) => (.mk key v, rest)
    | _ => none

end

/-! ### Lines -/

/-- Reads a header after its opening bracket. -/
def header? : List Char → Option (Line × List Char)
  | '[' :: cs =>
    match wholeKey? cs with
    | some (key, ']' :: ']' :: rest) => some (.tables key, rest)
    | _ => none
  | cs =>
    match wholeKey? cs with
    | some (key, ']' :: rest) => some (.table key, rest)
    | _ => none

def line? : List Char → Option (Line × List Char)
  | '[' :: cs => header? cs
  | cs => (pair? (2 * cs.length + 2) cs).map fun (e, rest) => (.entry e, rest)

def linesFrom? : Nat → List Char → Option (List Line)
  | 0, _ => none
  | fuel + 1, cs =>
    match skipLines false cs with
    | [] => some []
    | cs =>
      match line? cs with
      | none => none
      | some (line, rest) =>
        if atLineEnd rest then (linesFrom? fuel rest).map (line :: ·) else none

/-- The lines of a text, after a byte order mark if it has one. -/
def lines? (text : String) : Option (List Line) :=
  let cs := match text.toList with
    | '\ufeff' :: cs => cs
    | cs => cs
  if isClean cs then linesFrom? (cs.length + 1) cs else none

end Classwright.Toml
