import ProgramGraph.Toml.Quoting
import ProgramGraph.Toml.Scalar
import ProgramGraph.Toml.Table

set_option autoImplicit false

/-!
# Reading TOML

TOML 1.0. Line ends of two characters count as one; apart from that, no control character but the
tabulator may stand in a text. Arrays and tables between braces are nested at most `maxDepth` deep,
and a key has at most as many parts.

## Main definitions

* `ProgramGraph.Toml.readKey` — the parts of a key, and the rest.
* `ProgramGraph.Toml.readValue` — the value at the start of a text, and the rest.
* `ProgramGraph.Toml.readStatements` — the statements of a text.
* `ProgramGraph.Toml.read` — the table that a text defines.

## Design

Every function answers the rest of the text, or nothing if the text is malformed. The recursion is
bounded by a number of steps, for which `stepsFor` of the text is always enough.
-/

namespace ProgramGraph.Toml

/-- Arrays and tables between braces are nested at most this deep. -/
def maxDepth : Nat := 79

/-- No fewer steps than reading a text takes. -/
def stepsFor (text : List Char) : Nat := 2 * text.length + 2

/-! ## Between tokens -/

/-- A text in which every line end is one character. -/
def unifyLineEnds : List Char → List Char
  | '\r' :: '\n' :: rest => '\n' :: unifyLineEnds rest
  | c :: rest => c :: unifyLineEnds rest
  | [] => []

/-- A text without the blanks at its start. -/
def skipBlanks (text : List Char) : List Char := text.dropWhile isBlank

/-- A text without the comment at its start. -/
def skipComment : List Char → List Char
  | '#' :: rest => rest.dropWhile isPlain
  | text => text

/-- A text without the blanks, comments and line ends at its start. The flag says whether it begins
inside a comment. -/
def skipGap (inComment : Bool) : List Char → List Char
  | [] => []
  | c :: rest =>
    if c = '\n' then skipGap false rest
    else if inComment then (if isPlain c then skipGap true rest else c :: rest)
    else if isBlank c then skipGap false rest
    else if c = '#' then skipGap true rest
    else c :: rest

/-- The text behind the line on which a statement ends. -/
def endLine (text : List Char) : Option (List Char) :=
  match skipComment (skipBlanks text) with
  | [] => some []
  | '\n' :: rest => some rest
  | _ => none

/-! ## Keys -/

/-- Whether a character may be part of a key without quotes. -/
def isKeyChar (c : Char) : Bool := c.isAlphanum || c = '_' || c = '-'

/-- The part of a key at the start of a text, and the rest. -/
def readPart (text : List Char) : Option (String × List Char) :=
  match readShortQuoted text with
  | some (part, rest) => some (String.ofList part, rest)
  | none =>
    let part := text.takeWhile isKeyChar
    if part.isEmpty then none else some (String.ofList part, text.dropWhile isKeyChar)

/-- The parts of a key with dots between them, in at most `steps` steps. -/
def readParts : Nat → List Char → Option (List String × List Char)
  | 0, _ => none
  | steps + 1, text => do
    let (part, rest) ← readPart (skipBlanks text)
    match skipBlanks rest with
    | '.' :: rest =>
      let (parts, rest) ← readParts steps rest
      return (part :: parts, rest)
    | rest => return ([part], rest)

/-- The parts of a key, and the rest behind the blanks that follow it. -/
def readKey (text : List Char) : Option (List String × List Char) := do
  let (parts, rest) ← readParts (text.length + 1) text
  guard (parts.length ≤ maxDepth)
  return (parts, rest)

/-! ## Values -/

mutual

/-- The value at the start of a text, with at most `depth` brackets inside each other. -/
def readValue : Nat → Nat → List Char → Option (Value × List Char)
  | 0, _, _ => none
  | steps + 1, depth, text =>
    match text, depth with
    | '"' :: _, _ | '\'' :: _, _ =>
      (readQuoted text).map fun (s, rest) => (.text (String.ofList s), rest)
    | '[' :: _, 0 | '\x7b' :: _, 0 => none
    | '[' :: rest, depth + 1 =>
      match skipGap false rest with
      | ']' :: rest => some (.array [], rest)
      | rest => (readElements steps depth rest).map fun (vs, rest) => (.array vs, rest)
    | '\x7b' :: rest, depth + 1 =>
      match skipBlanks rest with
      | '\x7d' :: rest => some (.table [], rest)
      | rest => do
        let (assignments, rest) ← readAssignments steps depth rest
        return (.table (← inlineTable assignments), rest)
    | text, _ => readScalar text

/-- The elements of an array up to its closing bracket; there is at least one, and a comma may
follow the last one. -/
def readElements : Nat → Nat → List Char → Option (List Value × List Char)
  | 0, _, _ => none
  | steps + 1, depth, text => do
    let (v, rest) ← readValue steps depth text
    match skipGap false rest with
    | ']' :: rest => return ([v], rest)
    | ',' :: rest =>
      match skipGap false rest with
      | ']' :: rest => return ([v], rest)
      | rest =>
        let (vs, rest) ← readElements steps depth rest
        return (v :: vs, rest)
    | _ => none

/-- The assignments of a table up to its closing brace; there is at least one. -/
def readAssignments : Nat → Nat → List Char → Option (List (List String × Value) × List Char)
  | 0, _, _ => none
  | steps + 1, depth, text => do
    match ← readKey text with
    | (path, '=' :: rest) =>
      let (v, rest) ← readValue steps depth (skipBlanks rest)
      match skipBlanks rest with
      | '\x7d' :: rest => return ([(path, v)], rest)
      | ',' :: rest =>
        let (assignments, rest) ← readAssignments steps depth rest
        return ((path, v) :: assignments, rest)
      | _ => none
    | _ => none

end

/-! ## Statements -/

/-- The statement at the start of a text, and the rest behind its line. -/
def readStatement (text : List Char) : Option (Statement × List Char) :=
  match text with
  | '[' :: '[' :: rest => do
    match ← readKey rest with
    | (path, ']' :: ']' :: rest) => return (.element path, ← endLine rest)
    | _ => none
  | '[' :: rest => do
    match ← readKey rest with
    | (path, ']' :: rest) => return (.table path, ← endLine rest)
    | _ => none
  | _ => do
    match ← readKey text with
    | (path, '=' :: rest) =>
      let (v, rest) ← readValue (stepsFor rest) maxDepth (skipBlanks rest)
      return (.assignment path v, ← endLine rest)
    | _ => none

/-- The statements of a text, in at most `steps` steps. -/
def readStatements : Nat → List Char → Option (List Statement)
  | 0, _ => none
  | steps + 1, text =>
    match skipGap false text with
    | [] => some []
    | text => do
      let (statement, rest) ← readStatement text
      return statement :: (← readStatements steps rest)

/-- A text without the mark of its encoding at its start. -/
def skipMark : List Char → List Char
  | '\uFEFF' :: rest => rest
  | text => text

/-- The table that a text defines, or nothing if the text is malformed. -/
def read (text : String) : Option (List (String × Value)) := do
  let text := unifyLineEnds (skipMark text.toList)
  tableOf (← readStatements (text.length + 1) text)

end ProgramGraph.Toml
