import ProgramGraph.Json.Number
import ProgramGraph.Text.Hexadecimal

set_option autoImplicit false

/-!
# Reading JSON

Strict JSON: no comments, no trailing commas, no control characters in strings, no lone
surrogates, and no more than `maxDepth` arrays and objects inside each other. Where a value is
skipped instead of read, its nesting is not limited and its numbers and surrogates are not looked
into.

## Main definitions

* `ProgramGraph.Json.readString` — the text of a string, and the rest.
* `ProgramGraph.Json.readValue` — the value at the start of a text, and the rest.
* `ProgramGraph.Json.skipValue` — the rest behind a value.
* `ProgramGraph.Json.atEnd` — whether nothing but blanks is left.

## Design

Every function answers the rest of the text, or nothing if the text is malformed. The recursion is
bounded by a number of steps, for which `stepsFor` of the text is always enough.
-/

namespace ProgramGraph.Json

/-! ## Blanks -/

/-- The blanks between tokens. -/
def isBlank (c : Char) : Bool := c == ' ' || c == '\n' || c == '\t' || c == '\r'

/-- A text without the blanks at its start. -/
def skipBlanks (text : List Char) : List Char := text.dropWhile isBlank

/-- Whether nothing but blanks is left. -/
def atEnd (text : List Char) : Bool := text.all isBlank

/-- No fewer steps than reading a text takes. -/
def stepsFor (text : List Char) : Nat := 2 * text.length + 2

/-! ## Strings -/

/-- Whether a number is the first half of a surrogate pair. -/
def isHighSurrogate (n : Nat) : Bool := 0xD800 ≤ n && n < 0xDC00

/-- Whether a number is the second half of a surrogate pair. -/
def isLowSurrogate (n : Nat) : Bool := 0xDC00 ≤ n && n < 0xE000

/-- The character of an escape by number, where a surrogate must be followed by its partner. -/
def readCodePoint (text : List Char) : Option (Char × List Char) := do
  let (n, rest) ← Text.readHex 4 text
  if isHighSurrogate n then
    match rest with
    | '\\' :: 'u' :: rest =>
      let (low, rest) ← Text.readHex 4 rest
      guard (isLowSurrogate low)
      return (Char.ofNat (0x10000 + (n - 0xD800) * 0x400 + (low - 0xDC00)), rest)
    | _ => none
  else
    guard (!isLowSurrogate n)
    return (Char.ofNat n, rest)

/-- The character that a letter behind a backslash stands for. -/
def escaped? : Char → Option Char
  | '"' => some '"'
  | '\\' => some '\\'
  | '/' => some '/'
  | 'b' => some '\x08'
  | 'f' => some '\x0c'
  | 'n' => some '\n'
  | 'r' => some '\r'
  | 't' => some '\t'
  | _ => none

/-- The character of an escape, from behind the backslash on. -/
def readEscape : List Char → Option (Char × List Char)
  | 'u' :: rest => readCodePoint rest
  | c :: rest => (escaped? c).map fun meant => (meant, rest)
  | [] => none

/-- The characters of a string from behind its opening quote on, in at most `steps` steps. -/
def readChars : Nat → List Char → Option (List Char × List Char)
  | 0, _ => none
  | _ + 1, [] => none
  | _ + 1, '"' :: rest => some ([], rest)
  | steps + 1, '\\' :: rest => do
    let (c, rest) ← readEscape rest
    let (cs, rest) ← readChars steps rest
    return (c :: cs, rest)
  | steps + 1, c :: rest => do
    guard (' ' ≤ c)
    let (cs, rest) ← readChars steps rest
    return (c :: cs, rest)

/-- The text of a string, from behind its opening quote on. -/
def readString (text : List Char) : Option (String × List Char) :=
  (readChars (text.length + 1) text).map fun (cs, rest) => (String.ofList cs, rest)

/-- Skips an escape, from behind the backslash on. -/
def skipEscape : List Char → Option (List Char)
  | 'u' :: rest => (Text.readHex 4 rest).map Prod.snd
  | c :: rest => if (escaped? c).isSome then some rest else none
  | [] => none

/-- Skips a string from behind its opening quote on, in at most `steps` steps. -/
def skipString : Nat → List Char → Option (List Char)
  | 0, _ => none
  | _ + 1, [] => none
  | _ + 1, '"' :: rest => some rest
  | steps + 1, '\\' :: rest => do skipString steps (← skipEscape rest)
  | steps + 1, c :: rest => if ' ' ≤ c then skipString steps rest else none

/-! ## Values -/

/-- The value at the start of a text that is neither an array nor an object. -/
def readScalar : List Char → Option (Value × List Char)
  | 'n' :: 'u' :: 'l' :: 'l' :: rest => some (.null, rest)
  | 't' :: 'r' :: 'u' :: 'e' :: rest => some (.bool true, rest)
  | 'f' :: 'a' :: 'l' :: 's' :: 'e' :: rest => some (.bool false, rest)
  | '"' :: rest => (readString rest).map fun (s, rest) => (.text s, rest)
  | text => (readNumber text).map fun (n, rest) => (.number n, rest)

/-- Behind a key: skips the colon. -/
def skipColon (text : List Char) : Option (List Char) :=
  match skipBlanks text with
  | ':' :: rest => some rest
  | _ => none

/-- The key of a member with its colon, and the rest. -/
def readKey (text : List Char) : Option (String × List Char) := do
  match skipBlanks text with
  | '"' :: rest =>
    let (key, rest) ← readString rest
    return (key, ← skipColon rest)
  | _ => none

mutual

/-- The value at the start of a text, with at most `depth` arrays and objects inside each other. -/
def readValue : Nat → Nat → List Char → Option (Value × List Char)
  | 0, _, _ => none
  | steps + 1, depth, text =>
    match skipBlanks text, depth with
    | '[' :: _, 0 => none
    | '{' :: _, 0 => none
    | '[' :: rest, depth + 1 =>
      match skipBlanks rest with
      | ']' :: rest => some (.array [], rest)
      | rest => (readElements steps depth rest).map fun (vs, rest) => (.array vs, rest)
    | '{' :: rest, depth + 1 =>
      match skipBlanks rest with
      | '}' :: rest => some (.object [], rest)
      | rest => (readMembers steps depth rest).map fun (ms, rest) => (.object ms, rest)
    | text, _ => readScalar text

/-- The elements of an array up to its closing bracket; there is at least one. -/
def readElements : Nat → Nat → List Char → Option (List Value × List Char)
  | 0, _, _ => none
  | steps + 1, depth, text => do
    let (v, rest) ← readValue steps depth text
    match skipBlanks rest with
    | ',' :: rest =>
      let (vs, rest) ← readElements steps depth rest
      return (v :: vs, rest)
    | ']' :: rest => return ([v], rest)
    | _ => none

/-- The members of an object up to its closing brace; there is at least one. -/
def readMembers : Nat → Nat → List Char → Option (List (String × Value) × List Char)
  | 0, _, _ => none
  | steps + 1, depth, text => do
    let (key, rest) ← readKey text
    let (v, rest) ← readValue steps depth rest
    match skipBlanks rest with
    | ',' :: rest =>
      let (ms, rest) ← readMembers steps depth rest
      return ((key, v) :: ms, rest)
    | '}' :: rest => return ([(key, v)], rest)
    | _ => none

end

/-! ## Skipping -/

/-- Skips a value that is neither an array nor an object. -/
def skipScalar : List Char → Option (List Char)
  | 'n' :: 'u' :: 'l' :: 'l' :: rest => some rest
  | 't' :: 'r' :: 'u' :: 'e' :: rest => some rest
  | 'f' :: 'a' :: 'l' :: 's' :: 'e' :: rest => some rest
  | '"' :: rest => skipString (rest.length + 1) rest
  | text => skipNumber text

/-- Skips the key of a member with its colon. -/
def skipKey (text : List Char) : Option (List Char) := do
  match skipBlanks text with
  | '"' :: rest => skipColon (← skipString (rest.length + 1) rest)
  | _ => none

mutual

/-- Skips a value. -/
def skipValue : Nat → List Char → Option (List Char)
  | 0, _ => none
  | steps + 1, text =>
    match skipBlanks text with
    | '[' :: rest =>
      match skipBlanks rest with
      | ']' :: rest => some rest
      | rest => skipElements steps rest
    | '{' :: rest =>
      match skipBlanks rest with
      | '}' :: rest => some rest
      | rest => skipMembers steps rest
    | text => skipScalar text

/-- Skips the elements of an array up to its closing bracket. -/
def skipElements : Nat → List Char → Option (List Char)
  | 0, _ => none
  | steps + 1, text => do
    match skipBlanks (← skipValue steps text) with
    | ',' :: rest => skipElements steps rest
    | ']' :: rest => some rest
    | _ => none

/-- Skips the members of an object up to its closing brace. -/
def skipMembers : Nat → List Char → Option (List Char)
  | 0, _ => none
  | steps + 1, text => do
    match skipBlanks (← skipValue steps (← skipKey text)) with
    | ',' :: rest => skipMembers steps rest
    | '}' :: rest => some rest
    | _ => none

end

end ProgramGraph.Json
