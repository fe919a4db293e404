import ProgramGraph.Decimal.Layout
import ProgramGraph.Json.Mismatch
import ProgramGraph.Text.Quoted

set_option autoImplicit false

/-!
# Writing JSON

A value is written compactly, without any blanks, or spread over lines, indented by two blanks a
level. In strings only quotes, backslashes and control characters are escaped.

## Main definitions

* `ProgramGraph.Json.escapeChars` — the characters of a string.
* `ProgramGraph.Json.Value.compact` — a value in one piece.
* `ProgramGraph.Json.Value.pretty` — a value over several lines.
-/

namespace ProgramGraph.Json

/-! ## Strings and numbers -/

/-- A character as it stands in a string. -/
def escapeChar (c : Char) : List Char :=
  match c with
  | '"' => ['\\', '"']
  | '\\' => ['\\', '\\']
  | '\x08' => ['\\', 'b']
  | '\x0c' => ['\\', 'f']
  | '\n' => ['\\', 'n']
  | '\r' => ['\\', 'r']
  | '\t' => ['\\', 't']
  | c =>
    if c < ' ' then
      ['\\', 'u', '0', '0', Text.hexDigit (c.toNat / 16), Text.hexDigit (c.toNat % 16)]
    else [c]

/-- The characters of a string. -/
def escapeChars (cs : List Char) : List Char := cs.flatMap escapeChar

/-- A string with its quotes. -/
def writeText (s : String) : String :=
  "\"" ++ String.ofList (escapeChars s.toList) ++ "\""

/-- A number. -/
def Number.write : Number → String
  | .natural n => toString n
  | .negative n => "-" ++ toString n
  | .double bits => doubleLayout.write bits

/-! ## Values -/

namespace Value

mutual

/-- A value without blanks. -/
def compact : Value → String
  | .null => "null"
  | .bool b => if b then "true" else "false"
  | .number n => n.write
  | .text s => writeText s
  | .array vs => "[" ++ compactElements vs ++ "]"
  | .object ms => "\x7b" ++ compactMembers ms ++ "\x7d"

/-- Elements with commas between them. -/
def compactElements : List Value → String
  | [] => ""
  | [v] => compact v
  | v :: rest => compact v ++ "," ++ compactElements rest

/-- Members with commas between them. -/
def compactMembers : List (String × Value) → String
  | [] => ""
  | [(key, v)] => writeText key ++ ":" ++ compact v
  | (key, v) :: rest => writeText key ++ ":" ++ compact v ++ "," ++ compactMembers rest

end

/-- A new line, indented by a number of levels. -/
def newLine (level : Nat) : String := "\n" ++ String.ofList (List.replicate (2 * level) ' ')

mutual

/-- A value over several lines, at a level of indentation. -/
def prettyAt (level : Nat) : Value → String
  | .null => "null"
  | .bool b => if b then "true" else "false"
  | .number n => n.write
  | .text s => writeText s
  | .array [] => "[]"
  | .array vs => "[" ++ prettyElements (level + 1) vs ++ newLine level ++ "]"
  | .object [] => "\x7b\x7d"
  | .object ms => "\x7b" ++ prettyMembers (level + 1) ms ++ newLine level ++ "\x7d"

/-- Elements on lines of their own. -/
def prettyElements (level : Nat) : List Value → String
  | [] => ""
  | [v] => newLine level ++ prettyAt level v
  | v :: rest => newLine level ++ prettyAt level v ++ "," ++ prettyElements level rest

/-- Members on lines of their own. -/
def prettyMembers (level : Nat) : List (String × Value) → String
  | [] => ""
  | [(key, v)] => newLine level ++ writeText key ++ ": " ++ prettyAt level v
  | (key, v) :: rest =>
    newLine level ++ writeText key ++ ": " ++ prettyAt level v ++ "," ++ prettyMembers level rest

end

/-- A value over several lines. -/
def pretty (v : Value) : String := prettyAt 0 v

end Value

end ProgramGraph.Json
