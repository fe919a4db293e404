import ProgramGraph.Type.Cleaning
import ProgramGraph.Type.Descriptor

set_option autoImplicit false

/-!
# Reading type descriptors

Any text can be read as a type. Text that holds a placeholder is the unknown type. Otherwise it is
cleaned and cut into an optional modifier word with one blank, a name, and an adjustment; text
that has no such form becomes a name as a whole.

## Main definitions

* `ProgramGraph.Descriptor.parse` — the type a text stands for.
* `ProgramGraph.Descriptor.isPlaceholder` — whether a text stands for no type in particular.
* `ProgramGraph.Descriptor.split?` — the three parts of a cleaned text.

## Design

A word before the first blank is tried as the modifier first, even if nothing but an adjustment
follows: `char *` is the modifier `char` with an empty name.
-/

namespace ProgramGraph.Descriptor

open ProgramGraph.Text (isBlank)

/-! ## Placeholders -/

/-- Whether `word` occurs in a text. -/
def occurs (word : List Char) : List Char → Bool
  | [] => word.isEmpty
  | c :: rest => word.isPrefixOf (c :: rest) || occurs word rest

/-- The texts that stand for a type a front end could not name. -/
def placeholders : List (List Char) := ["?".toList, "ProblemType@".toList]

/-- Whether a text holds a placeholder. -/
def isPlaceholder (text : List Char) : Bool :=
  placeholders.any fun word => occurs word text

/-! ## The parts of a type -/

/-- The letters of a modifier. -/
def isLetter (c : Char) : Bool := c.isAlpha

/-- The characters of a type name. -/
def isNameChar (c : Char) : Bool :=
  c.isAlphanum || c == '_' || c == '$' || c == '.' || c == '<' || c == '>'

/-- The characters of an adjustment, blanks among them. -/
def isAdjustmentChar (c : Char) : Bool :=
  c == '[' || c == ']' || c == '*' || isBlank c

/-- A modifier word, and what follows the one blank behind it. -/
def splitModifier? (text : List Char) : Option (List Char × List Char) :=
  match text.dropWhile isLetter with
  | ' ' :: rest => some (text.takeWhile isLetter, rest)
  | _ => none

/-- A name and the adjustment behind it, without its blanks; `none` if anything else is there. -/
def splitName? (text : List Char) : Option (List Char × List Char) :=
  let rest := text.dropWhile isNameChar
  if rest.all isAdjustmentChar then
    some (text.takeWhile isNameChar, rest.filter fun c => !isBlank c)
  else none

/-- Modifier, name and adjustment of a cleaned text, with a modifier if that is possible. -/
def split? (text : List Char) : Option (List Char × List Char × List Char) :=
  let qualified := do
    let (modifier, rest) ← splitModifier? text
    let (name, adjustment) ← splitName? rest
    return (modifier, name, adjustment)
  qualified <|> (splitName? text).map fun (name, adjustment) => ([], name, adjustment)

/-- A descriptor from the characters of its parts. -/
def ofParts (modifier name adjustment : List Char) : Descriptor where
  name := String.ofList name
  adjustment := String.ofList adjustment
  modifier := String.ofList modifier

/-- The type that the characters of a text stand for. -/
def parseChars (text : List Char) : Descriptor :=
  if isPlaceholder text then unknown
  else
    let cleaned := Cleaning.clean text
    match split? cleaned with
    | some (modifier, name, adjustment) => ofParts modifier name adjustment
    | none => ofParts [] cleaned []

/-- The type a text stands for. -/
def parse (text : String) : Descriptor := parseChars text.toList

end ProgramGraph.Descriptor
