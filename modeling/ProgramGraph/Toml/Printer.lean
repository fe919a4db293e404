import ProgramGraph.Toml.Quoting

set_option autoImplicit false

/-!
# Writing TOML

Assignments of texts and of arrays of texts, one below the other. An array of more than one element
has a line for each of them.

## Main definitions

* `ProgramGraph.Toml.writeTexts` — an array of texts.
* `ProgramGraph.Toml.writeAssignment` — the line that assigns a value to a key.
-/

namespace ProgramGraph.Toml

/-- The line of an element of a long array. -/
def elementLine (text : String) : String := "    " ++ quote text ++ ",\n"

/-- An array of texts. -/
def writeTexts : List String → String
  | [] => "[]"
  | [text] => "[" ++ quote text ++ "]"
  | texts => "[\n" ++ String.join (texts.map elementLine) ++ "]"

/-- The line that assigns a written value to a key. -/
def writeAssignment (key value : String) : String := key ++ " = " ++ value ++ "\n"

end ProgramGraph.Toml
