import ProgramGraph.Decimal.Layout
import ProgramGraph.Json.Value
import ProgramGraph.Text.Quoted

set_option autoImplicit false

/-!
# Values of the wrong shape

What can be wrong with a well-formed JSON value that is to stand for something, and how it is said.

## Main definitions

* `ProgramGraph.Json.Mismatch` — the causes, and `ProgramGraph.Json.Mismatch.message`.
* `ProgramGraph.Json.Found` — how a value is named in a message.
* `ProgramGraph.Json.Failure` — a malformed text, or a mismatch.
-/

namespace ProgramGraph.Json

/-- How doubles are written in messages: positionally from `1e-5` up to below `1e16`. -/
def doubleLayout : Decimal.Layout :=
  { leastPositional := -5, greatestPositional := 15, exponentDigits := 2 }

/-- What is found in the place of something else. -/
inductive Found where
  | null
  | bool (b : Bool)
  | number (n : Number)
  | text (s : String)
  | sequence
  | map
deriving DecidableEq, Repr

/-- The name of a number in a message. -/
def Number.describe : Number → String
  | .natural n => s!"integer `{n}`"
  | .negative n => s!"integer `-{n}`"
  | .double bits => s!"floating point `{doubleLayout.write bits}`"

/-- The name of what is found in a message. -/
def Found.describe : Found → String
  | .null => "null"
  | .bool b => s!"boolean `{b}`"
  | .number n => n.describe
  | .text s => "string " ++ Text.quoted s
  | .sequence => "sequence"
  | .map => "map"

/-- What a value is found as. -/
def Value.found : Value → Found
  | .null => .null
  | .bool b => .bool b
  | .number n => .number n
  | .text s => .text s
  | .array _ => .sequence
  | .object _ => .map

/-- What is wrong with a value. -/
inductive Mismatch where
  /-- A value of another type. -/
  | invalidType (found : Found) (wanted : String)
  /-- A value of the type that is out of range. -/
  | invalidValue (found : Found) (wanted : String)
  /-- An array with the wrong number of elements. -/
  | invalidLength (length : Nat) (wanted : String)
  /-- A name that is none of those allowed. -/
  | unknownVariant (name : String) (allowed : List String)
  /-- A required member is missing. -/
  | missingField (name : String)
  /-- A member is there twice. -/
  | duplicateField (name : String)
deriving DecidableEq, Repr

/-- A name as it stands in a message. -/
def ticked (name : String) : String := "`" ++ name ++ "`"

/-- The names that are allowed, as they stand in a message. -/
def oneOf : List String → String
  | [] => "there are no variants"
  | [a] => ticked a
  | [a, b] => ticked a ++ " or " ++ ticked b
  | names => "one of " ++ String.intercalate ", " (names.map ticked)

/-- The message for a mismatch. -/
def Mismatch.message : Mismatch → String
  | .invalidType found wanted => s!"invalid type: {found.describe}, expected {wanted}"
  | .invalidValue found wanted => s!"invalid value: {found.describe}, expected {wanted}"
  | .invalidLength length wanted => s!"invalid length {length}, expected {wanted}"
  | .unknownVariant name allowed =>
    "unknown variant " ++ ticked name ++ ", expected " ++ oneOf allowed
  | .missingField name => "missing field " ++ ticked name
  | .duplicateField name => "duplicate field " ++ ticked name

/-- Why a text does not stand for anything of the wanted sort. -/
inductive Failure where
  /-- The text is malformed. -/
  | malformed
  /-- The text is well formed as far as it was read, but has the wrong shape. -/
  | mismatch (m : Mismatch)
deriving DecidableEq, Repr

end ProgramGraph.Json
