set_option autoImplicit false

/-!
# TOML values

What a key of a TOML text may stand for.

## Main definitions

* `ProgramGraph.Toml.Value` — a value.
-/

namespace ProgramGraph.Toml

/-- A value. -/
inductive Value where
  | text (s : String)
  | integer (n : Int)
  /-- A real number, as it is written. -/
  | real (written : String)
  | boolean (b : Bool)
  /-- A date, a time or both, as they are written. -/
  | moment (written : String)
  | array (elements : List Value)
  | table (entries : List (String × Value))

end ProgramGraph.Toml
