import ProgramGraph.Pipeline
import ProgramGraph.Toml.Printer
import ProgramGraph.Toml.Reader

set_option autoImplicit false

/-!
# Configurations

What is resolved, how the result is shown and which passes run, where the command line says nothing
else. A configuration is kept in a TOML text with the keys `input`, `format` and `passes`, each of
which may be missing. Other keys do not matter.

## Main definitions

* `ProgramGraph.Config` — a configuration.
* `ProgramGraph.Config.read` — the configuration in a text.
* `ProgramGraph.Config.render` — the text of a configuration.
* `ProgramGraph.Config.passNames` — the passes that run.
-/

namespace ProgramGraph

/-- A configuration. -/
structure Config where
  /-- The document or the directory to resolve. -/
  input : Option String := none
  /-- How the result is shown. -/
  format : Option String := none
  /-- The names of the passes, in the order they run in. -/
  passes : Option (List String) := none
deriving DecidableEq, Repr

namespace Config

/-- The configuration to begin with. -/
def starter : Config where
  input := some "."
  format := some "text"
  passes := some defaultPasses

/-- The names of the passes that run. -/
def passNames (config : Config) : List String := config.passes.getD defaultPasses

/-! ## Reading -/

/-- The text that a value is. -/
def textOf? : Toml.Value → Option String
  | .text s => some s
  | _ => none

/-- The texts that a value is an array of. -/
def textsOf? : Toml.Value → Option (List String)
  | .array vs => vs.mapM textOf?
  | _ => none

/-- What a key stands for, which may be missing but must have the right form. -/
def lookUp {α : Type} (read : Toml.Value → Option α) (key : String)
    (entries : List (String × Toml.Value)) : Option (Option α) :=
  match entries.lookup key with
  | none => some none
  | some v => (read v).map some

/-- The configuration in a table. -/
def ofTable (entries : List (String × Toml.Value)) : Option Config := do
  return {
    input := ← lookUp textOf? "input" entries
    format := ← lookUp textOf? "format" entries
    passes := ← lookUp textsOf? "passes" entries }

/-- The configuration in a text, or nothing if the text is malformed or a key does not stand for
what it should. -/
def read (text : String) : Option Config := Toml.read text >>= ofTable

/-! ## Writing -/

/-- The lines for a key that may be missing. -/
def writeOptional {α : Type} (write : α → String) (key : String) : Option α → String
  | some a => Toml.writeAssignment key (write a)
  | none => ""

/-- The text of a configuration. -/
def render (config : Config) : String :=
  writeOptional Toml.quote "input" config.input ++
    writeOptional Toml.quote "format" config.format ++
    writeOptional Toml.writeTexts "passes" config.passes

end Config

end ProgramGraph
