import ProgramGraph.Config
import ProgramGraph.Files.Tree

set_option autoImplicit false

/-!
# Configuration files

Where a configuration is kept. A missing file is no error when a configuration is loaded, and a
file that is there is only written over if that is asked for.

## Main definitions

* `ProgramGraph.ConfigFile.load` — the configuration in a file.
* `ProgramGraph.ConfigFile.save` — keeps a configuration in a file.
-/

namespace ProgramGraph.ConfigFile

/-- Where the configuration is kept if nothing else is said. -/
def defaultPath : String := "unigraph.toml"

/-- What can go wrong with a configuration file. -/
inductive Failure where
  /-- The file can be neither read nor written. -/
  | refused (refusal : Files.Refusal)
  /-- The text of the file is no configuration. -/
  | malformed
  /-- The file is there already. -/
  | exists (path : String)
deriving DecidableEq, Repr

/-- What is said about a failure. -/
def Failure.message : Failure → String
  | .refused refusal => refusal.message
  | .malformed => "TOML parse error"
  | .exists path => s!"config already exists at {path} (use --force to overwrite)"

/-- The configuration in a file that is there. -/
def readTree (t : Files.Tree) : Except Failure Config :=
  match t.text with
  | .error refusal => .error (.refused refusal)
  | .ok text =>
    match Config.read text with
    | none => .error .malformed
    | some config => .ok config

variable {m : Type → Type} [Monad m]

/-- The configuration in a file, or nothing if the file is missing. -/
def load (files : Files.Access m) (path : Option String) :
    m (Except Failure (Option Config)) := do
  match ← files.look (fun _ => false) (path.getD defaultPath) with
  | none => return .ok none
  | some t => return (readTree t).map some

/-- Keeps a configuration in a file. A file that is there is only written over if that is asked
for. -/
def save (files : Files.Access m) (path : Option String) (config : Config) (overwrite : Bool) :
    m (Except Failure Unit) := do
  let path := path.getD defaultPath
  if !overwrite && (← files.look (fun _ => false) path).isSome then
    return .error (.exists path)
  match ← files.write path config.render with
  | .ok () => return .ok ()
  | .error refusal => return .error (.refused refusal)

end ProgramGraph.ConfigFile
