import ProgramGraph.Command.Arguments
import ProgramGraph.Command.Outcome
import ProgramGraph.Command.Summary
import ProgramGraph.Files.Search
import ProgramGraph.Frontend

set_option autoImplicit false

/-!
# Resolving documents

The command that puts documents into one graph, runs the passes and shows what came of it. Files
that cannot be read are skipped. What the command line does not say is taken from the
configuration.

## Main definitions

* `ProgramGraph.Command.Format` — how the result is shown.
* `ProgramGraph.Command.Settings` — what is resolved, how it is shown and which passes run.
* `ProgramGraph.Command.Intake` — a graph with what was said while it was filled.
* `ProgramGraph.Command.resolveDocuments` — the command.
-/

namespace ProgramGraph.Command

open Terminal

/-! ## Settings -/

/-- How the result is shown. -/
inductive Format where
  | text
  | json
deriving DecidableEq, Repr

/-- The format with a name, in upper or lower case. -/
def Format.ofName (name : String) : Except Failure Format :=
  match Text.lowercase name with
  | "text" => .ok .text
  | "json" => .ok .json
  | other => .error (.unknownFormat other)

/-- What is resolved, how it is shown and which passes run. -/
structure Settings where
  input : String
  format : Format
  passes : List String
deriving DecidableEq, Repr

/-- The settings that follow from a command line and a configuration. -/
def Settings.of (options : ResolveOptions) (config : Config) : Except Failure Settings :=
  match options.input <|> config.input with
  | none => .error .noInput
  | some input => do
    let format ← Format.ofName ((options.format <|> config.format).getD "text")
    return { input, format, passes := config.passNames }

/-! ## Documents -/

/-- A graph with what was said while it was filled. -/
structure Intake where
  graph : Graph := {}
  /-- The paths of the files that became units. -/
  accepted : List String := []
  /-- The files that were skipped. -/
  skipped : List Skipped := []

/-- The intake with a file that is skipped. -/
def Intake.skip (intake : Intake) (path reason : String) : Intake :=
  { intake with skipped := intake.skipped ++ [{ path, reason }] }

/-- The intake after another file. A file without a front end is passed over in silence. Whatever comes
of a file, the files behind it are put into the graph that it leaves. -/
def Intake.add (intake : Intake) (file : Files.Found) : Intake :=
  match file.text with
  | none => intake.skip file.path Files.Refusal.notText.message
  | some text =>
    match parseInto file.path text intake.graph with
    | (.error e, graph) => { intake with graph }.skip file.path e.message
    | (.ok none, graph) => { intake with graph }
    | (.ok (some _), graph) =>
      { intake with graph, accepted := intake.accepted ++ [file.path] }

/-- The intake of files, in order. -/
def Intake.of (files : List Files.Found) : Intake := files.foldl Intake.add {}

/-- Whether a file counts when a directory is searched. -/
def isDocument (path : String) : Bool := (Frontend.forPath? path).isSome

/-- Whether the text of a file with a name matters when a directory is searched. -/
def isRelevant (name : String) : Bool := isDocument name || name.startsWith "."

/-! ## Passes -/

/-- Runs passes, by their names, over a graph that was filled without faults, and takes stock. -/
def summarize (passes : List String) (g : Graph) : Except Failure Summary := do
  let g ← g.checked.mapError Failure.fault
  let pipeline : Pipeline Unit ← (Pipeline.ofNames passes).mapError Failure.pass
  let (g, _, outcome) ← (pipeline.run g ()).mapError Failure.fault
  let reports ← outcome.mapError Failure.pass
  let statistics ← g.statistics.mapError Failure.fault
  let links ← g.links.mapError Failure.fault
  return { reports, statistics, links }

/-- A summary in a format. -/
def Summary.inFormat (theme : Theme) (format : Format) (summary : Summary) : List String :=
  match format with
  | .text => summary.lines theme
  | .json => [summary.toJson.pretty]

/-- What is said before the passes run. -/
def opening (theme : Theme) (format : Format) (count : Nat) (intake : Intake) : List String :=
  match format with
  | .text =>
    theme.titleLine s!"Resolving {count} document(s)" :: intake.accepted.map theme.fileLine
  | .json => []

/-- The outcome of resolving files. -/
def Settings.outcome (theme : Theme) (settings : Settings) (files : List Files.Found) : Outcome :=
  if files.isEmpty then .failed (.noDocuments settings.input)
  else
    let intake := Intake.of files
    let printed := opening theme settings.format files.length intake
    match summarize settings.passes intake.graph with
    | .error failure => { printed, skipped := intake.skipped, failure := some failure }
    | .ok summary =>
      { printed := printed ++ summary.inFormat theme settings.format, skipped := intake.skipped }

/-! ## The command -/

variable {m : Type → Type} [Monad m]

/-- The files at or below a path that may be documents. -/
def collect (files : Files.Access m) (path : String) : m (List Files.Found) := do
  match ← files.look isRelevant path with
  | none => return []
  | some t => return Files.collect isDocument path (← files.around path) t

/-- Resolves documents. -/
def resolveDocuments (files : Files.Access m) (theme : Theme) (options : ResolveOptions) :
    m Outcome := do
  match ← ConfigFile.load files options.config with
  | .error failure => return .failed (.config failure)
  | .ok config =>
    match Settings.of options (config.getD {}) with
    | .error failure => return .failed failure
    | .ok settings => return settings.outcome theme (← collect files settings.input)

end ProgramGraph.Command
