import ProgramGraph.Command.Resolve

set_option autoImplicit false

/-!
# Running commands

What each command does, over any way to get at files, and what the program says about itself.

## Main definitions

* `ProgramGraph.Command.run` — runs a command.
* `ProgramGraph.Command.versionText`, `ProgramGraph.Command.helpText` — what the program says about
  itself.
-/

namespace ProgramGraph.Command

open Terminal

variable {m : Type → Type} [Monad m]

/-- Shows what texts stand for as types. -/
def showTypes (texts : List String) : Outcome := { printed := [(Table.ofTypes texts).render] }

/-- Writes a configuration to begin with. -/
def writeStarter (files : Files.Access m) (theme : Theme) (overwrite : Bool)
    (config : Option String) : m Outcome := do
  match ← ConfigFile.save files config .starter overwrite with
  | .error failure => return .failed (.config failure)
  | .ok () =>
    return { printed := [theme.successLine s!"Wrote {config.getD ConfigFile.defaultPath}"] }

/-- Runs a command. -/
def run (files : Files.Access m) (theme : Theme) : Command → m Outcome
  | .resolve options => resolveDocuments files theme options
  | .types texts => return showTypes texts
  | .init overwrite config => writeStarter files theme overwrite config

/-! ## About the program -/

/-- The name and the version of the program. -/
def versionText : String := "unigraph 0.0.1"

/-- How the commands and their options are called. -/
def helpText : Option String → String
  | some "resolve" =>
    "Build a graph from unit documents and run the pass pipeline\n\n" ++
      "Usage: unigraph resolve [OPTIONS]\n\n" ++
      "Options:\n" ++
      "  -i, --input <INPUT>    Document file or directory " ++
      "(defaults to `input` from the config)\n" ++
      "  -f, --format <FORMAT>  Output format (text, json)\n" ++
      "  -c, --config <CONFIG>  Path to the config file\n" ++
      "  -v, --verbose          Enable verbose logging\n" ++
      "  -h, --help             Print help"
  | some "types" =>
    "Show how raw type strings are normalized\n\n" ++
      "Usage: unigraph types [OPTIONS] --raw <RAW>\n\n" ++
      "Options:\n" ++
      "  -r, --raw <RAW>  Raw type text, as a frontend would emit it\n" ++
      "  -v, --verbose    Enable verbose logging\n" ++
      "  -h, --help       Print help"
  | some "init" =>
    "Write a starter unigraph.toml\n\n" ++
      "Usage: unigraph init [OPTIONS]\n\n" ++
      "Options:\n" ++
      "      --force            Overwrite an existing config\n" ++
      "  -c, --config <CONFIG>  Where to write the config\n" ++
      "  -v, --verbose          Enable verbose logging\n" ++
      "  -h, --help             Print help"
  | _ =>
    "Language-agnostic program graph - link usages to declarations\n\n" ++
      "Usage: unigraph [OPTIONS] <COMMAND>\n\n" ++
      "Commands:\n" ++
      "  resolve  Build a graph from unit documents and run the pass pipeline\n" ++
      "  types    Show how raw type strings are normalized\n" ++
      "  init     Write a starter unigraph.toml\n" ++
      "  help     Print this message or the help of the given subcommand(s)\n\n" ++
      "Options:\n" ++
      "  -v, --verbose  Enable verbose logging\n" ++
      "  -h, --help     Print help\n" ++
      "  -V, --version  Print version"

end ProgramGraph.Command
