import ProgramGraph.ConfigFile

set_option autoImplicit false

/-!
# Outcomes

What a command leaves behind besides files: what it printed, the files it skipped, and why it
failed, if it did.

## Main definitions

* `ProgramGraph.Command.Failure` — why a command failed.
* `ProgramGraph.Command.Outcome` — what a command leaves behind.
-/

namespace ProgramGraph.Command

/-- Why a command failed. -/
inductive Failure where
  /-- There is something wrong with the configuration file. -/
  | config (failure : ConfigFile.Failure)
  /-- Nothing says what to resolve. -/
  | noInput
  /-- No output format has this name. -/
  | unknownFormat (name : String)
  /-- There are no documents at or below this path. -/
  | noDocuments (path : String)
  /-- A pass is not known, or failed. -/
  | pass (e : Error)
  /-- A node was referred to that is not there. -/
  | fault (f : Fault)

/-- What is said about a failure. -/
def Failure.message : Failure → String
  | .config failure => failure.message
  | .noInput => "no input given (use --input or set `input` in the config)"
  | .unknownFormat name => s!"unknown output format '{name}' (expected text or json)"
  | .noDocuments path => s!"no documents found under {path}"
  | .pass e => e.message
  | .fault _ => "no such node"

/-- The exit code for a failure. -/
def Failure.code : Failure → Nat
  | .fault _ => 101
  | _ => 1

/-- A file that was skipped. -/
structure Skipped where
  /-- The path of the file. -/
  path : String
  /-- Why it was skipped. -/
  reason : String
deriving DecidableEq, Repr

/-- What a command leaves behind besides files. -/
structure Outcome where
  /-- What it printed, one text after the other, each of them with a line end. -/
  printed : List String := []
  /-- The files it skipped, in order. -/
  skipped : List Skipped := []
  /-- Why it failed, if it did. -/
  failure : Option Failure := none

namespace Outcome

/-- The outcome of a command that failed before it printed anything. -/
def failed (failure : Failure) : Outcome := { failure := some failure }

/-- What is printed on standard output. -/
def output (outcome : Outcome) : String :=
  String.join (outcome.printed.map fun text => text ++ "\n")

/-- The exit code. -/
def code (outcome : Outcome) : Nat := (outcome.failure.map Failure.code).getD 0

end Outcome

end ProgramGraph.Command
