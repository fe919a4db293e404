import ProgramGraph.Error
import ProgramGraph.Resolution.Usage

set_option autoImplicit false

/-!
# Passes over a graph

A pass changes a graph and reports what it did, or fails. A pipeline runs passes in order up to the
first one that fails, and then cleans up after all of them, whether they ran or not.

## Main definitions

* `ProgramGraph.Report` — what a pass did.
* `ProgramGraph.Pass` — a pass, and `ProgramGraph.Pass.ofName`, the registered ones.
* `ProgramGraph.Pipeline.run` — running passes.

## Design

Passes may have effects outside the graph. What they act upon there is a world of type `ω`, which
is handed from pass to pass.
-/

namespace ProgramGraph

/-- One counter of a report. -/
structure Metric where
  name : String
  value : Nat
deriving DecidableEq, Repr

/-- What a pass did. -/
structure Report where
  /-- The name of the pass. -/
  pass : String
  /-- Its counters. -/
  metrics : List Metric
deriving DecidableEq, Repr

namespace Report

/-- The first counter with a name. -/
def metric? (report : Report) (name : String) : Option Nat :=
  (report.metrics.find? fun metric => metric.name == name).map Metric.value

/-- A report as text, one line for each counter. -/
def render (report : Report) : String :=
  report.pass ++ ":\n" ++
    String.join (report.metrics.map fun metric => s!"  {metric.name}: {metric.value}\n")

end Report

/-- A pass, which may act on a world of type `ω` besides the graph. -/
structure Pass (ω : Type) where
  /-- The name of the pass. -/
  name : String
  /-- Runs the pass. -/
  accept : Graph → ω → Except Fault (Graph × ω × Except Error Report)
  /-- Releases what the pass keeps. -/
  cleanup : ω → ω

namespace Pass

variable {ω : Type}

/-- The name of the pass that resolves usages. -/
def resolverName : String := "variable-usage-resolver"

/-- The other names of that pass. -/
def resolverAliases : List String := ["variable_usage_resolver", "usage"]

/-- The report on a resolution run. -/
def resolverReport (counters : Counters) : Report where
  pass := resolverName
  metrics := counters.rows.map fun (name, value) => { name, value }

/-- The pass that resolves usages. -/
def resolver : Pass ω where
  name := resolverName
  accept := fun g w => do
    let (g, index) ← g.resolveUsages
    return (g, w, .ok (resolverReport index.counters))
  cleanup := id

/-- The registered pass with a name. -/
def ofName (name : String) : Except Error (Pass ω) :=
  if (resolverName :: resolverAliases).contains name then .ok resolver
  else .error (.unknownPass name)

end Pass

/-- The names of the passes that run when nothing else is said. -/
def defaultPasses : List String := [Pass.resolverName]

/-- Passes in the order they run in. -/
abbrev Pipeline (ω : Type) := List (Pass ω)

namespace Pipeline

variable {ω : Type}

/-- The pipeline of the registered passes with some names. -/
def ofNames (names : List String) : Except Error (Pipeline ω) := names.mapM Pass.ofName

/-- The pipeline that runs when nothing else is said. -/
def standard : Pipeline ω := [Pass.resolver]

/-- Runs passes in order up to the first one that fails. -/
def acceptAll (g : Graph) (w : ω) :
    Pipeline ω → Except Fault (Graph × ω × Except Error (List Report))
  | [] => .ok (g, w, .ok [])
  | pass :: rest => do
    match ← pass.accept g w with
    | (g, w, .error e) => return (g, w, .error e)
    | (g, w, .ok report) =>
      let (g, w, outcome) ← acceptAll g w rest
      return (g, w, outcome.map (report :: ·))

/-- Cleans up after passes, in order. -/
def cleanupAll (passes : Pipeline ω) (w : ω) : ω := passes.foldl (fun w pass => pass.cleanup w) w

/-- Runs passes in order up to the first one that fails, and then cleans up after all of them. -/
def run (passes : Pipeline ω) (g : Graph) (w : ω) :
    Except Fault (Graph × ω × Except Error (List Report)) := do
  let (g, w, outcome) ← acceptAll g w passes
  return (g, cleanupAll passes w, outcome)

end Pipeline

end ProgramGraph
