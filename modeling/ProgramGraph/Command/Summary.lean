import ProgramGraph.Graph.Link
import ProgramGraph.Json.Printer
import ProgramGraph.Pipeline
import ProgramGraph.Terminal.Message
import ProgramGraph.Terminal.Table

set_option autoImplicit false

/-!
# Summaries

What is shown of a graph after its passes: the reports of the passes, the counts of the graph and
its links, as text or as JSON with sorted keys.

## Main definitions

* `ProgramGraph.Command.Summary` — what is shown.
* `ProgramGraph.Command.Summary.lines` — the summary as text.
* `ProgramGraph.Command.Summary.toJson` — the summary as a JSON value.
-/

namespace ProgramGraph.Command

open Terminal

/-- What is shown of a graph. -/
structure Summary where
  reports : List Report
  statistics : Statistics
  links : List Link

namespace Summary

/-! ## Text -/

/-- The lines for the report on a pass. -/
def reportLines (theme : Theme) (report : Report) : List String :=
  let counts := report.metrics.map fun metric => (metric.name, metric.value)
  theme.sectionLines Icon.gear report.pass ++ [(Table.ofCounts counts).render]

/-- The usage that a link comes from. -/
def usageText (link : Link) : String :=
  match link.line with
  | some line => s!"{link.kind.label} {link.name}:{line}"
  | none => s!"{link.kind.label} {link.name}"

/-- The declaration that a link points at. -/
def targetText (theme : Theme) (link : Link) : String :=
  theme.dimmed "→" ++ " " ++
    theme.declaration s!"{link.targetTag.label} #{link.target}" link.dummy

/-- The line for a link. -/
def linkLine (theme : Theme) (link : Link) : String :=
  theme.rowLine (usageText link) (targetText theme link)

/-- The line that says whether all links point at declarations that were not made up. -/
def verdictLine (theme : Theme) (links : List Link) : String :=
  let dummies := links.countP Link.dummy
  if dummies = 0 then theme.successLine "All links point at real declarations"
  else theme.noteLine "linked to synthesized declarations" (toString dummies)

/-- A summary as text. -/
def lines (theme : Theme) (summary : Summary) : List String :=
  summary.reports.flatMap (reportLines theme) ++
    theme.sectionLines Icon.chart "Graph" ++
    [(Table.ofStatistics summary.statistics).render] ++
    theme.sectionLines Icon.link s!"Links ({summary.links.length})" ++
    summary.links.map (linkLine theme) ++
    [verdictLine theme summary.links]

/-! ## JSON -/

open Json (Value)

/-- The counts of a graph. -/
def statisticsJson (s : Statistics) : Value :=
  .object [("dummies", .ofNat s.dummies), ("member_accesses", .ofNat s.memberAccesses),
    ("nodes", .ofNat s.nodes), ("references", .ofNat s.references),
    ("resolved_members", .ofNat s.resolvedMembers),
    ("resolved_references", .ofNat s.resolvedReferences),
    ("typed", .ofNat s.typed), ("units", .ofNat s.units)]

/-- A counter of a report. -/
def metricJson (metric : Metric) : Value :=
  .object [("name", .text metric.name), ("value", .ofNat metric.value)]

/-- The report on a pass. -/
def reportJson (report : Report) : Value :=
  .object [("metrics", .array (report.metrics.map metricJson)), ("pass", .text report.pass)]

/-- A link. -/
def linkJson (link : Link) : Value :=
  .object [("dummy", .bool link.dummy), ("from", .ofNat link.source),
    ("kind", .text link.kind.label), ("line", .ofNat? link.line), ("name", .text link.name),
    ("target", .text link.targetTag.label), ("to", .ofNat link.target)]

/-- A summary as a JSON value. -/
def toJson (summary : Summary) : Value :=
  .object [("links", .array (summary.links.map linkJson)),
    ("reports", .array (summary.reports.map reportJson)),
    ("stats", statisticsJson summary.statistics)]

end Summary

end ProgramGraph.Command
