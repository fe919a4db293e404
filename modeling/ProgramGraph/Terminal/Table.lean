import ProgramGraph.Graph.Statistics
import ProgramGraph.Text.Split
import ProgramGraph.Text.Width
import ProgramGraph.Type.Join
import ProgramGraph.Type.Parse

set_option autoImplicit false

/-!
# Tables

A table has a header and rows, in a frame with round corners. Each cell has a blank on both sides
and stands at the left of its column, which is as wide as its widest line. A cell of several lines
makes its row as many lines high.

## Main definitions

* `ProgramGraph.Terminal.Table` — a table, and `ProgramGraph.Terminal.Table.render`, its text.
* `ProgramGraph.Terminal.Table.ofCounts` — a table of named counts.
* `ProgramGraph.Terminal.Table.ofTypes` — a table of what texts stand for as types.
-/

namespace ProgramGraph.Terminal

/-- A table. All rows have as many cells as the header. -/
structure Table where
  /-- The names of the columns. -/
  header : List String
  /-- The cells of each row. -/
  rows : List (List String)

namespace Table

/-! ## Layout -/

/-- The columns of the widest line of a cell. -/
def cellWidth (cell : String) : Nat :=
  (Text.lines cell).foldl (fun widest line => max widest (Text.columns line)) 0

/-- The widths of the columns. -/
def widths (table : Table) : List Nat :=
  table.rows.foldl (fun widest row => List.zipWith max widest (row.map cellWidth))
    (table.header.map cellWidth)

/-- A text followed by blanks up to a width. -/
def pad (width : Nat) (text : String) : String :=
  text ++ String.ofList (List.replicate (width - Text.columns text) ' ')

/-- A horizontal line between two ends, with a crossing between columns. -/
def rule (widths : List Nat) (left crossing right : String) : String :=
  let segments := widths.map fun width => String.ofList (List.replicate (width + 2) '─')
  left ++ crossing.intercalate segments ++ right

/-- One line of a row. -/
def rowLine (widths : List Nat) (cells : List (List String)) (i : Nat) : String :=
  let padded := List.zipWith (fun width cell => " " ++ pad width (cell.getD i "") ++ " ")
    widths cells
  "│" ++ "│".intercalate padded ++ "│"

/-- The lines of a row. -/
def rowLines (widths : List Nat) (row : List String) : List String :=
  let cells := row.map Text.lines
  let height := cells.foldl (fun highest cell => max highest cell.length) 0
  (List.range height).map (rowLine widths cells)

/-- The lines of a table. -/
def lines (table : Table) : List String :=
  let widths := table.widths
  rule widths "╭" "┬" "╮" :: rowLines widths table.header ++
    rule widths "├" "┼" "┤" :: table.rows.flatMap (rowLines widths) ++
    [rule widths "╰" "┴" "╯"]

/-- A table as text. One without rows is empty. -/
def render (table : Table) : String :=
  if table.rows.isEmpty then "" else "\n".intercalate table.lines

/-! ## Contents -/

/-- A table of named counts. -/
def ofCounts (counts : List (String × Nat)) : Table where
  header := ["Metric", "Value"]
  rows := counts.map fun (name, count) => [name, toString count]

/-- What sort of type a descriptor stands for. -/
def sortOf (type : Descriptor) : String :=
  if type.isUnknown then "unknown"
  else if type.isPrimitive then "primitive"
  else "nominal"

/-- The row for a text and the type it stands for. -/
def typeRow (text : String) : List String :=
  let type := Descriptor.parse text
  [text, type.modifier, type.name, type.adjustment, type.render, sortOf type]

/-- A table of what texts stand for as types. -/
def ofTypes (texts : List String) : Table where
  header := ["Input", "Modifier", "Name", "Adjustment", "Rendered", "Kind"]
  rows := texts.map typeRow

/-- A table of the counts of a graph. -/
def ofStatistics (s : Statistics) : Table :=
  ofCounts [("units", s.units), ("nodes", s.nodes), ("typed nodes", s.typed),
    ("references", s.references), ("resolved references", s.resolvedReferences),
    ("member accesses", s.memberAccesses), ("resolved members", s.resolvedMembers),
    ("dummy declarations", s.dummies)]

end Table

end ProgramGraph.Terminal
