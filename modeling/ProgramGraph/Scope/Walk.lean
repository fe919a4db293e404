import ProgramGraph.Graph.Children
import ProgramGraph.Scope.Table
import ProgramGraph.Type.Parse

set_option autoImplicit false

/-!
# Walking a syntax tree with its scopes

A walk visits a node and its parts in source order. On the way it enters scopes and value
declarations into a table, and keeps the type that the innermost enclosing record declares. At each
node a handler is called, which may change the graph; the parts of the node are read only
afterwards, so what the handler did decides where the walk goes on.

## Main definitions

* `ProgramGraph.Visit` — what a handler is told about a node.
* `ProgramGraph.Walk.Step` — what is still to be done.
* `ProgramGraph.Walk.advance` — one step of a walk.
* `ProgramGraph.walk` — a whole walk.

## Design

What is still to be done is a stack of steps; a node puts its parts on the stack, and below them a
step that closes what the node opened. A value declaration belongs to the scope around it, not to
the one it opens itself.

A walk ends on its own where links do not run in a circle. In a graph with `n` nodes no chain of
parts is longer than `n`, and no node has more parts than there are links, which bounds the number
of steps.
-/

namespace ProgramGraph

/-- What a handler is told about a node. -/
structure Visit where
  /-- The node. -/
  node : NodeId
  /-- The innermost scope, which is the node itself if it opens one. -/
  scope : Option NodeId
  /-- The type that the innermost record declares, the node itself included. -/
  recordType : Option Descriptor
deriving DecidableEq

/-- What is done at each node: it sees the table so far, may change the graph, and carries a value
of its own along. -/
abbrev Handler (σ : Type) := ScopeTable → Visit → Graph → σ → Except Fault (Graph × σ)

namespace Walk

/-- Something that is still to be done. -/
inductive Step where
  /-- Visit a node. -/
  | enter (id : NodeId)
  /-- Close what a node opened: its scope, its record type. -/
  | leave (scope recordType : Bool)
deriving DecidableEq

/-- A walk under way. -/
structure State (σ : Type) where
  /-- What is still to be done, next step first. -/
  todo : List Step
  /-- The open scopes, innermost first. -/
  scopes : List NodeId := []
  /-- The types of the open records, innermost first. -/
  recordTypes : List Descriptor := []
  /-- The scopes and declarations met so far. -/
  table : ScopeTable
  /-- The graph. -/
  graph : Graph
  /-- What the handler carries along. -/
  carried : σ

variable {σ : Type}

/-- Visits a node. -/
def visit (handler : Handler σ) (s : State σ) (id : NodeId) (todo : List Step) :
    Except Fault (State σ) := do
  let node ← s.graph.node id
  let table := match node.tag.isValueDeclaration, s.scopes with
    | true, scope :: _ => s.table.declare scope id
    | _, _ => s.table
  let (table, scopes) := match node.tag.opens? with
    | some kind => (table.enter id s.scopes.head? kind, id :: s.scopes)
    | none => (table, s.scopes)
  let recordTypes :=
    if node.tag = .record then .parse node.name :: s.recordTypes else s.recordTypes
  let (graph, carried) ←
    handler table { node := id, scope := scopes.head?, recordType := recordTypes.head? }
      s.graph s.carried
  let parts ← graph.children id
  let closing := .leave node.tag.opens?.isSome (node.tag = .record)
  return { todo := parts.map .enter ++ closing :: todo, scopes, recordTypes, table, graph, carried }

/-- Closes what a node opened. -/
def close (s : State σ) (scope recordType : Bool) (todo : List Step) : State σ :=
  { s with
    todo
    scopes := if scope then s.scopes.tail else s.scopes
    recordTypes := if recordType then s.recordTypes.tail else s.recordTypes }

/-- One step of a walk. A walk with nothing left to do stays as it is. -/
def advance (handler : Handler σ) (s : State σ) : Except Fault (State σ) :=
  match s.todo with
  | [] => .ok s
  | .enter id :: todo => visit handler s id todo
  | .leave scope recordType :: todo => .ok (close s scope recordType todo)

/-- At most `n` steps, which must be enough to finish. -/
def run (handler : Handler σ) : Nat → State σ → Except Fault (State σ)
  | 0, s => if s.todo.isEmpty then .ok s else .error .circular
  | n + 1, s => if s.todo.isEmpty then .ok s else do run handler n (← advance handler s)

/-- The number of links that can lead from a node to its parts. -/
def linkCount (g : Graph) : Nat :=
  (g.nodes.toList.map fun node => node.payload.parts.length + 2).foldr (· + ·) 0

/-- No fewer steps than a walk takes where links do not run in a circle. -/
def stepBound (g : Graph) : Nat := Nat.pow (linkCount g + 16) (g.size + 2)

end Walk

/-- Walks the syntax tree under `root`. -/
def walk {σ : Type} (handler : Handler σ) (root : NodeId) (table : ScopeTable) (g : Graph)
    (carried : σ) : Except Fault (ScopeTable × Graph × σ) := do
  let s ← Walk.run handler (Walk.stepBound g) { todo := [.enter root], table, graph := g, carried }
  return (s.table, s.graph, s.carried)

/-- Walks the syntax trees under several roots, one after the other. -/
def walkAll {σ : Type} (handler : Handler σ) (table : ScopeTable) (g : Graph) (carried : σ) :
    List NodeId → Except Fault (ScopeTable × Graph × σ)
  | [] => .ok (table, g, carried)
  | root :: rest => do
    let (table, g, carried) ← walk handler root table g carried
    walkAll handler table g carried rest

end ProgramGraph
