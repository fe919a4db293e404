import ProgramGraph.Assoc
import ProgramGraph.Graph.Basic

set_option autoImplicit false

/-!
# Scopes

A scope is known by the node that opens it. The table holds for every scope its kind, the scope
around it, and the value declarations made directly in it, in order.

## Main definitions

* `ProgramGraph.ScopeTable` — the table.
* `ProgramGraph.ScopeTable.enter`, `ProgramGraph.ScopeTable.declare` — new scopes and declarations.
* `ProgramGraph.ScopeTable.chain` — a scope and the scopes around it, innermost first.
* `ProgramGraph.ScopeTable.visible` — all declarations that can be seen from a scope.
* `ProgramGraph.ScopeTable.lookup` — the first visible declaration with a name.
-/

namespace ProgramGraph

/-- What is known about scopes. -/
structure ScopeTable where
  /-- The scope around a scope. -/
  parents : Assoc NodeId NodeId := ∅
  /-- The kind of a scope. -/
  kinds : Assoc NodeId ScopeKind := ∅
  /-- The declarations made directly in a scope, in order. -/
  declared : Assoc NodeId (List NodeId) := ∅
deriving DecidableEq

/-- The first of several nodes that has a name. -/
def Graph.firstNamed (g : Graph) (name : String) : List NodeId → Except Fault (Option NodeId)
  | [] => .ok none
  | id :: rest => do
    if (← g.node id).name = name then return some id
    g.firstNamed name rest

namespace ScopeTable

/-- The table without scopes. -/
def empty : ScopeTable := {}

/-- The table without scopes. -/
instance : EmptyCollection ScopeTable := ⟨empty⟩

/-- The table without scopes, in case any table will do. -/
instance : Inhabited ScopeTable := ⟨empty⟩

/-- Enters a scope into the table. -/
def enter (t : ScopeTable) (scope : NodeId) (parent : Option NodeId) (kind : ScopeKind) :
    ScopeTable :=
  { t with
    parents := match parent with
      | some outer => t.parents.put scope outer
      | none => t.parents
    kinds := t.kinds.put scope kind }

/-- The scope around a scope. -/
def parent? (t : ScopeTable) (scope : NodeId) : Option NodeId := t.parents.get? scope

/-- The kind of a scope. -/
def kind? (t : ScopeTable) (scope : NodeId) : Option ScopeKind := t.kinds.get? scope

/-- The declarations made directly in a scope, in order. -/
def declarations (t : ScopeTable) (scope : NodeId) : List NodeId :=
  (t.declared.get? scope).getD []

/-- Whether a declaration was made directly in a scope. -/
def declares (t : ScopeTable) (scope id : NodeId) : Bool := (t.declarations scope).contains id

/-- Enters a declaration into a scope, unless it is there already. -/
def declare (t : ScopeTable) (scope id : NodeId) : ScopeTable :=
  if t.declares scope id then t
  else { t with declared := t.declared.put scope (t.declarations scope ++ [id]) }

/-- A scope and at most `n` scopes around it, innermost first. -/
def chainUpTo (t : ScopeTable) : Nat → NodeId → List NodeId
  | 0, scope => [scope]
  | n + 1, scope =>
    match t.parent? scope with
    | some outer => scope :: t.chainUpTo n outer
    | none => [scope]

/-- A scope and all scopes around it, innermost first. No chain has more steps outwards than there
are scopes with a scope around them. -/
def chain (t : ScopeTable) (scope : NodeId) : List NodeId := t.chainUpTo t.parents.size scope

/-- All declarations that can be seen from a scope, those of the innermost scope first. -/
def visible (t : ScopeTable) (scope : NodeId) : List NodeId :=
  (t.chain scope).flatMap t.declarations

/-- The first declaration with a name that can be seen from a scope. -/
def lookup (t : ScopeTable) (g : Graph) (scope : NodeId) (name : String) :
    Except Fault (Option NodeId) :=
  g.firstNamed name (t.visible scope)

end ScopeTable

end ProgramGraph
