import ProgramGraph.Scope.Walk

set_option autoImplicit false

/-!
# The index of declared types

Before usages are resolved, every record and every enumeration is indexed under the type that its
name spells, the first declaration of a type before all later ones, and with every record its
declared supertypes.

## Main definitions

* `ProgramGraph.Index` — the index, with the counters of a run.
* `ProgramGraph.Counters` — what a run counts, and `ProgramGraph.Counters.render`, its text.
* `ProgramGraph.Index.build` — the index of a graph, with the table of its scopes.
-/

namespace ProgramGraph

/-- What a resolution run counts. -/
structure Counters where
  recordsIndexed : Nat := 0
  enumsIndexed : Nat := 0
  referencesResolved : Nat := 0
  referencesUnresolved : Nat := 0
  membersResolved : Nat := 0
  membersUnresolved : Nat := 0
  dummyFields : Nat := 0
  dummyRecords : Nat := 0
deriving DecidableEq, Repr

namespace Counters

/-- The counters with their names, in the order they are shown in. -/
def rows (c : Counters) : List (String × Nat) :=
  [("records indexed", c.recordsIndexed),
    ("enums indexed", c.enumsIndexed),
    ("references resolved", c.referencesResolved),
    ("references unresolved", c.referencesUnresolved),
    ("members resolved", c.membersResolved),
    ("members unresolved", c.membersUnresolved),
    ("dummy fields", c.dummyFields),
    ("dummy records", c.dummyRecords)]

/-- The counters as text, one line for each pair. -/
def render (c : Counters) : String :=
  "Usage Resolution Stats:\n" ++
    s!"  Indexed: {c.recordsIndexed} records, {c.enumsIndexed} enums\n" ++
    s!"  References: {c.referencesResolved} resolved, {c.referencesUnresolved} unresolved\n" ++
    s!"  Members: {c.membersResolved} resolved, {c.membersUnresolved} unresolved\n" ++
    s!"  Dummies: {c.dummyFields} fields, {c.dummyRecords} records\n"

end Counters

/-- The declared types of a graph, and what a resolution run knows besides. -/
structure Index where
  /-- The record that declares a type. -/
  records : Assoc Descriptor NodeId := ∅
  /-- The enumeration that declares a type. -/
  enums : Assoc Descriptor NodeId := ∅
  /-- The declared supertypes of the record that declares a type. -/
  superTypes : Assoc Descriptor (List Descriptor) := ∅
  /-- The fields that stand in for a member of a type. -/
  dummies : Assoc (Descriptor × String) NodeId := ∅
  /-- The unit for made-up declarations, once it is needed. -/
  placeholderUnit : Option NodeId := none
  /-- The counters of the run. -/
  counters : Counters := {}
deriving DecidableEq

namespace Index

/-- The record that declares a type. -/
def record? (index : Index) (type : Descriptor) : Option NodeId := index.records.get? type

/-- The enumeration that declares a type. -/
def enum? (index : Index) (type : Descriptor) : Option NodeId := index.enums.get? type

/-- The declared supertypes of a type. -/
def superTypesOf (index : Index) (type : Descriptor) : List Descriptor :=
  (index.superTypes.get? type).getD []

/-- Enters a node if it declares a type that is not declared yet. -/
def enter (index : Index) (id : NodeId) (node : Node) : Index :=
  match node.tag with
  | .record => { index with records := index.records.putNew (.parse node.name) id }
  | .enum => { index with enums := index.enums.putNew (.parse node.name) id }
  | _ => index

/-- Enters the node of a visit. -/
def handler : Handler Index := fun _ visit g index => do
  return (g, index.enter visit.node (← g.node visit.node))

/-- Enters the supertypes of every record, and counts the declared types. -/
def complete (index : Index) (g : Graph) : Except Fault Index := do
  let superTypes ← index.records.entries.mapM fun (type, record) => do
    return (type, ← g.superTypes record)
  return { index with
    superTypes := ⟨superTypes⟩
    counters := { index.counters with
      recordsIndexed := index.records.size
      enumsIndexed := index.enums.size } }

/-- The index of a graph, and the table of its scopes. -/
def build (g : Graph) : Except Fault (ScopeTable × Index) := do
  let (table, g, index) ← walkAll handler ∅ g {} g.units
  return (table, ← index.complete g)

end Index

end ProgramGraph
