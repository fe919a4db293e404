import ProgramGraph.Graph.Placeholder
import ProgramGraph.Resolution.Index

set_option autoImplicit false

/-!
# Resolving usages

Every reference is linked to the declaration it means, and every member access to the declarations
of its base and its member. A name is looked up in the visible scopes first and then among the
fields of the record around it; a member is looked up among the fields of the base's type and of
its direct supertypes. What is not found is made up: a dummy field in the record of the type, and a
dummy record if the type has none, so that all usages of a missing member meet in one place.

## Main definitions

* `ProgramGraph.Resolver` — a graph with the index of its types.
* `ProgramGraph.Resolver.standIn` — the made-up field for a member.
* `ProgramGraph.Resolver.resolveMember` — the field for a member of a type.
* `ProgramGraph.Resolver.resolveReference`, `ProgramGraph.Resolver.resolveAccess` — a usage.
* `ProgramGraph.Graph.resolveUsages` — a whole run.
-/

namespace ProgramGraph

/-- A graph under resolution, with the index of its types. -/
structure Resolver where
  graph : Graph
  index : Index
deriving DecidableEq

/-- The first field of a record with a name. -/
def Graph.fieldNamed (g : Graph) (record : NodeId) (name : String) :
    Except Fault (Option NodeId) := do
  g.firstNamed name (← g.fields record)

namespace Resolver

/-- Changes the counters. -/
def count (r : Resolver) (f : Counters → Counters) : Resolver :=
  { r with index := { r.index with counters := f r.index.counters } }

/-! ## Made-up declarations -/

/-- Makes up a record for a type, in the unit for made-up declarations. The record is indexed under
the whole type but named by the name of the type alone. -/
def makeRecord (r : Resolver) (type : Descriptor) : NodeId × Resolver :=
  let (unit, g) := match r.index.placeholderUnit with
    | some unit => (unit, r.graph)
    | none => r.graph.placeholderUnit
  let (record, g) := g.addRecord type.name "unknown" [] true
  let r := { r with
    graph := g.appendDeclaration unit record
    index := { r.index with
      placeholderUnit := some unit
      records := r.index.records.put type record } }
  (record, r.count fun c => { c with dummyRecords := c.dummyRecords + 1 })

/-- The record that declares a type, made up if there is none. -/
def recordFor (r : Resolver) (type : Descriptor) : NodeId × Resolver :=
  match r.index.record? type with
  | some record => (record, r)
  | none => r.makeRecord type

/-- Remembers the field that stands in for a member of a type. -/
def remember (r : Resolver) (owner : Descriptor) (name : String) (field : NodeId) : Resolver :=
  { r with index := { r.index with dummies := r.index.dummies.put (owner, name) field } }

/-- Makes up a field of a record. -/
def makeField (r : Resolver) (record : NodeId) (name : String) (type : Observation) :
    NodeId × Resolver :=
  let (field, g) := r.graph.addTyped { Node.make name (.field [] none) with dummy := true } type
  let r := { r with graph := g.appendField record field }
  (field, r.count fun c => { c with dummyFields := c.dummyFields + 1 })

/-- The field that stands in for a member of a type: the one remembered, or else the field of that
name in the record of the type, which is made up if need be. -/
def standIn (r : Resolver) (owner : Descriptor) (name : String) (type : Observation) :
    Except Fault (NodeId × Resolver) := do
  if let some field := r.index.dummies.get? (owner, name) then return (field, r)
  let (record, r) := r.recordFor owner
  if let some field ← r.graph.fieldNamed record name then
    return (field, r.remember owner name field)
  let (field, r) := r.makeField record name type
  return (field, r.remember owner name field)

/-! ## Members of types -/

/-- The first field with a name in the records that declare some types. -/
def fieldAmong (r : Resolver) (name : String) : List Descriptor → Except Fault (Option NodeId)
  | [] => .ok none
  | type :: rest => do
    if let some record := r.index.record? type then
      if let some field ← r.graph.fieldNamed record name then return some field
    r.fieldAmong name rest

/-- The field with a name in the record of a type, or else in the record of a direct supertype. An
unknown type has no fields. -/
def findMember (r : Resolver) (owner : Descriptor) (name : String) :
    Except Fault (Option NodeId) :=
  if owner.isUnknown then .ok none
  else r.fieldAmong name (owner :: r.index.superTypesOf owner)

/-- The field for a member of a type, made up with the given type if it is not found. -/
def resolveMember (r : Resolver) (owner : Descriptor) (name : String) (type : Observation) :
    Except Fault (NodeId × Resolver) := do
  if let some field ← r.findMember owner name then return (field, r)
  r.standIn owner name type

/-! ## Member accesses -/

/-- The declaration that a reference stands for as the base of a member access: the enumeration or
the record that declares its type, the latter by its implicit field, or else a stand-in. -/
def resolveBase (r : Resolver) (reference : NodeId) : Except Fault (NodeId × Resolver) := do
  let type := r.graph.typeOf reference
  if let some enum := r.index.enum? type.type then return (enum, r)
  if let some record := r.index.record? type.type then
    if let some self ← r.graph.self? record then return (self, r)
  r.standIn type.type (← r.graph.node reference).name type

/-- The constant of an enumeration that a member names, if there is one. -/
def resolveConstant (r : Resolver) (enum : NodeId) (name : String) :
    Except Fault (Option NodeId × Resolver) := do
  match ← r.graph.firstNamed name (← r.graph.entries enum) with
  | some constant =>
    return (some constant, r.count fun c => { c with membersResolved := c.membersResolved + 1 })
  | none =>
    return (none, r.count fun c => { c with membersUnresolved := c.membersUnresolved + 1 })

/-- The field that a member means, which is thereby observed with the type of the access and with
all types observed on it. -/
def resolveField (r : Resolver) (access base stub : NodeId) (name : String) :
    Except Fault (NodeId × Resolver) := do
  let owner := (r.graph.typeOf base).type
  let (field, r) ← r.resolveMember owner name (r.graph.typeOf stub)
  let g := r.graph.observe field (r.graph.typeOf access)
  let g := g.widen field
    ((g.observedAt field).observations ++ (g.observedAt access).observations)
  return (field, { r with graph := g }.count fun c =>
    { c with membersResolved := c.membersResolved + 1 })

/-- The declaration that the member of an access means. -/
def resolveMemberOf (r : Resolver) (access base stub : NodeId) :
    Except Fault (Option NodeId × Resolver) := do
  let name := (← r.graph.node stub).name
  if (← r.graph.node base).tag = .enum then r.resolveConstant base name
  else
    let (field, r) ← r.resolveField access base stub name
    return (some field, r)

/-- Whether a node is a reference. -/
def isReference (r : Resolver) (id : NodeId) : Except Fault Bool :=
  return (← r.graph.node id).tag == .reference

/-- The declaration for the base of a member access; only a reference is resolved. -/
def settleBase (r : Resolver) (base : NodeId) : Except Fault (NodeId × Resolver) := do
  if ← r.isReference base then r.resolveBase base else return (base, r)

/-- The declaration for the member of an access; only a reference is resolved. -/
def settleMember (r : Resolver) (access base : NodeId) :
    Option NodeId → Except Fault (Option NodeId × Resolver)
  | none => .ok (none, r)
  | some stub => do
    if ← r.isReference stub then r.resolveMemberOf access base stub else return (some stub, r)

/-- Resolves a member access: its base first, and then its member. -/
def resolveAccess (r : Resolver) (id base : NodeId) (member : Option NodeId) :
    Except Fault Resolver := do
  let (base, r) ← r.settleBase base
  let (member, r) ← r.settleMember id base member
  return { r with graph := r.graph.setAccess id base member }

/-! ## References -/

/-- Points a reference at a declaration, whose type it follows from then on, or at nothing. It no
longer follows what it pointed at before. -/
def link (r : Resolver) (reference : NodeId) (target : Option NodeId) :
    Except Fault Resolver := do
  let g := match ← r.graph.target? reference with
    | some previous => r.graph.unsubscribeOwned previous reference
    | none => r.graph
  let g := g.setTarget reference target
  match target with
  | some declaration =>
    let (follower, g) := g.mintListener (.follow reference)
    return { r with graph := g.subscribe declaration follower }
  | none => return { r with graph := g }

/-- The declaration a name means: the first visible one, or else, unless the name is static, the
field of that name in the record around it. -/
def findDeclaration (r : Resolver) (table : ScopeTable) (visit : Visit) (name : String)
    (isStatic : Bool) : Except Fault (Option NodeId × Resolver) := do
  let lexical ← match visit.scope with
    | some scope => table.lookup r.graph scope name
    | none => pure none
  match lexical, visit.recordType with
  | none, some owner =>
    if !isStatic && (r.index.record? owner).isSome then
      let (field, r) ← r.resolveMember owner name (r.graph.typeOf visit.node)
      return (some field, r)
    else return (none, r)
  | _, _ => return (lexical, r)

/-- Resolves a reference. -/
def resolveReference (r : Resolver) (table : ScopeTable) (visit : Visit) (name : String)
    (isStatic : Bool) : Except Fault Resolver := do
  let (target, r) ← r.findDeclaration table visit name isStatic
  let r := r.count fun c =>
    if target.isSome then { c with referencesResolved := c.referencesResolved + 1 }
    else { c with referencesUnresolved := c.referencesUnresolved + 1 }
  r.link visit.node target

/-! ## A run -/

/-- Resolves the usage that a visit comes to, if it is one. -/
def resolveUsage (r : Resolver) (table : ScopeTable) (visit : Visit) : Except Fault Resolver := do
  let node ← r.graph.node visit.node
  match node.payload with
  | .memberAccess base member => r.resolveAccess visit.node base member
  | .reference _ isStatic => r.resolveReference table visit node.name isStatic
  | _ => return r

/-- Resolves the usage of a visit, which fails if a write came to a number without a node. -/
def handler : Handler Index := fun table visit graph index => do
  let r ← resolveUsage { graph, index } table visit
  return (← r.graph.checked, r.index)

end Resolver

/-- Resolves the usages of all units that are there at the start, with an index built before. -/
def Graph.resolveWith (g : Graph) (table : ScopeTable) (index : Index) :
    Except Fault (Graph × Index) := do
  let (_, g, index) ← walkAll Resolver.handler table g index g.units
  return (g, index)

/-- Indexes the declared types of a graph and then resolves all usages. -/
def Graph.resolveUsages (g : Graph) : Except Fault (Graph × Index) := do
  let (table, index) ← Index.build g
  g.resolveWith table index

end ProgramGraph
