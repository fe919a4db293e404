import ProgramGraph.Graph.Creation

set_option autoImplicit false

/-!
# Building a unit

A builder adds one compilation unit to a graph. It keeps a stack of the containers that are open (the
unit and in it records, enumerations, functions and blocks), so that each declaration and each statement
gets to its place. A record that is closed without a constructor gets an implicit one.

## Main definitions

* `ProgramGraph.Builder` — a unit under construction.
* `ProgramGraph.Builder.start`, `ProgramGraph.Builder.finish` — its start and its end.
* `ProgramGraph.Builder.enterRecord` and the other `enter` functions open a container,
  `ProgramGraph.Builder.leave` closes the innermost one.
* The other functions add declarations, statements and expressions.

## Design

The unit is the first container that is opened, and closing stops where one container is left. A
record that lacks a constructor when it is closed is opened once more, so that the constructor is entered
like any other one, and then both are taken from the stack.

Whatever is done depends on the innermost container, whose node is expected to be there. Each function
that makes a node answers its number together with the builder after it.
-/

namespace ProgramGraph

/-- A compilation unit under construction. -/
structure Builder where
  /-- The graph with all that was built so far. -/
  graph : Graph
  /-- The unit. -/
  unit : NodeId
  /-- The stack of open containers, innermost first. -/
  containers : List NodeId
deriving DecidableEq

namespace Builder

/-- Starts a new unit, which is open. -/
def start (g : Graph) (name : String) : Builder :=
  let (unit, graph) := g.addUnit name
  { graph, unit, containers := [unit] }

/-- The innermost open container, or else the unit. -/
def current (b : Builder) : NodeId := b.containers.headD b.unit

/-- Expects a node with a number. -/
def expect (b : Builder) (id : NodeId) : Builder := { b with graph := b.graph.expect id }

/-- The payload of the innermost open container. -/
def currentPayload? (b : Builder) : Option Payload := b.graph.payload? b.current

/-- The name of the innermost open container. -/
def currentName (b : Builder) : String := ((b.graph.node? b.current).map Node.name).getD ""

/-- Whether a record is the innermost open container. -/
def inRecord (b : Builder) : Bool := b.currentPayload?.any fun payload => payload.tag == .record

/-- Whether a block is the innermost open container. -/
def inBlock (b : Builder) : Bool := b.currentPayload?.any fun payload => payload.tag == .block

/-- Puts a container on the stack. -/
def push (b : Builder) (id : NodeId) : Builder := { b with containers := id :: b.containers }

/-- Takes the innermost container from the stack. -/
def pop (b : Builder) : Builder := { b with containers := b.containers.tail }

/-- Changes the payload of the innermost open container. -/
def modifyCurrent (b : Builder) (f : Payload → Payload) : Builder :=
  { b with graph := b.graph.modifyPayload b.current f }

/-- Appends a declaration to the unit. -/
def declareInUnit (b : Builder) (id : NodeId) : Builder :=
  { b with graph := b.graph.appendDeclaration b.unit id }

/-- Adds a node without a value. -/
def add (b : Builder) (node : Node) : NodeId × Builder :=
  let (id, graph) := b.graph.add node
  (id, { b with graph })

/-- Adds a node and observes its type. -/
def addTyped (b : Builder) (node : Node) (o : Observation) : NodeId × Builder :=
  let (id, graph) := b.graph.addTyped node o
  (id, { b with graph })

/-! ## Records and enumerations -/

/-- Puts a record or an enumeration into the record around it, or else into the unit. -/
def attachNominal (b : Builder) (id : NodeId) : Builder :=
  let b := b.expect b.current
  if b.inRecord then
    b.modifyCurrent fun
      | .record body => .record { body with records := body.records ++ [id] }
      | other => other
  else b.declareInUnit id

/-- Opens a record. -/
def enterRecord (b : Builder) (name sort : String) (superTypes : List Descriptor) :
    NodeId × Builder :=
  let (id, graph) := b.graph.addRecord name sort superTypes false
  (id, ({ b with graph }.attachNominal id).push id)

/-- Opens an enumeration. -/
def enterEnum (b : Builder) (name : String) (superTypes : List Descriptor) : NodeId × Builder :=
  let (id, b) := b.add (.make name (.enum [] superTypes))
  (id, (b.attachNominal id).push id)

/-- Adds a constant to the enumeration around it, with the type that its name spells. -/
def addEnumConstant (b : Builder) (name : String) : NodeId × Builder :=
  let (id, b) := b.addTyped (.make name .enumConstant) { type := .parse b.currentName }
  (id, b.modifyCurrent fun
    | .enum entries superTypes => .enum (entries ++ [id]) superTypes
    | other => other)

/-- Puts a field into the record around it, or else into the unit. -/
def attachField (b : Builder) (id : NodeId) : Builder :=
  let b := b.expect b.current
  if b.inRecord then { b with graph := b.graph.appendField b.current id }
  else b.declareInUnit id

/-- Adds a field to the record around it, or else a global variable to the unit. -/
def addField (b : Builder) (name : String) (type : Observation) (modifiers : List String)
    (initializer : Option NodeId) : NodeId × Builder :=
  let (id, b) := b.addTyped (.make name (.field modifiers initializer)) type
  (id, b.attachField id)

/-! ## Functions -/

/-- Puts a function into the record around it, constructors apart from the others, or else into the
unit. -/
def attachFunction (b : Builder) (kind : FunctionKind) (id : NodeId) : Builder :=
  let b := b.expect b.current
  if b.inRecord then
    b.modifyCurrent fun
      | .record body =>
        if kind = .constructor then .record { body with constructors := body.constructors ++ [id] }
        else .record { body with methods := body.methods ++ [id] }
      | other => other
  else b.declareInUnit id

/-- Opens a function. A constructor in a record has the type that the name of the record spells. -/
def enterFunction (b : Builder) (name : String) (kind : FunctionKind) (returnType : Observation)
    (isStatic : Bool) : NodeId × Builder :=
  let type := if kind = .constructor && b.inRecord then { type := .parse b.currentName }
    else returnType
  let (id, b) := b.addTyped (.make name (.function kind isStatic [] none)) type
  (id, (b.attachFunction kind id).push id)

/-- Adds a parameter to the function around it. -/
def addParameter (b : Builder) (name : String) (type : Observation) (variadic : Bool) :
    NodeId × Builder :=
  let (id, b) := b.addTyped (.make name (.parameter variadic)) type
  (id, b.modifyCurrent fun
    | .function kind isStatic parameters body => .function kind isStatic (parameters ++ [id]) body
    | other => other)

/-! ## Blocks and statements -/

/-- Opens a block: the body of the function around it, or a statement of the block around it. -/
def enterBlock (b : Builder) : NodeId × Builder :=
  let (id, b) := b.add (.make "" (.block []))
  let b := b.modifyCurrent fun
    | .function kind isStatic parameters none => .function kind isStatic parameters (some id)
    | .block statements => .block (statements ++ [id])
    | other => other
  (id, b.push id)

/-- Appends a statement to the block around it; outside a block it is dropped. -/
def addStatement (b : Builder) (id : NodeId) : Builder :=
  b.modifyCurrent fun
    | .block statements => .block (statements ++ [id])
    | other => other

/-- Puts a variable into the block around it, by a statement, or else into the unit. -/
def attachVariable (b : Builder) (id : NodeId) : Builder :=
  let b := b.expect b.current
  if b.inBlock then
    let (statement, b) := b.add (.make "" (.declarationStatement [id]))
    b.addStatement statement
  else b.declareInUnit id

/-- Declares a variable in the block around it, or else in the unit. -/
def declareVariable (b : Builder) (name : String) (type : Observation)
    (initializer : Option NodeId) : NodeId × Builder :=
  let (id, b) := b.addTyped (.make name (.var initializer)) type
  (id, b.attachVariable id)

/-- Adds a return statement. -/
def addReturn (b : Builder) (value : Option NodeId) : NodeId × Builder :=
  let (id, b) := b.add (.make "" (.returnStatement value))
  (id, b.addStatement id)

/-! ## Closing containers -/

/-- Adds the implicit constructor of a record that has none. The record is open meanwhile, and
so is the constructor once it is entered. -/
def completeRecord (b : Builder) (record : NodeId) : Builder :=
  match b.graph.node? record with
  | some { name, payload := .record { constructors := [], .. }, .. } =>
    ((b.push record).enterFunction name .constructor .unknown false).2.pop.pop
  | _ => b

/-- Closes the innermost container, unless it is the only one. -/
def leave (b : Builder) : Option NodeId × Builder :=
  if b.containers.length ≤ 1 then (none, b)
  else
    match b.containers with
    | [] => (none, b)
    | closed :: _ => (some closed, (b.pop.expect closed).completeRecord closed)

/-- Closes containers until only one is left, but at most so many. -/
def leaveAll : Nat → Builder → Builder
  | 0, b => b
  | n + 1, b =>
    let left := b.leave
    if left.1.isSome then leaveAll n left.2 else left.2

/-- Closes all containers but one, which takes no more steps than there are containers. -/
def finish (b : Builder) : Builder := leaveAll b.containers.length b

/-! ## Expressions -/

/-- A name used as a value. -/
def reference (b : Builder) (name : String) (type : Observation) : NodeId × Builder :=
  b.addTyped (.make name (.reference none false)) type

/-- A name qualified by a type name, which never means a field of the record around it. -/
def staticReference (b : Builder) (name : String) (type : Observation) : NodeId × Builder :=
  b.addTyped (.make name (.reference none true)) type

/-- A use of a member of a base. The member is a reference until it is resolved. -/
def member (b : Builder) (base : NodeId) (name : String) (type memberType : Observation) :
    NodeId × Builder :=
  let (stub, b) := b.reference name memberType
  b.addTyped (.make name (.memberAccess base (some stub))) type

/-- A call. -/
def call (b : Builder) (name : String) (base : Option NodeId) (arguments : List NodeId)
    (type : Observation) : NodeId × Builder :=
  b.addTyped (.make name (.call base arguments)) type

/-- A literal, which is its own source text. -/
def literal (b : Builder) (value : String) (type : Observation) : NodeId × Builder :=
  b.addTyped { Node.make value (.literal value) with code := some value } type

/-- Notes the line of a node, if it is known. -/
def atLine (b : Builder) (id : NodeId) (line : Option Nat) : Builder :=
  match line with
  | some n => { b with graph := b.graph.modify id fun node => { node with line := some n } }
  | none => b

end Builder

end ProgramGraph
