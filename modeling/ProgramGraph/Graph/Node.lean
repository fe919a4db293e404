import ProgramGraph.Graph.Belief
import ProgramGraph.Graph.Tag

set_option autoImplicit false

/-!
# Nodes

A node has a name, a payload that depends on its kind, and notes from the source. Nodes refer to
each other by number. The kinds that carry a value also hold a belief about its type.

## Main definitions

* `ProgramGraph.Payload` — the part of a node that depends on its kind.
* `ProgramGraph.Node` — a node, and `ProgramGraph.Node.make`, a fresh one.
* `ProgramGraph.Node.describe` — a node in one line.
-/

namespace ProgramGraph

/-- The contents of a class-like declaration. -/
structure RecordBody where
  /-- The word for this sort of record, such as `class` or `interface`. -/
  sort : String := ""
  /-- The declared supertypes. -/
  superTypes : List Descriptor := []
  /-- The fields, the implicit one for the record itself among them. -/
  fields : List NodeId := []
  /-- The functions that are no constructors. -/
  methods : List NodeId := []
  /-- The constructors. -/
  constructors : List NodeId := []
  /-- The records and enumerations declared inside. -/
  records : List NodeId := []
  /-- The implicit field that stands for the record itself. -/
  self : Option NodeId := none
deriving DecidableEq, Repr

/-- The part of a node that depends on its kind. -/
inductive Payload where
  /-- A compilation unit. -/
  | unit (declarations : List NodeId)
  /-- A class-like declaration. -/
  | record (body : RecordBody)
  /-- An enumeration. -/
  | enum (entries : List NodeId) (superTypes : List Descriptor)
  /-- A constant of an enumeration. -/
  | enumConstant
  /-- A field of a record, or a global variable. -/
  | field (modifiers : List String) (initializer : Option NodeId)
  /-- A variable. -/
  | var (initializer : Option NodeId)
  /-- A parameter of a function. -/
  | parameter (variadic : Bool)
  /-- A function, method or constructor. -/
  | function (kind : FunctionKind) (isStatic : Bool) (parameters : List NodeId)
      (body : Option NodeId)
  /-- A block of statements. -/
  | block (statements : List NodeId)
  /-- A statement that declares variables. -/
  | declarationStatement (declarations : List NodeId)
  /-- A return statement. -/
  | returnStatement (value : Option NodeId)
  /-- A name used as a value, and the declaration it was found to mean. -/
  | reference (target : Option NodeId) (isStatic : Bool)
  /-- A use of a member: base and member are expressions until they are resolved. -/
  | memberAccess (base : NodeId) (member : Option NodeId)
  /-- A call. -/
  | call (base : Option NodeId) (arguments : List NodeId)
  /-- A literal. -/
  | literal (value : String)
deriving DecidableEq, Repr

/-- The kind a payload belongs to. -/
def Payload.tag : Payload → Tag
  | .unit .. => .unit
  | .record .. => .record
  | .enum .. => .enum
  | .enumConstant => .enumConstant
  | .field .. => .field
  | .var .. => .var
  | .parameter .. => .parameter
  | .function .. => .function
  | .block .. => .block
  | .declarationStatement .. => .declarationStatement
  | .returnStatement .. => .returnStatement
  | .reference .. => .reference
  | .memberAccess .. => .memberAccess
  | .call .. => .call
  | .literal .. => .literal

/-- A node of the program graph. -/
structure Node where
  /-- The name, empty for nodes that have none. -/
  name : String
  /-- The part that depends on the kind. -/
  payload : Payload
  /-- The source text, where it is known. -/
  code : Option String := none
  /-- The line, counted from one, where it is known. -/
  line : Option Nat := none
  /-- Whether the node was made up because no declaration was found. -/
  dummy : Bool := false
  /-- What is believed about the type of its value, if it has one. -/
  belief : Option Belief := none
deriving DecidableEq

namespace Node

/-- The kind of a node. -/
def tag (node : Node) : Tag := node.payload.tag

/-- A fresh node: kinds that carry a value start with nothing known and nobody listening. -/
def make (name : String) (payload : Payload) : Node :=
  { name, payload, belief := if payload.tag.isTyped then some {} else none }

/-- The current type; nodes without a value have the unknown type. -/
def type (node : Node) : Observation :=
  match node.belief with
  | some belief => belief.type
  | none => .unknown

/-- A node in one line: kind, name, type if it has one, and a mark if it was made up. -/
def describe (node : Node) : String :=
  let typed := match node.belief with
    | some belief => ": " ++ belief.type.type.render
    | none => ""
  node.tag.label ++ " " ++ node.name ++ typed ++ if node.dummy then " (dummy)" else ""

end Node

end ProgramGraph
