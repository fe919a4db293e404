import ProgramGraph.Document.Basic
import ProgramGraph.Json.Incremental

set_option autoImplicit false

/-!
# Reading documents

A document is decoded while it is read: a declaration of the wrong shape is reported even if the
text is malformed further on. Fields that are left out have their defaults.

## Main definitions

* `ProgramGraph.Document.Expression.decode`, `ProgramGraph.Document.Statement.decode`,
  `ProgramGraph.Document.Declaration.decode` — the parts of a document from values.
* `ProgramGraph.Document.read` — a document from a text.

## Design

The parts nest as deep as the value they are decoded from, which is at most `Json.maxDepth`.
-/

namespace ProgramGraph.Document

open Json (Value Mismatch Parts Shape Alternatives Failure Reading)
open Json.Value (asText asBool asNumber32 asList asOption asName)

/-! ## Expressions -/

/-- The kinds of expressions. -/
def Expression.kinds : Alternatives :=
  { title := "ExpressionSpec", names := ["ref", "member", "call", "literal"] }

/-- A name. -/
def refShape : Shape Expression :=
  Shape.pure Expression.ref |>.field "name" asText |>.optional "type" asText
    |>.fieldOr "static" false asBool |>.optional "line" asNumber32

/-- A use of a member. -/
def memberShape (expression : Value → Except Mismatch Expression) : Shape Expression :=
  Shape.pure Expression.member |>.field "base" expression |>.field "member" asText
    |>.optional "type" asText |>.optional "member_type" asText |>.optional "line" asNumber32

/-- A call. -/
def callShape (expression : Value → Except Mismatch Expression) : Shape Expression :=
  Shape.pure Expression.call |>.field "name" asText |>.optional "base" expression
    |>.fieldOr "arguments" [] (asList expression) |>.optional "type" asText
    |>.optional "line" asNumber32

/-- A literal. -/
def literalShape : Shape Expression :=
  Shape.pure Expression.literal |>.field "value" asText |>.optional "type" asText

/-- An expression of a kind. -/
def Expression.ofParts (expression : Value → Except Mismatch Expression) (kind : String)
    (parts : Parts) : Except Mismatch Expression :=
  match kind with
  | "ref" => refShape.decode "struct variant ExpressionSpec::Ref" parts
  | "member" => (memberShape expression).decode "struct variant ExpressionSpec::Member" parts
  | "call" => (callShape expression).decode "struct variant ExpressionSpec::Call" parts
  | _ => literalShape.decode "struct variant ExpressionSpec::Literal" parts

/-- An expression with at most `depth` levels. -/
def Expression.decode : Nat → Value → Except Mismatch Expression
  | 0, v => .error (v.mismatch Expression.kinds.wanted)
  | depth + 1, v => do
    let (kind, parts) ← Expression.kinds.split v
    Expression.ofParts (Expression.decode depth) kind parts

/-! ## Statements -/

/-- The kinds of statements. -/
def Statement.kinds : Alternatives :=
  { title := "StatementSpec", names := ["declare", "return", "expression", "block"] }

/-- An expression in a statement or a declaration. -/
def asExpression : Value → Except Mismatch Expression := Expression.decode Json.maxDepth

/-- A declaration of a variable. -/
def declareShape : Shape Statement :=
  Shape.pure Statement.declare |>.field "name" asText |>.optional "type" asText
    |>.optional "initializer" asExpression

/-- A return statement. -/
def returnShape : Shape Statement :=
  Shape.pure Statement.returned |>.optional "value" asExpression

/-- An expression for its effect. -/
def expressionShape : Shape Statement :=
  Shape.pure Statement.expression |>.field "expression" asExpression

/-- A block. -/
def blockShape (statement : Value → Except Mismatch Statement) : Shape Statement :=
  Shape.pure Statement.block |>.fieldOr "statements" [] (asList statement)

/-- A statement of a kind. -/
def Statement.ofParts (statement : Value → Except Mismatch Statement) (kind : String)
    (parts : Parts) : Except Mismatch Statement :=
  match kind with
  | "declare" => declareShape.decode "struct variant StatementSpec::Declare" parts
  | "return" => returnShape.decode "struct variant StatementSpec::Return" parts
  | "expression" => expressionShape.decode "struct variant StatementSpec::Expression" parts
  | _ => (blockShape statement).decode "struct variant StatementSpec::Block" parts

/-- A statement with at most `depth` levels. -/
def Statement.decode : Nat → Value → Except Mismatch Statement
  | 0, v => .error (v.mismatch Statement.kinds.wanted)
  | depth + 1, v => do
    let (kind, parts) ← Statement.kinds.split v
    Statement.ofParts (Statement.decode depth) kind parts

/-! ## Declarations -/

/-- The kinds of declarations. -/
def Declaration.kinds : Alternatives :=
  { title := "DeclarationSpec", names := ["record", "enum", "field", "function", "variable"] }

/-- The kinds of functions by name. -/
def functionKinds : List (String × FunctionKind) :=
  [("function", .function), ("method", .method), ("constructor", .constructor)]

/-- A statement in a function body. -/
def asStatement : Value → Except Mismatch Statement := Statement.decode Json.maxDepth

/-- A parameter. -/
def asParameter : Value → Except Mismatch Parameter :=
  let shape : Shape Parameter :=
    Shape.pure Parameter.mk |>.field "name" asText |>.optional "type" asText
      |>.fieldOr "variadic" false asBool
  shape.decodeValue "struct ParameterSpec"

/-- A record, which is a class unless something else is said. -/
def recordShape (declaration : Value → Except Mismatch Declaration) : Shape Declaration :=
  Shape.pure Declaration.record |>.field "name" asText |>.fieldOr "record_kind" "class" asText
    |>.fieldOr "super_types" [] (asList asText) |>.fieldOr "members" [] (asList declaration)

/-- An enumeration. -/
def enumShape : Shape Declaration :=
  Shape.pure Declaration.enum |>.field "name" asText |>.fieldOr "super_types" [] (asList asText)
    |>.fieldOr "constants" [] (asList asText)

/-- A field. -/
def fieldShape : Shape Declaration :=
  Shape.pure Declaration.field |>.field "name" asText |>.optional "type" asText
    |>.fieldOr "modifiers" [] (asList asText) |>.optional "initializer" asExpression

/-- A function. -/
def functionShape : Shape Declaration :=
  Shape.pure Declaration.function |>.field "name" asText
    |>.optional "function_kind" (asName functionKinds) |>.optional "return_type" asText
    |>.fieldOr "static" false asBool |>.fieldOr "parameters" [] (asList asParameter)
    |>.optional "body" (asList asStatement)

/-- A variable. -/
def varShape : Shape Declaration :=
  Shape.pure Declaration.var |>.field "name" asText |>.optional "type" asText
    |>.optional "initializer" asExpression

/-- A declaration of a kind. -/
def Declaration.ofParts (declaration : Value → Except Mismatch Declaration) (kind : String)
    (parts : Parts) : Except Mismatch Declaration :=
  match kind with
  | "record" => (recordShape declaration).decode "struct variant DeclarationSpec::Record" parts
  | "enum" => enumShape.decode "struct variant DeclarationSpec::Enum" parts
  | "field" => fieldShape.decode "struct variant DeclarationSpec::Field" parts
  | "function" => functionShape.decode "struct variant DeclarationSpec::Function" parts
  | _ => varShape.decode "struct variant DeclarationSpec::Variable" parts

/-- A declaration with at most `depth` levels. -/
def Declaration.decode : Nat → Value → Except Mismatch Declaration
  | 0, v => .error (v.mismatch Declaration.kinds.wanted)
  | depth + 1, v => do
    let (kind, parts) ← Declaration.kinds.split v
    Declaration.ofParts (Declaration.decode depth) kind parts

/-! ## Documents -/

/-- What a document is called in messages. -/
def wanted : String := "struct UnitDocument"

/-- A declaration, read completely and then decoded. -/
def declarationHere (depth : Nat) : Reading Declaration := fun text => do
  let ((kind, parts), rest) ← Declaration.kinds.splitHere depth text
  let d ← Json.shaped (Declaration.ofParts (Declaration.decode Json.maxDepth) kind parts)
  return (d, rest)

/-- The declarations of a document. -/
def declarationsHere (depth : Nat) : Reading (List Declaration) :=
  Json.listHere declarationHere depth

/-- The members of a document up to the closing brace, at least one. Of the members before, `name`
and `declarations` are known. -/
def membersHere (depth : Nat) :
    Nat → Option (Option String) → Option (List Declaration) → Reading Document
  | 0, _, _, _ => .error .malformed
  | steps + 1, name, declarations, text => do
    let (key, rest) ← match Json.skipBlanks text with
      | '"' :: rest => Json.wellFormed (Json.readString rest)
      | _ => throw .malformed
    if key = "name" && name.isSome || key = "declarations" && declarations.isSome then
      throw (.mismatch (.duplicateField key))
    let rest ← Json.wellFormed (Json.skipColon rest)
    let (name, declarations, rest) ←
      if key = "name" then do
        let (s, rest) ← Json.optionalTextHere "a string" rest
        pure (some s, declarations, rest)
      else if key = "declarations" then do
        let (ds, rest) ← declarationsHere depth rest
        pure (name, some ds, rest)
      else do
        let rest ← Json.wellFormed (Json.skipValue (Json.stepsFor rest) rest)
        pure (name, declarations, rest)
    match Json.skipBlanks rest with
    | ',' :: rest => membersHere depth steps name declarations rest
    | '}' :: rest =>
      return ({ name := name.getD none, declarations := declarations.getD [] }, rest)
    | _ => throw .malformed

/-- The fields of a document in an array, from behind the opening bracket on. -/
def fieldsHere (depth : Nat) : Reading Document := fun text => do
  match Json.skipBlanks text with
  | ']' :: rest => return ({}, rest)
  | text =>
    let (name, rest) ← Json.optionalTextHere "a string" text
    match Json.skipBlanks rest with
    | ']' :: rest => return ({ name }, rest)
    | ',' :: rest =>
      let (declarations, rest) ← declarationsHere depth rest
      match Json.skipBlanks rest with
      | ']' :: rest => return ({ name, declarations }, rest)
      | _ => throw .malformed
    | _ => throw .malformed

/-- A document. -/
def documentHere : Reading Document := fun text =>
  match Json.skipBlanks text with
  | '[' :: rest => fieldsHere (Json.maxDepth - 1) rest
  | '{' :: rest =>
    match Json.skipBlanks rest with
    | '}' :: rest => .ok ({}, rest)
    | rest => membersHere (Json.maxDepth - 1) (rest.length + 1) none none rest
  | text => .error (Json.unexpected wanted text)

/-- The document that a text stands for. -/
def read (text : String) : Except Failure Document := Json.whole documentHere text

end ProgramGraph.Document
