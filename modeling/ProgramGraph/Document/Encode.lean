import ProgramGraph.Document.Basic
import ProgramGraph.Json.Printer

set_option autoImplicit false

/-!
# Writing documents

A document as a JSON value: each part is an object with all its fields in order, also those that
have their default value or are missing; the parts that come in several kinds begin with the kind.

## Main definitions

* `ProgramGraph.Document.encode` — a document as a value.
-/

namespace ProgramGraph.Document

open Json (Value)

/-- A list of texts as a value. -/
def encodeTexts (texts : List String) : Value := .array (texts.map .text)

mutual

/-- An expression as a value. -/
def Expression.encode : Expression → Value
  | .ref name type isStatic line => .object
    [("kind", .text "ref"), ("name", .text name), ("type", .ofText? type),
      ("static", .bool isStatic), ("line", .ofNat? line)]
  | .member base name type memberType line => .object
    [("kind", .text "member"), ("base", base.encode), ("member", .text name),
      ("type", .ofText? type), ("member_type", .ofText? memberType), ("line", .ofNat? line)]
  | .call name base arguments type line => .object
    [("kind", .text "call"), ("name", .text name), ("base", Expression.encodeOption base),
      ("arguments", .array (Expression.encodeList arguments)), ("type", .ofText? type),
      ("line", .ofNat? line)]
  | .literal value type => .object
    [("kind", .text "literal"), ("value", .text value), ("type", .ofText? type)]

/-- An expression that may be missing as a value. -/
def Expression.encodeOption : Option Expression → Value
  | none => .null
  | some e => e.encode

/-- Expressions as values. -/
def Expression.encodeList : List Expression → List Value
  | [] => []
  | e :: rest => e.encode :: Expression.encodeList rest

end

mutual

/-- A statement as a value. -/
def Statement.encode : Statement → Value
  | .declare name type initializer => .object
    [("kind", .text "declare"), ("name", .text name), ("type", .ofText? type),
      ("initializer", Expression.encodeOption initializer)]
  | .returned value => .object
    [("kind", .text "return"), ("value", Expression.encodeOption value)]
  | .expression e => .object [("kind", .text "expression"), ("expression", e.encode)]
  | .block statements => .object
    [("kind", .text "block"), ("statements", .array (Statement.encodeList statements))]

/-- Statements as values. -/
def Statement.encodeList : List Statement → List Value
  | [] => []
  | s :: rest => s.encode :: Statement.encodeList rest

end

/-- A parameter as a value. -/
def Parameter.encode (p : Parameter) : Value :=
  .object [("name", .text p.name), ("type", .ofText? p.type), ("variadic", .bool p.variadic)]

/-- A kind of function that may be missing as a value. -/
def encodeKind (kind : Option FunctionKind) : Value := .ofText? (kind.map FunctionKind.label)

/-- A function body that may be missing as a value. -/
def encodeBody : Option (List Statement) → Value
  | none => .null
  | some statements => .array (Statement.encodeList statements)

mutual

/-- A declaration as a value. -/
def Declaration.encode : Declaration → Value
  | .record name sort superTypes members => .object
    [("kind", .text "record"), ("name", .text name), ("record_kind", .text sort),
      ("super_types", encodeTexts superTypes),
      ("members", .array (Declaration.encodeList members))]
  | .enum name superTypes constants => .object
    [("kind", .text "enum"), ("name", .text name), ("super_types", encodeTexts superTypes),
      ("constants", encodeTexts constants)]
  | .field name type modifiers initializer => .object
    [("kind", .text "field"), ("name", .text name), ("type", .ofText? type),
      ("modifiers", encodeTexts modifiers),
      ("initializer", Expression.encodeOption initializer)]
  | .function name kind returnType isStatic parameters body => .object
    [("kind", .text "function"), ("name", .text name), ("function_kind", encodeKind kind),
      ("return_type", .ofText? returnType), ("static", .bool isStatic),
      ("parameters", .array (parameters.map Parameter.encode)), ("body", encodeBody body)]
  | .var name type initializer => .object
    [("kind", .text "variable"), ("name", .text name), ("type", .ofText? type),
      ("initializer", Expression.encodeOption initializer)]

/-- Declarations as values. -/
def Declaration.encodeList : List Declaration → List Value
  | [] => []
  | d :: rest => d.encode :: Declaration.encodeList rest

end

/-- A document as a value. -/
def encode (d : Document) : Value :=
  .object [("name", .ofText? d.name),
    ("declarations", .array (Declaration.encodeList d.declarations))]

end ProgramGraph.Document
