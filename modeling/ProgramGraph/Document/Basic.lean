import ProgramGraph.Graph.Tag

set_option autoImplicit false

/-!
# Unit documents

A unit document describes one compilation unit of any language: its declarations with their
statements and expressions. Types are spelled as text and may be left out.

## Main definitions

* `ProgramGraph.Document` — a unit.
* `ProgramGraph.Document.Declaration`, `ProgramGraph.Document.Statement`,
  `ProgramGraph.Document.Expression` — its parts.
-/

namespace ProgramGraph

namespace Document

/-- An expression. -/
inductive Expression where
  /-- A name used as a value. -/
  | ref (name : String) (type : Option String) (isStatic : Bool) (line : Option Nat)
  /-- A use of a member of a base. The member has the type of the access if it has none of its
  own. -/
  | member (base : Expression) (name : String) (type memberType : Option String)
      (line : Option Nat)
  /-- A call, on a base if it has one. -/
  | call (name : String) (base : Option Expression) (arguments : List Expression)
      (type : Option String) (line : Option Nat)
  /-- A literal. -/
  | literal (value : String) (type : Option String)

/-- A statement. -/
inductive Statement where
  /-- A declaration of a variable. -/
  | declare (name : String) (type : Option String) (initializer : Option Expression)
  /-- A return statement. -/
  | returned (value : Option Expression)
  /-- An expression for its effect. -/
  | expression (expression : Expression)
  /-- A block. -/
  | block (statements : List Statement)

/-- A parameter of a function. -/
structure Parameter where
  name : String
  type : Option String := none
  variadic : Bool := false
deriving DecidableEq, Repr

/-- A declaration. -/
inductive Declaration where
  /-- A class-like declaration. -/
  | record (name sort : String) (superTypes : List String) (members : List Declaration)
  /-- An enumeration. -/
  | enum (name : String) (superTypes constants : List String)
  /-- A field or a global variable. -/
  | field (name : String) (type : Option String) (modifiers : List String)
      (initializer : Option Expression)
  /-- A function. Without a kind it is a method in a record and a plain function elsewhere. -/
  | function (name : String) (kind : Option FunctionKind) (returnType : Option String)
      (isStatic : Bool) (parameters : List Parameter) (body : Option (List Statement))
  /-- A variable. -/
  | var (name : String) (type : Option String) (initializer : Option Expression)

end Document

/-- A compilation unit. Without a name it is named by the path of its file. -/
structure Document where
  name : Option String := none
  declarations : List Document.Declaration := []

end ProgramGraph
