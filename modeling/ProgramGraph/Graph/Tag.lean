import ProgramGraph.Text.Case

set_option autoImplicit false

/-!
# Kinds of nodes

A program graph holds declarations, statements and expressions. The tag of a node says which kind
it is and thereby whether it carries a value, can be the target of a reference, or opens a scope.

## Main definitions

* `ProgramGraph.Tag` — the kinds, and `ProgramGraph.Tag.all` in their fixed order.
* `ProgramGraph.Tag.ofText?` — the kind named by a text.
* `ProgramGraph.ScopeKind` — the kinds of scopes, and `ProgramGraph.Tag.opens?`, the one that a
  node opens.
* `ProgramGraph.FunctionKind` — what a function-like declaration is.
-/

namespace ProgramGraph

/-- What a node is. -/
inductive Tag where
  | unit
  | record
  | enum
  | enumConstant
  | field
  | var
  | parameter
  | function
  | block
  | declarationStatement
  | returnStatement
  | reference
  | memberAccess
  | call
  | literal
deriving DecidableEq, Repr

/-- The kinds of scopes. -/
inductive ScopeKind where
  /-- The scope of a compilation unit. -/
  | unit
  /-- The scope of a record or an enumeration. -/
  | nominal
  /-- The scope of a function. -/
  | function
  /-- The scope of a block. -/
  | block
deriving DecidableEq, Repr

/-- What a function-like declaration is. -/
inductive FunctionKind where
  | function
  | method
  | constructor
deriving DecidableEq, Repr

namespace Tag

/-- All kinds in their fixed order. -/
def all : List Tag :=
  [.unit, .record, .enum, .enumConstant, .field, .var, .parameter, .function, .block,
    .declarationStatement, .returnStatement, .reference, .memberAccess, .call, .literal]

/-- The place of a kind among all kinds. -/
def position (tag : Tag) : Nat := all.idxOf tag

/-- The name of a kind. -/
def label : Tag → String
  | .unit => "unit"
  | .record => "record"
  | .enum => "enum"
  | .enumConstant => "enum_constant"
  | .field => "field"
  | .var => "variable"
  | .parameter => "parameter"
  | .function => "function"
  | .block => "block"
  | .declarationStatement => "declaration_statement"
  | .returnStatement => "return"
  | .reference => "reference"
  | .memberAccess => "member_access"
  | .call => "call"
  | .literal => "literal"

/-- The other names that are understood. -/
def aliases : List (String × Tag) :=
  [("translation_unit", .unit), ("file", .unit), ("module", .unit),
    ("class", .record), ("struct", .record), ("interface", .record),
    ("constant", .enumConstant), ("var", .var), ("let", .var), ("param", .parameter),
    ("method", .function), ("constructor", .function), ("fn", .function),
    ("ref", .reference), ("member", .memberAccess)]

/-- The kind that a text names, in upper or lower case. -/
def ofText? (text : String) : Option Tag :=
  let word := Text.lowercase text
  (all.find? fun tag => tag.label == word) <|> aliases.lookup word

/-- Kinds that carry a value and therefore a type. -/
def isTyped : Tag → Bool
  | .enumConstant | .field | .var | .parameter | .function => true
  | .reference | .memberAccess | .call | .literal => true
  | _ => false

/-- Declarations that a reference can point at. -/
def isValueDeclaration : Tag → Bool
  | .enumConstant | .field | .var | .parameter | .function => true
  | _ => false

/-- Expressions. -/
def isExpression : Tag → Bool
  | .reference | .memberAccess | .call | .literal => true
  | _ => false

/-- The scope that a node of this kind opens. -/
def opens? : Tag → Option ScopeKind
  | .unit => some .unit
  | .record | .enum => some .nominal
  | .function => some .function
  | .block => some .block
  | _ => none

/-- **Values.** A kind carries a type exactly if it is a value declaration or an expression. -/
theorem isTyped_eq (tag : Tag) : tag.isTyped = (tag.isValueDeclaration || tag.isExpression) := by
  cases tag <;> rfl

/-- A kind that opens a scope is no expression. -/
theorem isExpression_of_opens? {tag : Tag} (h : tag.opens?.isSome) : tag.isExpression = false := by
  cases tag <;> first | rfl | exact absurd h (by decide)

end Tag

/-- The name of a scope kind. -/
def ScopeKind.label : ScopeKind → String
  | .unit => "module"
  | .nominal => "class"
  | .function => "function"
  | .block => "block"

/-- The name of a function kind. -/
def FunctionKind.label : FunctionKind → String
  | .function => "function"
  | .method => "method"
  | .constructor => "constructor"

end ProgramGraph
