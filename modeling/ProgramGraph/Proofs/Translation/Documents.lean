import Mathlib.Tactic.Common
import ProgramGraph.Document.Build
import ProgramGraph.Proofs.Translation.Trees

set_option autoImplicit false

/-!
# Documents as trees

The syntax tree of a document, by recursion on the document and without any graph. A record has the
field that stands for it, its fields, its other functions, its constructors and the records and
enumerations in it, in this order and each sort in the order of the document. It has an implicit
constructor exactly if none is written. Variables never belong to a record: they follow the outermost
record they are written in.

## Main definitions

* `ProgramGraph.Document.Expression.tree`, `ProgramGraph.Document.Statement.tree` — the tree of an
  expression and of a statement.
* `ProgramGraph.Document.Declaration.trees` — what a declaration adds to the container around it.
* `ProgramGraph.Document.tree` — the tree of a document.
* `ProgramGraph.Observation.known` — what is kept of a type.

## Main results

* `ProgramGraph.Document.Declaration.isDeclared_trees` — only declarations are added.

## Design

What a node keeps of the type that the document gives is a parameter. With the identity the trees have
the types as they are written; with `ProgramGraph.Observation.known` a type that is unknown by its name
is kept without what decorates it.
-/

namespace ProgramGraph

/-- What is kept of a type: nothing at all if it is unknown by its name. -/
def Observation.known (o : Observation) : Observation := if o.type.isUnknown then .unknown else o

/-- Whether a declaration of a document can have a role. -/
def Role.isDeclared : Role → Bool
  | .field | .method | .constructor | .nominal | .variable => true
  | _ => false

/-- Whether a statement of a document can have a role. -/
def Role.isStatement : Role → Bool
  | .block | .statement => true
  | _ => false

/-- The trees of one role, in order. -/
def SyntaxTree.ofRole (role : Role) (trees : List SyntaxTree) : List SyntaxTree :=
  trees.filter fun tree => tree.role == role

namespace Document

variable (keep : Observation → Observation)

/-! ## Expressions -/

/-- The tree of the name of a member. -/
def nameTree (name : String) (type : Option String) : SyntaxTree :=
  .node { name, shape := .reference false, type := some (keep (.ofText? type)) } []

mutual

/-- The tree of an expression. The member of an access has the type of the access if it has none of its
own. -/
def Expression.tree : Expression → SyntaxTree
  | .ref name type isStatic line =>
    .node { name, shape := .reference isStatic, type := some (keep (.ofText? type)), line } []
  | .member base name type memberType line =>
    .node { name, shape := .memberAccess, type := some (keep (.ofText? type)), line }
      [base.tree, nameTree keep name (memberType <|> type)]
  | .call name base arguments type line =>
    .node { name, shape := .call base.isSome, type := some (keep (.ofText? type)), line }
      (Expression.optionTrees base ++ Expression.listTrees arguments)
  | .literal value type =>
    .node { name := value
            shape := .literal value
            type := some (keep (.ofText? type))
            code := some value } []

/-- The tree of an expression that may be left out. -/
def Expression.optionTrees : Option Expression → List SyntaxTree
  | none => []
  | some e => [e.tree]

/-- The trees of expressions. -/
def Expression.listTrees : List Expression → List SyntaxTree
  | [] => []
  | e :: rest => e.tree :: Expression.listTrees rest

end

/-! ## Statements -/

/-- The tree of a variable. -/
def variableTree (name : String) (type : Option String) (initializer : Option Expression) : SyntaxTree :=
  .node { name, shape := .var, type := some (keep (.ofText? type)) }
    (Expression.optionTrees keep initializer)

mutual

/-- The tree of a statement. -/
def Statement.tree : Statement → SyntaxTree
  | .declare name type initializer =>
    .node { name := "", shape := .declarationStatement } [variableTree keep name type initializer]
  | .returned value => .node { name := "", shape := .returnStatement } (Expression.optionTrees keep value)
  | .expression e => e.tree keep
  | .block statements => .node { name := "", shape := .block } (Statement.listTrees statements)

/-- The trees of statements. -/
def Statement.listTrees : List Statement → List SyntaxTree
  | [] => []
  | s :: rest => s.tree :: Statement.listTrees rest

end

/-! ## Functions and enumerations -/

/-- The tree of a parameter. -/
def Parameter.tree (p : Parameter) : SyntaxTree :=
  .node { name := p.name, shape := .parameter p.variadic, type := some (keep (.ofText? p.type)) } []

/-- The tree of the body of a function, if it has one. -/
def bodyTrees : Option (List Statement) → List SyntaxTree
  | none => []
  | some statements => [.node { name := "", shape := .block } (Statement.listTrees keep statements)]

/-- The tree of a function: its parameters and then its body. -/
def functionTree (name : String) (kind : FunctionKind) (type : Observation) (isStatic : Bool)
    (parameters : List Parameter) (body : Option (List Statement)) : SyntaxTree :=
  .node { name, shape := .function kind isStatic parameters.length, type := some (keep type) }
    (parameters.map (Parameter.tree keep) ++ bodyTrees keep body)

/-- The type of a function: in a record, a constructor has the type that the name of the record
spells. -/
def functionType (owner : Option String) (kind : FunctionKind) (returnType : Observation) : Observation :=
  match owner, kind with
  | some name, .constructor => { type := .parse name }
  | _, _ => returnType

/-- The tree of a constant, which has the type that the name of its enumeration spells. -/
def constantTree (owner name : String) : SyntaxTree :=
  .node { name, shape := .enumConstant, type := some (keep { type := .parse owner }) } []

/-- The tree of an enumeration. -/
def enumTree (name : String) (superTypes constants : List String) : SyntaxTree :=
  .node { name, shape := .enum (superTypes.map .parse) } (constants.map (constantTree keep name))

/-- The tree of a field. -/
def fieldTree (name : String) (type : Option String) (modifiers : List String)
    (initializer : Option Expression) : SyntaxTree :=
  .node { name, shape := .field modifiers, type := some (keep (.ofText? type)) }
    (Expression.optionTrees keep initializer)

/-! ## Records -/

/-- The tree of the field that stands for a record. -/
def selfTree (name : String) : SyntaxTree :=
  .node { name := "this"
          shape := .field []
          type := some (keep { type := .parse name })
          code := some "this" } []

/-- The members of a record, with an implicit constructor behind them if none is written. -/
def complete (name : String) (members : List SyntaxTree) : List SyntaxTree :=
  if SyntaxTree.ofRole .constructor members = [] then
    members ++ [functionTree keep name .constructor { type := .parse name } false [] none]
  else members

/-- The tree of a record with some members. -/
def recordTree (name sort : String) (superTypes : List String) (members : List SyntaxTree) : SyntaxTree :=
  let fields := selfTree keep name :: SyntaxTree.ofRole .field members
  let methods := SyntaxTree.ofRole .method members
  let constructors := SyntaxTree.ofRole .constructor members
  let records := SyntaxTree.ofRole .nominal members
  let shape := .record sort (superTypes.map .parse) fields.length methods.length constructors.length
  .node { name, shape } (fields ++ methods ++ constructors ++ records)

/-! ## Declarations -/

mutual

/-- The trees that a declaration adds to the container around it, which is a record with a name or else
the unit. A record is followed by the variables that are written in it, at any depth. -/
def Declaration.trees (owner : Option String) : Declaration → List SyntaxTree
  | .record name sort superTypes members =>
    let inside := Declaration.listTrees (some name) members
    recordTree keep name sort superTypes (complete keep name inside) :: SyntaxTree.ofRole .variable inside
  | .enum name superTypes constants => [enumTree keep name superTypes constants]
  | .field name type modifiers initializer => [fieldTree keep name type modifiers initializer]
  | .function name kind returnType isStatic parameters body =>
    let kind := functionKind kind owner.isSome
    [functionTree keep name kind (functionType owner kind (.ofText? returnType)) isStatic parameters body]
  | .var name type initializer => [variableTree keep name type initializer]

/-- The trees that declarations add, one after the other. -/
def Declaration.listTrees (owner : Option String) : List Declaration → List SyntaxTree
  | [] => []
  | d :: rest => d.trees owner ++ Declaration.listTrees owner rest

end

/-- The tree of a document, which has a name of its own or else the one of its path. -/
def tree (d : Document) (path : String) : SyntaxTree :=
  .node { name := d.name.getD path, shape := .unit } (Declaration.listTrees keep none d.declarations)

/-- A record in another one, and a variable in it, which does not belong to either. -/
example (type : Option String) :
    Declaration.trees keep none
      (.record "A" "class" [] [.record "B" "class" [] [.var "x" type none], .field "y" type [] none]) =
    [recordTree keep "A" "class" [] [recordTree keep "B" "class" [] (complete keep "B" []),
      fieldTree keep "y" type [] none,
      functionTree keep "A" .constructor { type := .parse "A" } false [] none],
      variableTree keep "x" type none] := rfl

/-! ## Roles -/

variable {keep} {tree : SyntaxTree}

/-- **Expressions** are shown by expressions. -/
theorem Expression.isExpression_tree (e : Expression) :
    (e.tree keep).label.shape.isExpression = true := by
  cases e <;> rfl

/-- An expression is a statement. -/
theorem Expression.role_tree (e : Expression) : (e.tree keep).role = .statement := by
  cases e <;> rfl

/-- **Statements** are shown by statements. -/
theorem Statement.isStatement_tree (s : Statement) : (s.tree keep).role.isStatement = true := by
  cases s with
  | expression e => rw [Statement.tree, e.role_tree]; rfl
  | _ => rfl

/-- Statements one after the other. -/
theorem Statement.isStatement_listTrees (ss : List Statement) :
    ∀ tree ∈ Statement.listTrees keep ss, tree.role.isStatement = true := by
  induction ss with
  | nil => exact fun _ h => absurd h List.not_mem_nil
  | cons s ss ih =>
    intro tree htree
    rcases List.mem_cons.mp htree with rfl | htree
    · exact s.isStatement_tree
    · exact ih tree htree

/-- A function is a method or a constructor. -/
theorem role_functionTree (name : String) (kind : FunctionKind) (type : Observation) (isStatic : Bool)
    (parameters : List Parameter) (body : Option (List Statement)) :
    (functionTree keep name kind type isStatic parameters body).role =
      if kind = .constructor then .constructor else .method := rfl

/-- What goes to the unit is not changed by an implicit constructor. -/
theorem ofRole_variable_complete (name : String) (members : List SyntaxTree) :
    SyntaxTree.ofRole .variable (complete keep name members) = SyntaxTree.ofRole .variable members := by
  unfold complete
  split
  · exact (List.filter_append ..).trans (List.append_nil _)
  · rfl

/-- Only declarations belong to a record with its constructors. -/
theorem isDeclared_complete {name : String} {members : List SyntaxTree}
    (h : ∀ tree ∈ members, tree.role.isDeclared = true) :
    ∀ tree ∈ complete keep name members, tree.role.isDeclared = true := by
  unfold complete
  split
  · intro tree htree
    rcases List.mem_append.mp htree with htree | htree
    · exact h tree htree
    · obtain rfl := List.mem_singleton.mp htree
      rfl
  · exact h

mutual

/-- **Declarations** add declarations. -/
theorem Declaration.isDeclared_trees (d : Declaration) (owner : Option String) :
    ∀ tree ∈ d.trees keep owner, tree.role.isDeclared = true := by
  cases d with
  | record name sort superTypes members =>
    intro tree htree
    rcases List.mem_cons.mp htree with rfl | htree
    · rfl
    · exact Declaration.isDeclared_listTrees members (some name) tree (List.mem_filter.mp htree).1
  | function name kind returnType isStatic parameters body =>
    intro tree htree
    obtain rfl := List.mem_singleton.mp htree
    rw [role_functionTree]
    split <;> rfl
  | _ =>
    intro tree htree
    obtain rfl := List.mem_singleton.mp htree
    rfl

/-- Declarations one after the other. -/
theorem Declaration.isDeclared_listTrees (ds : List Declaration) (owner : Option String) :
    ∀ tree ∈ Declaration.listTrees keep owner ds, tree.role.isDeclared = true := by
  cases ds with
  | nil => exact fun _ h => absurd h List.not_mem_nil
  | cons d ds =>
    intro tree htree
    rcases List.mem_append.mp htree with htree | htree
    · exact d.isDeclared_trees owner tree htree
    · exact Declaration.isDeclared_listTrees ds owner tree htree

end

end Document

end ProgramGraph
