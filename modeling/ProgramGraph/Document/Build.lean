import ProgramGraph.Builder
import ProgramGraph.Document.Basic

set_option autoImplicit false

/-!
# Building documents into a graph

A document is built part by part, every expression before the node that uses it, and every
container opened before and closed after its contents. A type that is spelled out is known from
its spelling; one that is left out is unknown.

## Main definitions

* `ProgramGraph.Document.Expression.build`, `ProgramGraph.Document.Statement.build`,
  `ProgramGraph.Document.Declaration.build` — the parts.
* `ProgramGraph.Document.build` — a whole document.
-/

namespace ProgramGraph.Document

/-! ## Expressions -/

mutual

/-- Builds an expression. -/
def Expression.build (b : Builder) : Expression → NodeId × Builder
  | .ref name type isStatic line =>
    let (id, b) := if isStatic then b.staticReference name (.ofText? type)
      else b.reference name (.ofText? type)
    (id, b.atLine id line)
  | .member base name type memberType line =>
    let (base, b) := base.build b
    let (id, b) := b.member base name (.ofText? type) (.ofText? (memberType <|> type))
    (id, b.atLine id line)
  | .call name base arguments type line =>
    let (base, b) := Expression.buildOption b base
    let (arguments, b) := Expression.buildList b arguments
    let (id, b) := b.call name base arguments (.ofText? type)
    (id, b.atLine id line)
  | .literal value type => b.literal value (.ofText? type)

/-- Builds an expression that may be left out. -/
def Expression.buildOption (b : Builder) : Option Expression → Option NodeId × Builder
  | none => (none, b)
  | some e =>
    let (id, b) := e.build b
    (some id, b)

/-- Builds expressions one after the other. -/
def Expression.buildList (b : Builder) : List Expression → List NodeId × Builder
  | [] => ([], b)
  | e :: rest =>
    let (id, b) := e.build b
    let (ids, b) := Expression.buildList b rest
    (id :: ids, b)

end

/-! ## Statements -/

mutual

/-- Builds a statement into the block around it. -/
def Statement.build (b : Builder) : Statement → Builder
  | .declare name type initializer =>
    let (initializer, b) := Expression.buildOption b initializer
    (b.declareVariable name (.ofText? type) initializer).2
  | .returned value =>
    let (value, b) := Expression.buildOption b value
    (b.addReturn value).2
  | .expression e =>
    let (id, b) := e.build b
    b.addStatement id
  | .block statements => (Statement.buildList b.enterBlock.2 statements).leave.2

/-- Builds statements one after the other. -/
def Statement.buildList (b : Builder) : List Statement → Builder
  | [] => b
  | s :: rest => Statement.buildList (s.build b) rest

end

/-! ## Declarations -/

/-- Builds the body of a function, if it has one. -/
def buildBody (b : Builder) : Option (List Statement) → Builder
  | none => b
  | some statements => (Statement.buildList b.enterBlock.2 statements).leave.2

/-- Builds the parameters of a function. -/
def buildParameters (b : Builder) (parameters : List Parameter) : Builder :=
  parameters.foldl (fun b p => (b.addParameter p.name (.ofText? p.type) p.variadic).2) b

/-- The kind of a function: the one given, or else a method in a record and a plain function
elsewhere. -/
def functionKind (kind : Option FunctionKind) (inRecord : Bool) : FunctionKind :=
  kind.getD (if inRecord then .method else .function)

mutual

/-- Builds a declaration; `inRecord` says whether it is a member of a record. -/
def Declaration.build (b : Builder) (inRecord : Bool) : Declaration → Builder
  | .record name sort superTypes members =>
    let (_, b) := b.enterRecord name sort (superTypes.map .parse)
    (Declaration.buildList b true members).leave.2
  | .enum name superTypes constants =>
    let (_, b) := b.enterEnum name (superTypes.map .parse)
    (constants.foldl (fun b name => (b.addEnumConstant name).2) b).leave.2
  | .field name type modifiers initializer =>
    let (initializer, b) := Expression.buildOption b initializer
    (b.addField name (.ofText? type) modifiers initializer).2
  | .function name kind returnType isStatic parameters body =>
    let (_, b) := b.enterFunction name (functionKind kind inRecord) (.ofText? returnType) isStatic
    (buildBody (buildParameters b parameters) body).leave.2
  | .var name type initializer =>
    let (initializer, b) := Expression.buildOption b initializer
    (b.declareVariable name (.ofText? type) initializer).2

/-- Builds declarations one after the other. -/
def Declaration.buildList (b : Builder) (inRecord : Bool) : List Declaration → Builder
  | [] => b
  | d :: rest => Declaration.buildList (d.build b inRecord) inRecord rest

end

/-- Builds a document as a new unit, which is named by the document or else by `path`. -/
def build (d : Document) (path : String) (g : Graph) : NodeId × Graph :=
  let b := Builder.start g (d.name.getD path)
  (b.unit, (Declaration.buildList b false d.declarations).finish.graph)

end ProgramGraph.Document
