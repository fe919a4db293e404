import ProgramGraph.Document.Build
import ProgramGraph.Proofs.Resolution.Effects

set_option autoImplicit false

/-!
# Who has a belief

Exactly those nodes have a belief that are of a kind that carries a value. Nodes are made so, and
whatever is done to a node afterwards leaves its kind alone and neither gives nor takes a belief.

## Main definitions

* `ProgramGraph.Graph.Valued` — exactly the nodes that carry a value have a belief.

## Main results

* `ProgramGraph.Graph.Valued.add`, `ProgramGraph.Graph.Valued.modify`,
  `ProgramGraph.Graph.Valued.of_sameSource` — what is done to a graph.
* `ProgramGraph.Document.valued_build` — documents are built.
* `ProgramGraph.Resolver.Does.valued` — usages are resolved.
-/

namespace ProgramGraph

namespace Graph

variable {g g' : Graph} {node : Node} {id : NodeId}

/-- Exactly the nodes that carry a value have a belief. -/
def Valued (g : Graph) : Prop :=
  ∀ id node, g.node? id = some node → node.belief.isSome = node.tag.isTyped

/-- A node is made with a belief if it carries a value. -/
theorem isSome_belief_make (name : String) (payload : Payload) :
    (Node.make name payload).belief.isSome = (Node.make name payload).tag.isTyped := by
  unfold Node.make Node.tag
  cases payload.tag.isTyped <;> rfl

namespace Valued

/-- There is nothing in the empty graph. -/
theorem empty : ({} : Graph).Valued :=
  fun _ _ hnode => absurd (lt_size hnode) (Nat.not_lt_zero _)

/-- **A new node.** -/
theorem add (h : g.Valued) (hnode : node.belief.isSome = node.tag.isTyped) : (g.add node).2.Valued := by
  intro id found hfound
  rw [node?_add] at hfound
  split at hfound
  · exact Option.some.inj hfound ▸ hnode
  · exact h id found hfound

/-- **A node changes,** but neither its kind nor whether it has a belief. -/
theorem modify (h : g.Valued) (id : NodeId) {f : Node → Node}
    (hf : ∀ node, (f node).belief.isSome = node.belief.isSome ∧ (f node).tag = node.tag) :
    (g.modify id f).Valued := by
  intro other found hfound
  rw [node?_modify] at hfound
  split at hfound
  · obtain ⟨node, hnode, rfl⟩ := Option.map_eq_some_iff.mp hfound
    rw [(hf node).1, (hf node).2]
    exact h other node hnode
  · exact h other found hfound

/-- A payload changes, but not its kind. -/
theorem modifyPayload (h : g.Valued) (id : NodeId) {f : Payload → Payload}
    (hf : ∀ payload, (f payload).tag = payload.tag) : (g.modifyPayload id f).Valued :=
  h.modify id fun node => ⟨rfl, hf node.payload⟩

/-- **What is believed** about nodes changes. -/
theorem of_sameSource (h : g.Valued) (hsame : g.SameSource g') : g'.Valued := by
  intro id node' hnode'
  have hsource := hsame.nodes id
  rw [hnode', Option.map_some] at hsource
  obtain ⟨node, hnode, heq⟩ := Option.map_eq_some_iff.mp hsource.symm
  have htag : node.source.tag = node'.source.tag := congrArg Node.tag heq
  have hbelief : node.source.belief.isSome = node'.source.belief.isSome :=
    congrArg (fun source => source.belief.isSome) heq
  simp only [Node.source, Option.isSome_map] at hbelief
  rw [← hbelief, h id node hnode]
  exact congrArg Tag.isTyped htag

/-- A new node is seen with a type. -/
theorem addTyped (h : g.Valued) (node : Node) (hnode : node.belief.isSome = node.tag.isTyped)
    (o : Observation) : (g.addTyped node o).2.Valued :=
  (h.add hnode).of_sameSource (g.sameSource_addTyped node o)

/-- A new unit. -/
theorem addUnit (h : g.Valued) (name : String) : (g.addUnit name).2.Valued :=
  h.add (isSome_belief_make name (.unit []))

/-- A new record. -/
theorem addRecord (h : g.Valued) (name sort : String) (superTypes : List Descriptor) (dummy : Bool) :
    (g.addRecord name sort superTypes dummy).2.Valued :=
  (h.addTyped (.selfField dummy) rfl _).add rfl

/-- A declaration of a unit. -/
theorem appendDeclaration (h : g.Valued) (unit declaration : NodeId) :
    (g.appendDeclaration unit declaration).Valued :=
  h.modifyPayload unit fun payload => by cases payload <;> rfl

/-- A field of a record. -/
theorem appendField (h : g.Valued) (record field : NodeId) : (g.appendField record field).Valued :=
  h.modifyPayload record fun payload => by cases payload <;> rfl

/-- The unit for made-up declarations. -/
theorem placeholderUnit (h : g.Valued) : g.placeholderUnit.2.Valued := by
  unfold Graph.placeholderUnit
  split
  · exact h
  · exact (h.addUnit _).modify _ fun _ => ⟨rfl, rfl⟩

end Valued

end Graph

/-! ## Building -/

namespace Builder

variable {b : Builder}

/-- Exactly the nodes that carry a value have a belief while a unit is built. -/
def Valued (b : Builder) : Prop := b.graph.Valued

namespace Valued

/-- A unit is begun. -/
theorem start {g : Graph} (h : g.Valued) (name : String) : (Builder.start g name).Valued :=
  h.addUnit name

/-- A new node without a value. -/
theorem add (h : b.Valued) (name : String) (payload : Payload) :
    (b.add (.make name payload)).2.Valued :=
  Graph.Valued.add h (Graph.isSome_belief_make name payload)

/-- A new node with a value. -/
theorem addTyped (h : b.Valued) (name : String) (payload : Payload) (o : Observation) :
    (b.addTyped (.make name payload) o).2.Valued :=
  Graph.Valued.addTyped h _ (Graph.isSome_belief_make name payload) o

/-- A node that is expected. -/
theorem expect (h : b.Valued) (id : NodeId) : (b.expect id).Valued := h

/-- The innermost open container changes, but not its kind. -/
theorem modifyCurrent (h : b.Valued) {f : Payload → Payload}
    (hf : ∀ payload, (f payload).tag = payload.tag) : (b.modifyCurrent f).Valued :=
  Graph.Valued.modifyPayload h b.current hf

/-- A declaration of the unit. -/
theorem declareInUnit (h : b.Valued) (id : NodeId) : (b.declareInUnit id).Valued :=
  Graph.Valued.appendDeclaration h b.unit id

/-! ### Declarations -/

/-- A record or an enumeration is put into its container. -/
theorem attachNominal (h : b.Valued) (id : NodeId) : (b.attachNominal id).Valued := by
  unfold Builder.attachNominal
  dsimp only
  split
  · exact (h.expect _).modifyCurrent fun payload => by cases payload <;> rfl
  · exact (h.expect _).declareInUnit id

/-- A function is put into its container. -/
theorem attachFunction (h : b.Valued) (kind : FunctionKind) (id : NodeId) :
    (b.attachFunction kind id).Valued := by
  unfold Builder.attachFunction
  dsimp only
  split
  · refine (h.expect _).modifyCurrent fun payload => ?_
    cases payload with
    | record body =>
      dsimp only
      split <;> rfl
    | _ => rfl
  · exact (h.expect _).declareInUnit id

/-- A field is put into its container. -/
theorem attachField (h : b.Valued) (id : NodeId) : (b.attachField id).Valued := by
  unfold Builder.attachField
  dsimp only
  split
  · exact Graph.Valued.appendField (h.expect _) _ _
  · exact (h.expect _).declareInUnit id

/-- A record is opened. -/
theorem enterRecord (h : b.Valued) (name sort : String) (superTypes : List Descriptor) :
    (b.enterRecord name sort superTypes).2.Valued :=
  attachNominal (b := { b with graph := (b.graph.addRecord name sort superTypes false).2 })
    (Graph.Valued.addRecord h name sort superTypes false) _

/-- An enumeration is opened. -/
theorem enterEnum (h : b.Valued) (name : String) (superTypes : List Descriptor) :
    (b.enterEnum name superTypes).2.Valued :=
  attachNominal (h.add name _) _

/-- A constant is added. -/
theorem addEnumConstant (h : b.Valued) (name : String) : (b.addEnumConstant name).2.Valued :=
  modifyCurrent (h.addTyped name _ _) fun payload => by cases payload <;> rfl

/-- A field is added. -/
theorem addField (h : b.Valued) (name : String) (type : Observation) (modifiers : List String)
    (initializer : Option NodeId) : (b.addField name type modifiers initializer).2.Valued :=
  attachField (h.addTyped name _ type) _

/-- A function is opened. -/
theorem enterFunction (h : b.Valued) (name : String) (kind : FunctionKind) (returnType : Observation)
    (isStatic : Bool) : (b.enterFunction name kind returnType isStatic).2.Valued :=
  attachFunction (h.addTyped name _ _) kind _

/-- A parameter is added. -/
theorem addParameter (h : b.Valued) (name : String) (type : Observation) (variadic : Bool) :
    (b.addParameter name type variadic).2.Valued :=
  modifyCurrent (h.addTyped name _ type) fun payload => by cases payload <;> rfl

/-- A record gets its implicit constructor. -/
theorem completeRecord (h : b.Valued) (record : NodeId) : (b.completeRecord record).Valued := by
  unfold Builder.completeRecord
  split
  · exact enterFunction (b := b.push record) h _ .constructor .unknown false
  · exact h

/-- A container is closed. -/
theorem leave (h : b.Valued) : b.leave.2.Valued := by
  unfold Builder.leave
  split
  · exact h
  · split
    · exact h
    · next closed _ _ => exact completeRecord (b := b.pop.expect closed) h closed

/-- Several containers are closed. -/
theorem leaveAll (h : b.Valued) (n : Nat) : (Builder.leaveAll n b).Valued := by
  induction n generalizing b with
  | zero => exact h
  | succ n ih =>
    unfold Builder.leaveAll
    dsimp only
    split
    · exact ih h.leave
    · exact h.leave

/-! ### Statements and expressions -/

/-- A block is opened. -/
theorem enterBlock (h : b.Valued) : b.enterBlock.2.Valued := by
  refine modifyCurrent (h.add "" (.block [])) fun payload => ?_
  cases payload with
  | function kind isStatic parameters body => cases body <;> rfl
  | _ => rfl

/-- A statement is added. -/
theorem addStatement (h : b.Valued) (id : NodeId) : (b.addStatement id).Valued :=
  h.modifyCurrent fun payload => by cases payload <;> rfl

/-- A variable is put into its container. -/
theorem attachVariable (h : b.Valued) (id : NodeId) : (b.attachVariable id).Valued := by
  unfold Builder.attachVariable
  dsimp only
  split
  · exact addStatement ((h.expect _).add "" _) _
  · exact (h.expect _).declareInUnit id

/-- A variable is declared. -/
theorem declareVariable (h : b.Valued) (name : String) (type : Observation) (initializer : Option NodeId) :
    (b.declareVariable name type initializer).2.Valued :=
  attachVariable (h.addTyped name _ type) _

/-- A return statement is added. -/
theorem addReturn (h : b.Valued) (value : Option NodeId) : (b.addReturn value).2.Valued :=
  addStatement (h.add "" _) _

/-- A member access is made. -/
theorem member (h : b.Valued) (base : NodeId) (name : String) (type memberType : Observation) :
    (b.member base name type memberType).2.Valued :=
  addTyped (h.addTyped name _ memberType) name _ type

/-- A literal is made. -/
theorem literal (h : b.Valued) (value : String) (type : Observation) : (b.literal value type).2.Valued :=
  Graph.Valued.addTyped h { Node.make value (.literal value) with code := some value } rfl type

/-- The line of a node is noted. -/
theorem atLine (h : b.Valued) (id : NodeId) (line : Option Nat) : (b.atLine id line).Valued := by
  cases line with
  | none => exact h
  | some n => exact Graph.Valued.modify h id fun _ => ⟨rfl, rfl⟩

end Valued

end Builder

namespace Document

mutual

/-- An expression is built. -/
theorem Expression.valued_build (e : Expression) {b : Builder} (h : b.Valued) : (e.build b).2.Valued := by
  cases e with
  | ref name type isStatic line =>
    cases isStatic
    · exact (h.addTyped name _ _).atLine _ line
    · exact (h.addTyped name _ _).atLine _ line
  | member base name type memberType line =>
    exact ((base.valued_build h).member _ name _ _).atLine _ line
  | call name base arguments type line =>
    have hbase := Expression.valued_buildOption base h
    exact ((Expression.valued_buildList arguments hbase).addTyped name _ _).atLine _ line
  | literal value type => exact h.literal value _

/-- An expression that may be left out. -/
theorem Expression.valued_buildOption (o : Option Expression) {b : Builder} (h : b.Valued) :
    (Expression.buildOption b o).2.Valued := by
  cases o with
  | none => exact h
  | some e => exact e.valued_build h

/-- Several expressions. -/
theorem Expression.valued_buildList (es : List Expression) {b : Builder} (h : b.Valued) :
    (Expression.buildList b es).2.Valued := by
  cases es with
  | nil => exact h
  | cons e rest => exact Expression.valued_buildList rest (e.valued_build h)

end

mutual

/-- A statement is built. -/
theorem Statement.valued_build (s : Statement) {b : Builder} (h : b.Valued) : (s.build b).Valued := by
  cases s with
  | declare name type initializer =>
    exact (Expression.valued_buildOption initializer h).declareVariable name _ _
  | returned value => exact (Expression.valued_buildOption value h).addReturn _
  | expression e => exact (e.valued_build h).addStatement _
  | block statements => exact (Statement.valued_buildList statements h.enterBlock).leave

/-- Several statements. -/
theorem Statement.valued_buildList (ss : List Statement) {b : Builder} (h : b.Valued) :
    (Statement.buildList b ss).Valued := by
  cases ss with
  | nil => exact h
  | cons s rest => exact Statement.valued_buildList rest (s.valued_build h)

end

/-- The body of a function. -/
theorem valued_buildBody {b : Builder} (h : b.Valued) (body : Option (List Statement)) : (buildBody b body).Valued := by
  cases body with
  | none => exact h
  | some statements => exact (Statement.valued_buildList statements h.enterBlock).leave

/-- The parameters of a function. -/
theorem valued_buildParameters {b : Builder} (h : b.Valued) (ps : List Parameter) : (buildParameters b ps).Valued := by
  induction ps generalizing b with
  | nil => exact h
  | cons p rest ih => exact ih (h.addParameter p.name _ p.variadic)

/-- The constants of an enumeration. -/
theorem valued_buildConstants {b : Builder} (h : b.Valued) (names : List String) :
    (names.foldl (fun b name => (b.addEnumConstant name).2) b).Valued := by
  induction names generalizing b with
  | nil => exact h
  | cons name rest ih => exact ih (h.addEnumConstant name)

mutual

/-- A declaration is built. -/
theorem Declaration.valued_build (d : Declaration) {b : Builder} (inRecord : Bool) (h : b.Valued) :
    (d.build b inRecord).Valued := by
  cases d with
  | record name sort superTypes members =>
    exact (Declaration.valued_buildList members true (h.enterRecord name sort _)).leave
  | enum name superTypes constants => exact (valued_buildConstants (h.enterEnum name _) constants).leave
  | field name type modifiers initializer =>
    exact (Expression.valued_buildOption initializer h).addField name _ modifiers _
  | function name kind returnType isStatic parameters body =>
    have hentered := h.enterFunction name (functionKind kind inRecord) (.ofText? returnType) isStatic
    exact (valued_buildBody (valued_buildParameters hentered parameters) body).leave
  | var name type initializer =>
    exact (Expression.valued_buildOption initializer h).declareVariable name _ _

/-- Several declarations. -/
theorem Declaration.valued_buildList (ds : List Declaration) {b : Builder} (inRecord : Bool) (h : b.Valued) :
    (Declaration.buildList b inRecord ds).Valued := by
  cases ds with
  | nil => exact h
  | cons d rest => exact Declaration.valued_buildList rest inRecord (d.valued_build inRecord h)

end

/-- **A document** is built. -/
theorem valued_build (d : Document) (path : String) {g : Graph} (h : g.Valued) :
    (d.build path g).2.Valued :=
  (Declaration.valued_buildList d.declarations false (.start h _)).leaveAll _

end Document

/-! ## Resolving -/

namespace Resolver

variable {r r' : Resolver} {vs : List Verdict}

/-- **One write** of a resolution. -/
theorem Writes.valued (h : r.Writes r') (hr : r.graph.Valued) : r'.graph.Valued := by
  cases h with
  | beliefs hsame => exact hr.of_sameSource hsame
  | remember => exact hr
  | unit => exact hr.placeholderUnit
  | record hunit =>
    rw [makeRecord_eq hunit]
    exact (hr.addRecord _ _ _ true).appendDeclaration _ _
  | @field _ record name _ _ o =>
    have hnode : Node.belief { Node.make name (.field [] none) with dummy := true } = some {} := rfl
    exact (hr.addTyped _ (congrArg Option.isSome hnode) o).appendField record r.graph.size
  | target reference => exact hr.modifyPayload reference fun payload => by cases payload <;> rfl
  | access access => exact hr.modifyPayload access fun payload => by cases payload <;> rfl

/-- **Several writes.** -/
theorem Does.valued (h : r.Does vs r') (hr : r.graph.Valued) : r'.graph.Valued := by
  induction h with
  | refl => exact hr
  | write _ now ih => exact now.valued ih
  | judge _ _ ih => exact ih

end Resolver

end ProgramGraph
