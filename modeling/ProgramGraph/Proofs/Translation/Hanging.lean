import ProgramGraph.Proofs.Building.Containers
import ProgramGraph.Proofs.Translation.Members

set_option autoImplicit false

/-!
# Builders hang up

Each function of a builder makes nodes, hangs them up by their role or opens them. Where a declaration
goes depends on the container that is open, which in a document is a record or else the unit.

## Main definitions

* `ProgramGraph.Builder.Within` — a record with a name is open, or nothing but the unit.

## Main results

* `ProgramGraph.Belief.type_observe_empty` — what is kept of the first type that is observed.
* `ProgramGraph.Builder.attachNominal_eq`, `ProgramGraph.Builder.attachFunction_eq`,
  `ProgramGraph.Builder.addStatement_eq` — hanging up.
* `ProgramGraph.Builder.enterRecord_eq`, `ProgramGraph.Builder.enterEnum_eq`,
  `ProgramGraph.Builder.enterFunction_eq`, `ProgramGraph.Builder.enterBlock_eq` — opening.
* `ProgramGraph.Builder.leave_of_complete`, `ProgramGraph.Builder.leave_of_incomplete` — closing.
* `ProgramGraph.Builder.Builds.close_plain` — a container is filled and left.
-/

namespace ProgramGraph

/-! ## First types -/

/-- **The first type** that is observed is kept, unless it is unknown. -/
theorem Belief.type_observe_empty (o : Observation) : (({} : Belief).observe o).type = o.known := by
  unfold observe ignores Observation.known
  by_cases hunknown : o.type.isUnknown = true
  · rw [if_pos hunknown, hunknown, Bool.true_or, if_pos rfl]
  · rw [if_neg hunknown, Bool.eq_false_iff.mpr hunknown]
    rfl

/-- What a new node with a value says. -/
theorem Node.label_firstSeen {node : Node} (new : Graph.IsNew node) (typed : node.tag.isTyped = true)
    (o : Observation) : (Graph.firstSeen node o).label = { node.label with type := some o.known } := by
  obtain ⟨belief, hbelief⟩ := Option.isSome_iff_exists.mp (new.typed typed)
  rw [label, Graph.firstSeen, hbelief, new.belief belief hbelief, Option.map_some, Option.map_some,
    Belief.type_observe_empty]
  rfl

namespace Builder

variable {b b' : Builder} {hung made : List Member} {id : NodeId} {owner : Option String}

/-! ## Making -/

/-- A new node with a first observation. -/
theorem addTyped_make (b : Builder) (name : String) (payload : Payload) (o : Observation) :
    b.addTyped (.make name payload) o = b.add (Graph.firstSeen (.make name payload) o) :=
  addTyped_eq (Graph.isNew_make name payload) b o

/-- The line of a new node is noted as if it was there from the beginning. -/
theorem atLine_add (b : Builder) {node : Node} (h : node.line = none) (line : Option Nat) :
    (b.add node).2.atLine b.graph.size line = (b.add { node with line }).2 := by
  cases line with
  | none =>
    have hsame : ({ node with line := none } : Node) = node := by rw [← h]
    rw [hsame]
    rfl
  | some n =>
    exact congrArg (fun graph => { b with graph }) (b.graph.modify_add (f := fun node =>
      { node with line := some n }) rfl)

/-- **Making a member** with a value, and perhaps a line. -/
theorem Builds.addTyped (h : b.Builds b' hung made) {node : Node} (new : Graph.IsNew node)
    (typed : node.tag.isTyped = true) (hline : node.line = none) (o : Observation) (line : Option Nat)
    (links : node.payload.links = made.map Member.id)
    (kinds : node.tag = .memberAccess → ∀ m ∈ made, m.tree.label.shape.isExpression = true) :
    b.Builds ((b'.addTyped node o).2.atLine b'.graph.size line) hung
      [⟨b'.graph.size, .node { node.label with type := some o.known, line } (made.map Member.tree)⟩] := by
  have hlabel : ({ Graph.firstSeen node o with line } : Node).label =
      { node.label with type := some o.known, line } := by
    have hseen := Node.label_firstSeen new typed o
    exact congrArg (fun label : Label => { label with line }) hseen
  rw [addTyped_eq new, atLine_add b' (show (Graph.firstSeen node o).line = none from hline), ← hlabel]
  exact h.add _ links kinds

/-! ## Where a builder is -/

/-- Where declarations are built: in a record with a name, or in the unit with nothing else open. -/
inductive Within (b : Builder) : Option String → Prop where
  /-- In the unit. -/
  | unit (current : b.current = b.unit) (tag : b.graph.tag? b.unit = some .unit) : Within b none
  /-- In a record. -/
  | record {name : String} (tag : b.graph.tag? b.current = some .record)
    (named : b.graph.name? b.current = some name) : Within b (some name)

/-- The innermost container depends on the unit and the open containers. -/
theorem Builds.current_eq (h : b.Builds b' hung made) : b'.current = b.current := by
  rw [current, current, h.unit, h.containers]

/-- Kinds of old nodes stay. -/
theorem Builds.tag? (h : b.Builds b' hung made) (hlt : id < b.graph.size) :
    b'.graph.tag? id = b.graph.tag? id := by
  rw [Graph.tag?, h.old id hlt, Option.map_map]
  exact congrArg (fun f => (b.graph.node? id).map f) (funext fun node => Payload.tag_takes ..)

/-- Names of old nodes stay. -/
theorem Builds.name? (h : b.Builds b' hung made) (hlt : id < b.graph.size) :
    b'.graph.name? id = b.graph.name? id := by
  rw [Graph.name?, h.old id hlt, Option.map_map]
  rfl

/-- A builder that goes on stays where it is. -/
theorem Within.builds (hw : b.Within owner) (hb : b.Founded) (h : b.Builds b' hung made) :
    b'.Within owner := by
  cases hw with
  | unit current tag =>
    refine .unit (h.current_eq.trans (current.trans h.unit.symm)) ?_
    rw [h.unit, h.tag? hb.unit_lt, tag]
  | record tag named =>
    refine .record ?_ ?_
    · rw [h.current_eq, h.tag? hb.current_lt, tag]
    · rw [h.current_eq, h.name? hb.current_lt, named]

/-- What is added changes nothing about where a builder is. -/
theorem Within.add (hw : b.Within owner) (hb : b.Founded) (node : Node) : (b.add node).2.Within owner := by
  cases hw with
  | unit current tag =>
    refine .unit current ?_
    rw [Graph.tag?, show (b.add node).2.unit = b.unit from rfl,
      b.node?_add_of_lt node hb.unit_lt]
    exact tag
  | record tag named =>
    have hcurrent := b.node?_add_of_lt node hb.current_lt
    refine .record ?_ ?_
    · rw [Graph.tag?, show (b.add node).2.current = b.current from rfl, hcurrent]
      exact tag
    · rw [Graph.name?, show (b.add node).2.current = b.current from rfl, hcurrent]
      exact named

/-- What is open stays there when a node is added. -/
theorem Founded.add (hb : b.Founded) (node : Node) : (b.add node).2.Founded :=
  ⟨hb.rooted, fun c hc => Nat.lt_of_lt_of_eq (Nat.lt_succ_of_lt (hb.lt c hc)) (Graph.size_add ..).symm⟩

/-- What is open is seen by its kind. -/
theorem any_currentPayload? (b : Builder) (tag : Tag) :
    (b.currentPayload?.any fun payload => payload.tag == tag) = (b.graph.tag? b.current).any (· == tag) := by
  unfold currentPayload? Graph.payload? Graph.tag?
  rw [Option.any_map, Option.any_map]
  rfl

/-- Whether a record is open. -/
theorem Within.inRecord_eq (h : b.Within owner) : b.inRecord = owner.isSome := by
  rw [inRecord, any_currentPayload?]
  cases h with
  | unit current tag => rw [current, tag]; rfl
  | record tag _ => rw [tag]; rfl

/-- No block is open. -/
theorem Within.inBlock_eq (h : b.Within owner) : b.inBlock = false := by
  rw [inBlock, any_currentPayload?]
  cases h with
  | unit current tag => rw [current, tag]; rfl
  | record tag _ => rw [tag]; rfl

/-- The name of the record that is open. -/
theorem currentName_eq {name : String} (h : b.graph.name? b.current = some name) : b.currentName = name := by
  unfold currentName
  rw [← Graph.name?, h]
  rfl

/-! ## Hanging up -/

/-- Changes of a payload that agree on what it is. -/
theorem modifyPayload_congr {g : Graph} {tag : Tag} (h : g.tag? id = some tag) {f f' : Payload → Payload}
    (hf : ∀ payload, payload.tag = tag → f payload = f' payload) :
    g.modifyPayload id f = g.modifyPayload id f' := by
  refine Graph.modify_congr fun node hnode => ?_
  rw [Graph.tag?_eq hnode, Option.some.injEq] at h
  rw [hf node.payload h]

/-- A node that is put into the record around it. -/
theorem modifyCurrent_of_record (tag : b.graph.tag? b.current = some .record) {role : Role}
    (hrole : role ≠ .variable) {f : Payload → Payload}
    (hf : ∀ body, f (.record body) = .record (body.take role id)) : b.modifyCurrent f = b.hang role id := by
  have hhost : b.host role = b.current := if_neg hrole
  rw [hang, hhost]
  refine congrArg (fun graph => { b with graph }) (modifyPayload_congr tag fun payload hpayload => ?_)
  cases payload with
  | record body => exact hf body
  | _ => cases hpayload

/-- The innermost container is there. -/
theorem Within.expect_current (h : b.Within owner) : b.expect b.current = b := by
  refine expect_eq_self ?_
  cases h with
  | unit current tag => exact current ▸ Graph.lt_size_of_tag? tag
  | record tag _ => exact Graph.lt_size_of_tag? tag

/-- A node that is put into the record around it or else into the unit. -/
theorem hang_of_within (h : b.Within owner) {role : Role} (hrole : role ≠ .variable)
    (hdeclared : role.isDeclared = true) {f : Payload → Payload}
    (hf : ∀ body, f (.record body) = .record (body.take role id)) :
    (if (b.expect b.current).inRecord then (b.expect b.current).modifyCurrent f
      else (b.expect b.current).declareInUnit id) = b.hang role id := by
  rw [h.expect_current, h.inRecord_eq]
  cases h with
  | unit current tag =>
    have hhost : b.host role = b.unit := (if_neg hrole).trans current
    rw [hang, hhost]
    refine congrArg (fun graph => { b with graph }) (modifyPayload_congr tag fun payload hpayload => ?_)
    cases payload with
    | unit declarations => exact (congrArg Payload.unit (if_pos hdeclared)).symm
    | _ => cases hpayload
  | record tag _ => exact modifyCurrent_of_record tag hrole hf

/-- Putting a record or an enumeration into its container. -/
theorem attachNominal_eq (h : b.Within owner) (id : NodeId) : b.attachNominal id = b.hang .nominal id :=
  hang_of_within h (by decide) rfl fun _ => rfl

/-- Putting a function into its container. -/
theorem attachFunction_eq (h : b.Within owner) (kind : FunctionKind) (id : NodeId) :
    b.attachFunction kind id = b.hang (if kind = .constructor then .constructor else .method) id := by
  refine hang_of_within h ?_ ?_ fun body => ?_
  · split <;> decide
  · split <;> rfl
  · cases kind <;> rfl

/-- Putting a declaration into the unit. -/
theorem declareInUnit_eq (b : Builder) (id : NodeId) : b.declareInUnit id = b.hang .variable id :=
  congrArg (fun f => { b with graph := b.graph.modifyPayload b.unit f })
    (funext fun payload => by cases payload <;> rfl)

/-- A node that is put into the container around it. -/
theorem modifyCurrent_eq (b : Builder) {role : Role} (hrole : role ≠ .variable) {f : Payload → Payload}
    (hf : ∀ payload, f payload = payload.take role id) : b.modifyCurrent f = b.hang role id := by
  rw [modifyCurrent, hang, host, if_neg hrole, funext hf]

/-- Putting a statement into the block around it. -/
theorem addStatement_eq (b : Builder) (id : NodeId) : b.addStatement id = b.hang .statement id :=
  b.modifyCurrent_eq (by decide) fun payload => by cases payload <;> rfl

/-- **A field** is made and put into its container. -/
theorem addField_eq (hw : b.Within owner) (hb : b.Founded) (name : String) (type : Observation)
    (modifiers : List String) (initializer : Option NodeId) :
    (b.addField name type modifiers initializer).2 =
      (b.addTyped (.make name (.field modifiers initializer)) type).2.hang .field b.graph.size := by
  have hw' : (b.addTyped (.make name (.field modifiers initializer)) type).2.Within owner := by
    rw [addTyped_make]
    exact hw.add hb _
  exact hang_of_within hw' (by decide) rfl fun _ => rfl

/-- The innermost container is still there when a node was made. -/
theorem Founded.expect_current_addTyped (hb : b.Founded) (node : Node) (o : Observation) :
    (b.addTyped node o).2.expect (b.addTyped node o).2.current = (b.addTyped node o).2 :=
  expect_eq_self (Nat.lt_of_lt_of_eq (Nat.lt_succ_of_lt hb.current_lt) (Graph.size_addTyped ..).symm)

/-- **A variable** of a block is made and put into it by a statement of its own. -/
theorem declareVariable_of_block (hb : b.Founded) (hblock : b.graph.tag? b.current = some .block)
    (name : String) (type : Observation) (initializer : Option NodeId) :
    (b.declareVariable name type initializer).2 =
      ((b.addTyped (.make name (.var initializer)) type).2.add
        (.make "" (.declarationStatement [b.graph.size]))).2.hang .statement
          (b.addTyped (.make name (.var initializer)) type).2.graph.size := by
  have hin : (b.addTyped (.make name (.var initializer)) type).2.inBlock = true := by
    rw [inBlock, any_currentPayload?, addTyped_make]
    change (((b.add _).2.graph.tag? b.current).any fun tag => tag == .block) = true
    rw [Graph.tag?, b.node?_add_of_lt _ hb.current_lt, ← Graph.tag?, hblock]
    rfl
  have hexpect := hb.expect_current_addTyped (.make name (.var initializer)) type
  change (b.addTyped _ _).2.attachVariable _ = _
  rw [attachVariable, hexpect, ← addStatement_eq]
  exact if_pos hin

/-- **A variable** outside of blocks is made and put into the unit. -/
theorem declareVariable_of_within (hw : b.Within owner) (hb : b.Founded) (name : String)
    (type : Observation) (initializer : Option NodeId) :
    (b.declareVariable name type initializer).2 =
      (b.addTyped (.make name (.var initializer)) type).2.hang .variable b.graph.size := by
  have hin : (b.addTyped (.make name (.var initializer)) type).2.inBlock = false := by
    rw [addTyped_make]
    exact (hw.add hb _).inBlock_eq
  have hexpect := hb.expect_current_addTyped (.make name (.var initializer)) type
  change (b.addTyped _ _).2.attachVariable _ = _
  rw [attachVariable, hexpect, ← declareInUnit_eq]
  exact if_neg (by rw [hin]; decide)

/-- **A parameter** is made and put into the function around it. -/
theorem addParameter_eq (b : Builder) (name : String) (type : Observation) (variadic : Bool) :
    (b.addParameter name type variadic).2 =
      (b.addTyped (.make name (.parameter variadic)) type).2.hang .parameter b.graph.size :=
  modifyCurrent_eq _ (by decide) fun payload => by cases payload <;> rfl

/-- **A constant** is made and put into the enumeration around it. -/
theorem addEnumConstant_eq (b : Builder) (name : String) :
    (b.addEnumConstant name).2 =
      (b.addTyped (.make name .enumConstant) { type := .parse b.currentName }).2.hang .constant
        b.graph.size :=
  modifyCurrent_eq _ (by decide) fun payload => by cases payload <;> rfl

/-! ## Opening containers -/

/-- A record that was just opened, with the field that stands for it. -/
def newRecord (name sort : String) (superTypes : List Descriptor) (self : NodeId) : Node :=
  .make name (.record (Graph.newRecord sort superTypes self))

/-- The field that stands for a record with a name. -/
def newSelf (name : String) : Node := Graph.firstSeen (.selfField false) { type := .parse name }

/-- A function that was just opened. -/
def newFunction (owner : Option String) (name : String) (kind : FunctionKind) (returnType : Observation)
    (isStatic : Bool) : Node :=
  Graph.firstSeen (.make name (.function kind isStatic [] none))
    (Document.functionType owner kind returnType)

/-- What a function says that was just opened. -/
theorem label_newFunction (owner : Option String) (name : String) (kind : FunctionKind)
    (returnType : Observation) (isStatic : Bool) :
    (newFunction owner name kind returnType isStatic).label =
      { name
        shape := .function kind isStatic 0
        type := some (Document.functionType owner kind returnType).known } :=
  Node.label_firstSeen (Graph.isNew_make ..) rfl _

/-- What the field says that stands for a record. -/
theorem label_newSelf (name : String) :
    (newSelf name).label =
      { name := "this"
        shape := .field []
        type := some (Observation.known { type := .parse name })
        code := some "this" } := by
  have hplain := Graph.isNew_make "this" (.field [] none)
  have hnew : Graph.IsNew (Node.selfField false) := ⟨rfl, hplain.belief, hplain.typed⟩
  exact Node.label_firstSeen hnew rfl _

/-- A record is made of two nodes. -/
theorem addRecord_eq (g : Graph) (name sort : String) (superTypes : List Descriptor) :
    g.addRecord name sort superTypes false =
      (g.add (newSelf name)).2.add (newRecord name sort superTypes g.size) := by
  have hself : g.addTyped (.selfField false) { type := .parse name } = g.add (newSelf name) :=
    Graph.addTyped_eq (fun belief hbelief => by rw [← Option.some.inj hbelief]) _ _
  unfold Graph.addRecord
  rw [hself]
  rfl

/-- **Opening a record.** -/
theorem enterRecord_eq (hw : b.Within owner) (hb : b.Founded) (name sort : String)
    (superTypes : List Descriptor) :
    (b.enterRecord name sort superTypes).2 =
      (b.add (newSelf name)).2.enter (newRecord name sort superTypes b.graph.size) := by
  have hw' := (hw.add hb (newSelf name)).add (hb.add _) (newRecord name sort superTypes b.graph.size)
  unfold enterRecord
  rw [addRecord_eq]
  exact congrArg (fun b : Builder => b.push _) (attachNominal_eq hw' _)

/-- In a record that was just opened. -/
theorem within_enterRecord (hw : b.Within owner) (hb : b.Founded) (name sort : String)
    (superTypes : List Descriptor) :
    (b.enterRecord name sort superTypes).2.Founded ∧
      (b.enterRecord name sort superTypes).2.Within (some name) := by
  rw [enterRecord_eq hw hb]
  have hb' := hb.add (newSelf name)
  have hnode := node?_enter_self _ (newRecord name sort superTypes b.graph.size) hb'
  exact ⟨.enter _ _ hb', .record (Graph.tag?_eq hnode) (Graph.name?_eq hnode)⟩

/-- **Opening an enumeration.** -/
theorem enterEnum_eq (hw : b.Within owner) (hb : b.Founded) (name : String) (superTypes : List Descriptor) :
    (b.enterEnum name superTypes).2 = b.enter (.make name (.enum [] superTypes)) :=
  congrArg (fun b : Builder => b.push _) (attachNominal_eq (hw.add hb _) _)

/-- **Opening a function.** -/
theorem enterFunction_eq (hw : b.Within owner) (hb : b.Founded) (name : String) (kind : FunctionKind)
    (returnType : Observation) (isStatic : Bool) :
    (b.enterFunction name kind returnType isStatic).2 =
      b.enter (newFunction owner name kind returnType isStatic) := by
  have htype : (if (kind = .constructor && b.inRecord) = true then
      ({ type := .parse b.currentName } : Observation) else returnType) =
        Document.functionType owner kind returnType := by
    rw [hw.inRecord_eq]
    cases hw with
    | unit _ _ => cases kind <;> rfl
    | record _ named =>
      rw [currentName_eq named]
      cases kind <;> rfl
  unfold enterFunction
  rw [htype]
  change ((b.addTyped _ _).2.attachFunction kind (b.addTyped _ _).1).push (b.addTyped _ _).1 = _
  rw [addTyped_make]
  exact congrArg (fun b : Builder => b.push _) (attachFunction_eq (hw.add hb _) kind _)

/-- **Opening a block.** -/
theorem enterBlock_eq (b : Builder) : b.enterBlock.2 = b.enter (.make "" (.block [])) := by
  refine congrArg (fun b : Builder => b.push _) (modifyCurrent_eq _ (by decide) fun payload => ?_)
  cases payload with
  | function kind isStatic parameters body => cases body <;> rfl
  | _ => rfl

/-! ## Closing containers -/

/-- **Filling a container** without variables that is no record. -/
theorem Builds.close_plain {node : Node} {ms : List Member} {payload : Payload} (hb : b.Founded)
    (hin : (b.enter node).Builds b' ms ms) (hrecord : node.tag ≠ .record)
    (haccess : node.tag ≠ .memberAccess) (hroles : ∀ m ∈ ms, m.tree.role ≠ .variable)
    (takes : node.payload.takes ms = payload) (links : payload.links = ms.map Member.id) :
    b.Builds b'.leave.2
      [⟨b.graph.size, .node { node.label with shape := payload.shape } (ms.map Member.tree)⟩]
      [⟨b.graph.size, .node { node.label with shape := payload.shape } (ms.map Member.tree)⟩] := by
  subst takes
  have hinner := Member.inner_eq hroles
  have hleave : b'.leave.2 = b'.pop := by
    have hnode := hin.node?_enter hb
    rw [leave_of_complete hin.containers hb.rooted.ne_nil fun body hbody => absurd ?_ hrecord,
      expect_eq_self (Graph.lt_size hnode)]
    have htag := (Graph.tag?_eq hnode).symm.trans (Graph.tag?_of_payload? hbody)
    exact (Payload.tag_takes ..).symm.trans (Option.some.inj htag)
  have hclosed := (Builds.refl b).close hb hin haccess ms (by rw [hinner]; rfl)
    (by rw [hinner, links])
  rw [hinner, Member.ofRole_eq_nil hroles] at hclosed
  rw [hleave]
  exact hclosed

end Builder

end ProgramGraph
