import ProgramGraph.Proofs.Building.Declaring
import ProgramGraph.Proofs.Translation.Faithful

set_option autoImplicit false

/-!
# Operations on a builder

A front end drives a builder with operations in any order: containers need not be closed in the
order of a document, or at all, and expressions may be made anywhere. Whatever an operation does, it
changes the unit and the innermost container only, and a record takes up a constructor only where
one is entered in it.

## Main definitions

* `ProgramGraph.Builder.Op` — the operations, `ProgramGraph.Builder.perform` and
  `ProgramGraph.Builder.performAll`.
* `ProgramGraph.Builder.Fills` — what a builder may do without opening or closing anything.
* `ProgramGraph.Builder.Stacked` — the stack is in order.
* `ProgramGraph.Builder.Settled` — a node that is no longer open.

## Main results

* `ProgramGraph.Builder.performs` — everything an operation can do.
* `ProgramGraph.Builder.Stacked.performAll` — the stack stays in order, with the unit at its bottom.
* `ProgramGraph.Builder.Stacked.fault_performAll` — nothing but nodes of the graph is written to.
* `ProgramGraph.Builder.Settled.performAll` — what is no longer open stays as it is.
-/

namespace ProgramGraph

/-- How a record grows: by fields behind those it has, by the given constructors, and otherwise as it
likes. -/
structure RecordBody.Fills (constructors : List NodeId) (body body' : RecordBody) : Prop where
  /-- The field that stands for the record stays. -/
  self : body'.self = body.self
  /-- New fields stand behind the old ones. -/
  fields : body.fields <+: body'.fields
  /-- The constructors are added. -/
  constructors : body'.constructors = body.constructors ++ constructors

namespace RecordBody.Fills

variable {body body' body'' : RecordBody} {cs cs' : List NodeId}

/-- A record that takes nothing up. -/
theorem refl (body : RecordBody) : Fills [] body body :=
  ⟨rfl, List.prefix_refl _, (List.append_nil _).symm⟩

/-- A record grows step by step. -/
theorem trans (h : Fills cs body body') (h' : Fills cs' body' body'') : Fills (cs ++ cs') body body'' := by
  refine ⟨h'.self.trans h.self, h.fields.trans h'.fields, ?_⟩
  rw [h'.constructors, h.constructors, List.append_assoc]

/-- A record takes a node up. -/
theorem take (role : Role) (id : NodeId) (body : RecordBody) :
    Fills (if role = .constructor then [id] else []) body (body.take role id) := by
  cases role with
  | field => exact ⟨rfl, List.prefix_append .., (List.append_nil _).symm⟩
  | constructor => exact ⟨rfl, List.prefix_refl _, rfl⟩
  | _ => exact ⟨rfl, List.prefix_refl _, (List.append_nil _).symm⟩

end RecordBody.Fills

namespace Builder

/-! ## Operations -/

/-- An operation on a builder. The numbers of nodes are arbitrary. -/
inductive Op where
  /-- Opens a record. -/
  | enterRecord (name sort : String) (superTypes : List Descriptor)
  /-- Opens an enumeration. -/
  | enterEnum (name : String) (superTypes : List Descriptor)
  /-- Opens a function. -/
  | enterFunction (name : String) (kind : FunctionKind) (returnType : Observation) (isStatic : Bool)
  /-- Opens a block. -/
  | enterBlock
  /-- Closes the innermost container. -/
  | leave
  /-- Adds a constant. -/
  | addEnumConstant (name : String)
  /-- Adds a field. -/
  | addField (name : String) (type : Observation) (modifiers : List String) (initializer : Option NodeId)
  /-- Adds a parameter. -/
  | addParameter (name : String) (type : Observation) (variadic : Bool)
  /-- Appends a statement. -/
  | addStatement (id : NodeId)
  /-- Adds a return statement. -/
  | addReturn (value : Option NodeId)
  /-- Declares a variable. -/
  | declareVariable (name : String) (type : Observation) (initializer : Option NodeId)
  /-- Makes a reference. -/
  | reference (name : String) (type : Observation)
  /-- Makes a reference qualified by a type name. -/
  | staticReference (name : String) (type : Observation)
  /-- Makes a member access. -/
  | member (base : NodeId) (name : String) (type memberType : Observation)
  /-- Makes a call. -/
  | call (name : String) (base : Option NodeId) (arguments : List NodeId) (type : Observation)
  /-- Makes a literal. -/
  | literal (value : String) (type : Observation)

/-- Whether an operation opens a container. -/
def Op.opens : Op → Bool
  | .enterRecord .. | .enterEnum .. | .enterFunction .. | .enterBlock => true
  | _ => false

/-- Performs an operation. -/
def perform (b : Builder) : Op → Builder
  | .enterRecord name sort superTypes => (b.enterRecord name sort superTypes).2
  | .enterEnum name superTypes => (b.enterEnum name superTypes).2
  | .enterFunction name kind returnType isStatic => (b.enterFunction name kind returnType isStatic).2
  | .enterBlock => b.enterBlock.2
  | .leave => b.leave.2
  | .addEnumConstant name => (b.addEnumConstant name).2
  | .addField name type modifiers initializer => (b.addField name type modifiers initializer).2
  | .addParameter name type variadic => (b.addParameter name type variadic).2
  | .addStatement id => b.addStatement id
  | .addReturn value => (b.addReturn value).2
  | .declareVariable name type initializer => (b.declareVariable name type initializer).2
  | .reference name type => (b.reference name type).2
  | .staticReference name type => (b.staticReference name type).2
  | .member base name type memberType => (b.member base name type memberType).2
  | .call name base arguments type => (b.call name base arguments type).2
  | .literal value type => (b.literal value type).2

/-- Performs operations one after the other. -/
def performAll (b : Builder) (ops : List Op) : Builder := ops.foldl perform b

/-- The constructor that an operation enters, whatever it is put into. -/
def entered (b : Builder) : Op → List NodeId
  | .enterFunction name .constructor returnType isStatic =>
    [(b.enterFunction name .constructor returnType isStatic).1]
  | _ => []

variable {b b' b'' : Builder} {cs cs' : List NodeId} {id : NodeId} {node : Node}

/-! ## Filling the innermost container -/

/-- A builder fills its innermost container, with the given constructors if that is a record, and
opens and closes nothing. -/
structure Fills (b b' : Builder) (constructors : List NodeId) : Prop where
  /-- The unit stays. -/
  unit : b'.unit = b.unit
  /-- The same containers are open. -/
  containers : b'.containers = b.containers
  /-- No node is removed. -/
  size : b.graph.size ≤ b'.graph.size
  /-- If the unit and the innermost container are there, nothing but nodes is written to. -/
  fault : b.unit < b.graph.size → b.current < b.graph.size → b'.graph.fault = b.graph.fault
  /-- Kinds stay. -/
  tag : ∀ id tag, b.graph.tag? id = some tag → b'.graph.tag? id = some tag
  /-- Nodes that are neither the unit nor the innermost container are left alone. -/
  other : ∀ id < b.graph.size, id ≠ b.unit → id ≠ b.current → b'.graph.node? id = b.graph.node? id
  /-- A record that is the innermost container grows. -/
  record : b.current ≠ b.unit → ∀ node body, b.graph.node? b.current = some node →
    node.payload = .record body → ∃ body', body.Fills constructors body' ∧
      b'.graph.node? b.current = some { node with payload := .record body' }

namespace Fills

/-- A builder that does nothing. -/
theorem refl (b : Builder) : b.Fills b [] where
  unit := rfl
  containers := rfl
  size := Nat.le_refl _
  fault _ _ := rfl
  tag _ _ htag := htag
  other _ _ _ _ := rfl
  record _ node body hnode hbody := ⟨body, .refl body, by rw [hnode, ← hbody]⟩

/-- The innermost container stays the same. -/
theorem current (h : b.Fills b' cs) : b'.current = b.current := by
  rw [Builder.current, Builder.current, h.unit, h.containers]

/-- A builder goes on step by step. -/
theorem trans (h : b.Fills b' cs) (h' : b'.Fills b'' cs') : b.Fills b'' (cs ++ cs') := by
  refine ⟨h'.unit.trans h.unit, h'.containers.trans h.containers, h.size.trans h'.size,
    fun hunit hcurrent => ?_, fun id tag htag => h'.tag id tag (h.tag id tag htag),
    fun id hlt hunit hcurrent => ?_, fun hne node body hnode hbody => ?_⟩
  · refine (h'.fault ?_ ?_).trans (h.fault hunit hcurrent)
    · exact h.unit ▸ Nat.lt_of_lt_of_le hunit h.size
    · exact h.current ▸ Nat.lt_of_lt_of_le hcurrent h.size
  · rw [h'.other id (Nat.lt_of_lt_of_le hlt h.size) (h.unit ▸ hunit) (h.current ▸ hcurrent)]
    exact h.other id hlt hunit hcurrent
  · obtain ⟨body', hfills, hnode'⟩ := h.record hne node body hnode hbody
    have hne' : b'.current ≠ b'.unit := by rwa [h.current, h.unit]
    rw [← h.current] at hnode'
    obtain ⟨body'', hfills', hnode''⟩ := h'.record hne' _ body' hnode' rfl
    exact ⟨body'', hfills.trans hfills', h.current ▸ hnode''⟩

/-- Where no record is filled, no constructors are counted. -/
theorem of_not_inRecord (h : b.Fills b' cs) (hrecord : ¬ b.inRecord = true) : b.Fills b' cs' := by
  refine { h with record := fun _ node body hnode hbody => absurd ?_ hrecord }
  unfold inRecord currentPayload? Graph.payload?
  rw [hnode, Option.map_some, hbody]
  rfl

/-- **Making a node.** -/
theorem add (b : Builder) (node : Node) : b.Fills (b.add node).2 [] := by
  have hadds : b.graph.Adds (b.add node).2.graph node := b.graph.adds_add node
  refine ⟨rfl, rfl, ?_, fun _ _ => rfl, hadds.keeps.tag, fun id hlt _ _ => b.node?_add_of_lt node hlt,
    fun _ node' body hnode hbody => ⟨body, .refl body, ?_⟩⟩
  · exact hadds.size ▸ Nat.le_succ _
  · rw [hadds.other hnode, ← hbody]

/-- Expecting the innermost container. -/
theorem expect (b : Builder) : b.Fills (b.expect b.current) [] :=
  { refl b with fault := fun _ hcurrent => if_pos hcurrent }

/-- Making a node with a value. -/
theorem addTyped (b : Builder) (new : Graph.IsNew node) (o : Observation) :
    b.Fills (b.addTyped node o).2 [] := by
  rw [addTyped_eq new]
  exact add b _

/-- Making a plain node with a value. -/
theorem make (b : Builder) (name : String) (payload : Payload) (o : Observation) :
    b.Fills (b.addTyped (.make name payload) o).2 [] :=
  addTyped b (Graph.isNew_make name payload) o

/-- **Hanging a node up.**

**Proof sketch.** The graph changes at one node, the host. This is the unit for variables and the innermost
container else, which is what the conditions on the two allow. -/
theorem hang (b : Builder) (role : Role) (id : NodeId) :
    b.Fills (b.hang role id) (if role = .constructor then [id] else []) := by
  have hother : ∀ other, other ≠ b.host role →
      (b.hang role id).graph.node? other = b.graph.node? other :=
    fun other hne => Graph.node?_modifyPayload_of_ne hne
  have hself : ∀ node, b.graph.node? (b.host role) = some node →
      (b.hang role id).graph.node? (b.host role) =
        some { node with payload := node.payload.take role id } :=
    fun node hnode => Graph.node?_modifyPayload_self hnode
  refine ⟨rfl, rfl, Nat.le_of_eq (Graph.size_modify ..).symm, fun hunit hcurrent => ?_,
    fun other tag htag => ?_, fun other _ hunit hcurrent => hother other ?_,
    fun hne node body hnode hbody => ?_⟩
  · refine Graph.fault_modify ?_ _
    unfold host
    split
    · exact hunit
    · exact hcurrent
  · by_cases hhost : other = b.host role
    · obtain ⟨node, hnode, rfl⟩ := Graph.exists_node_of_tag? htag
      rw [hhost] at hnode ⊢
      rw [Graph.tag?_eq (hself node hnode)]
      exact congrArg some (Payload.tag_take ..)
    · rwa [Graph.tag?, hother other hhost]
  · unfold host
    split
    · exact hunit
    · exact hcurrent
  · -- Variables go to the unit, all others to the innermost container.
    by_cases hrole : role = .variable
    · subst hrole
      exact ⟨body, .refl body, by rw [hother _ hne, hnode, ← hbody]⟩
    · have hhost : b.host role = b.current := if_neg hrole
      refine ⟨body.take role id, .take role id body, ?_⟩
      rw [← hhost] at hnode ⊢
      rw [hself node hnode, hbody]
      rfl

/-- Putting a declaration into the unit. -/
theorem declareInUnit (b : Builder) (id : NodeId) : b.Fills (b.declareInUnit id) [] := by
  rw [declareInUnit_eq]
  exact hang b .variable id

/-- Putting a statement into the block around it. -/
theorem addStatement (b : Builder) (id : NodeId) : b.Fills (b.addStatement id) [] := by
  rw [addStatement_eq]
  exact hang b .statement id

/-- **Putting a node** into the record around it, or else into the unit. -/
theorem put (b : Builder) (role : Role) (hrole : role ≠ .variable) {f : Payload → Payload}
    (hf : ∀ body, f (.record body) = .record (body.take role id)) :
    b.Fills (if (b.expect b.current).inRecord then (b.expect b.current).modifyCurrent f
        else (b.expect b.current).declareInUnit id)
      (if role = .constructor then [id] else []) := by
  refine (expect b).trans ?_
  split
  · next hrecord =>
    obtain ⟨body, hbody⟩ := exists_record_of_inRecord hrecord
    rw [modifyCurrent_of_record (Graph.tag?_of_payload? hbody) hrole hf]
    exact hang _ role id
  · next hrecord => exact (declareInUnit _ id).of_not_inRecord hrecord

/-- Putting a record or an enumeration into its container. -/
theorem attachNominal (b : Builder) (id : NodeId) : b.Fills (b.attachNominal id) [] :=
  put b .nominal (by decide) fun _ => rfl

/-- Putting a function into its container. -/
theorem attachFunction (b : Builder) (kind : FunctionKind) (id : NodeId) :
    b.Fills (b.attachFunction kind id) (if kind = .constructor then [id] else []) := by
  cases kind with
  | constructor => exact put b .constructor (by decide) fun _ => rfl
  | _ => exact put b .method (by decide) fun _ => rfl

/-- Putting a field into its container. -/
theorem attachField (b : Builder) (id : NodeId) : b.Fills (b.attachField id) [] :=
  put b .field (by decide) fun _ => rfl

/-- Putting a variable into its container. -/
theorem attachVariable (b : Builder) (id : NodeId) : b.Fills (b.attachVariable id) [] := by
  refine (expect b).trans ?_
  unfold Builder.attachVariable
  dsimp only
  split
  · exact (add ..).trans (addStatement ..)
  · exact declareInUnit ..

end Fills

/-! ## What an operation does -/

/-- Everything an operation can do. -/
inductive Performs (b : Builder) : Op → Builder → Prop where
  /-- It opens a new container. -/
  | opens {op : Op} {b' : Builder} {id : NodeId} (opens : op.opens = true)
    (fills : b.Fills b' (b.entered op)) (new : b.graph.size ≤ id) (lt : id < b'.graph.size) :
    Performs b op (b'.push id)
  /-- It opens and closes nothing. -/
  | stays {op : Op} {b' : Builder} (opens : op.opens = false) (ne : op ≠ .leave)
    (fills : b.Fills b' (b.entered op)) : Performs b op b'
  /-- It closes the innermost container, which is not the only one. -/
  | leaves {b' : Builder} {constructors : List NodeId} (opened : 1 < b.containers.length)
    (fills : b.Fills b' constructors) : Performs b .leave b'.pop
  /-- It closes nothing, since no more than one container is open. -/
  | refuses (single : b.containers.length ≤ 1) : Performs b .leave b

/-- What entering a function does. -/
theorem fills_enterFunction (b : Builder) (name : String) (kind : FunctionKind) (returnType : Observation)
    (isStatic : Bool) : ∃ b', b.Fills b' (if kind = .constructor then [b.graph.size] else []) ∧
      b.graph.size < b'.graph.size ∧
      (b.enterFunction name kind returnType isStatic).2 = b'.push b.graph.size := by
  unfold enterFunction
  generalize (if (kind = .constructor && b.inRecord) = true then
    ({ type := .parse b.currentName } : Observation) else returnType) = type
  have hmake := Fills.make b name (.function kind isStatic [] none) type
  have hattach := Fills.attachFunction (b.addTyped (.make name (.function kind isStatic [] none)) type).2
    kind b.graph.size
  refine ⟨_, hmake.trans hattach, Nat.lt_of_lt_of_le ?_ hattach.size, rfl⟩
  rw [addTyped_make]
  exact Nat.lt_of_lt_of_eq (Nat.lt_succ_self _) (Graph.size_add ..).symm

/-- What is put on the stack is taken from it again. -/
theorem pop_push (b : Builder) (id : NodeId) : (b.push id).pop = b := rfl

/-- What closing a container does. -/
theorem performs_leave (b : Builder) : b.Performs .leave b.leave.2 := by
  by_cases hsingle : b.containers.length ≤ 1
  · rw [leave_of_length_le hsingle]
    exact .refuses hsingle
  have hopened := Nat.not_le.mp hsingle
  obtain ⟨c, outer, hcontainers⟩ := List.exists_cons_of_length_pos (Nat.zero_lt_of_lt hopened)
  have houter := ne_nil_of_one_lt hcontainers hopened
  have hexpect := current_of_containers hcontainers ▸ Fills.expect b
  by_cases hcomplete : ∀ body, b.graph.payload? c = some (.record body) → body.constructors ≠ []
  · rw [leave_of_complete hcontainers houter hcomplete]
    exact .leaves hopened hexpect
  · push Not at hcomplete
    obtain ⟨body, hbody, hnone⟩ := hcomplete
    obtain ⟨node, hnode, hpayload⟩ := Graph.exists_node_of_payload? hbody
    obtain ⟨b', hfills, -, heq⟩ := (b.expect c).fills_enterFunction node.name .constructor .unknown false
    rw [leave_of_incomplete hcontainers houter hnode hpayload hnone, heq, pop_push]
    exact .leaves hopened (hexpect.trans hfills)

/-- **Everything an operation can do.**

**Proof sketch.** One case for each operation. It is written as a composition of fillings, and perhaps as
pushing the container that was just made. -/
theorem performs (b : Builder) (op : Op) : b.Performs op (b.perform op) := by
  cases op with
  | enterRecord name sort superTypes =>
    have hself := Fills.add b (newSelf name)
    have hrecord := Fills.add (b.add (newSelf name)).2 (newRecord name sort superTypes b.graph.size)
    have hattach := Fills.attachNominal ((b.add (newSelf name)).2.add
      (newRecord name sort superTypes b.graph.size)).2 ((b.add (newSelf name)).2.graph.size)
    simp only [perform, enterRecord, addRecord_eq]
    refine .opens rfl ((hself.trans hrecord).trans hattach) hself.size (Nat.lt_of_lt_of_le ?_ hattach.size)
    exact Nat.lt_of_lt_of_eq (Nat.lt_succ_self _) (Graph.size_add ..).symm
  | enterEnum name superTypes =>
    have hattach := Fills.attachNominal (b.add (.make name (.enum [] superTypes))).2 b.graph.size
    refine .opens rfl ((Fills.add b _).trans hattach) (Nat.le_refl _) (Nat.lt_of_lt_of_le ?_ hattach.size)
    exact Nat.lt_of_lt_of_eq (Nat.lt_succ_self _) (Graph.size_add ..).symm
  | enterFunction name kind returnType isStatic =>
    obtain ⟨b', hfills, hlt, heq⟩ := b.fills_enterFunction name kind returnType isStatic
    rw [perform, heq]
    refine .opens rfl ?_ (Nat.le_refl _) hlt
    cases kind <;> exact hfills
  | enterBlock =>
    have hhang := Fills.hang (b.add (.make "" (.block []))).2 .block b.graph.size
    rw [perform, enterBlock_eq]
    refine .opens rfl ((Fills.add b _).trans hhang) (Nat.le_refl _) (Nat.lt_of_lt_of_le ?_ hhang.size)
    exact Nat.lt_of_lt_of_eq (Nat.lt_succ_self _) (Graph.size_add ..).symm
  | leave => exact b.performs_leave
  | addEnumConstant name =>
    rw [perform, addEnumConstant_eq]
    exact .stays rfl nofun ((Fills.make b ..).trans (.hang _ .constant _))
  | addField name type modifiers initializer =>
    exact .stays rfl nofun ((Fills.make b name (.field modifiers initializer) type).trans (.attachField ..))
  | addParameter name type variadic =>
    rw [perform, addParameter_eq]
    exact .stays rfl nofun ((Fills.make b ..).trans (.hang _ .parameter _))
  | addStatement id => exact .stays rfl nofun (.addStatement b id)
  | addReturn value =>
    have hadd := Fills.add b (.make "" (.returnStatement value))
    exact .stays rfl nofun (hadd.trans (.addStatement _ b.graph.size))
  | declareVariable name type initializer =>
    exact .stays rfl nofun ((Fills.make b name (.var initializer) type).trans (.attachVariable ..))
  | reference name type => exact .stays rfl nofun (.make b ..)
  | staticReference name type => exact .stays rfl nofun (.make b ..)
  | member base name type memberType =>
    exact .stays rfl nofun ((Fills.make b name (.reference none false) memberType).trans (.make _ ..))
  | call name base arguments type => exact .stays rfl nofun (.make b ..)
  | literal value type =>
    exact .stays rfl nofun (.addTyped b (Graph.isNew_literal value) type)

/-- What every operation keeps is kept in a run of operations. -/
theorem performAll_induction {P : Builder → Prop} (h : P b) (step : ∀ b op, P b → P (b.perform op))
    (ops : List Op) : P (b.performAll ops) := by
  induction ops generalizing b with
  | nil => exact h
  | cons op ops ih => exact ih (step b op h)

/-! ## The stack -/

/-- The stack is in order. -/
structure Stacked (b : Builder) : Prop where
  /-- The unit is at the bottom, and the open containers are there. -/
  founded : b.Founded
  /-- No container is open twice. -/
  nodup : b.containers.Nodup
  /-- The unit is one. -/
  unit : b.graph.tag? b.unit = some .unit

namespace Stacked

/-- The stack is in order at first. -/
theorem start (g : Graph) (name : String) : (start g name).Stacked := by
  obtain ⟨hfounded, -, hunit⟩ := Document.within_start g name
  exact ⟨hfounded, List.nodup_singleton _, Graph.tag?_eq hunit⟩

/-- The stack does not change when the innermost container is filled. -/
theorem fills (h : b.Stacked) (hfills : b.Fills b' cs) : b'.Stacked := by
  refine ⟨⟨?_, fun c hc => ?_⟩, hfills.containers ▸ h.nodup, ?_⟩
  · rw [Rooted, hfills.unit, hfills.containers]
    exact h.founded.rooted
  · exact Nat.lt_of_lt_of_le (h.founded.lt c (hfills.containers ▸ hc)) hfills.size
  · rw [hfills.unit]
    exact hfills.tag _ _ h.unit

/-- A container is put on the stack that was not there. -/
theorem push (h : b.Stacked) (hnew : id ∉ b.containers) (hlt : id < b.graph.size) :
    (b.push id).Stacked := by
  refine ⟨⟨h.founded.rooted.push id, fun c hc => ?_⟩, List.nodup_cons.mpr ⟨hnew, h.nodup⟩, h.unit⟩
  rcases List.mem_cons.mp hc with rfl | hc
  · exact hlt
  · exact h.founded.lt c hc

/-- A container is taken from the stack that is not the only one. -/
theorem pop (h : b.Stacked) (hopened : 1 < b.containers.length) : b.pop.Stacked :=
  ⟨⟨h.founded.rooted.pop hopened, fun c hc => h.founded.lt c (List.mem_of_mem_tail hc)⟩,
    h.nodup.sublist (List.tail_sublist _), h.unit⟩

/-- A new node is not open. -/
theorem not_mem_of_size_le (h : b.Stacked) (hid : b.graph.size ≤ id) : id ∉ b.containers :=
  fun hmem => absurd (h.founded.lt id hmem) (Nat.not_lt.mpr hid)

/-- Where a builder fills its innermost container, a new node is not open. -/
theorem not_mem_fills (h : b.Stacked) (hfills : b.Fills b' cs) (hid : b.graph.size ≤ id) :
    id ∉ b'.containers := by
  rw [hfills.containers]
  exact h.not_mem_of_size_le hid

/-- Filling the innermost container writes to nothing but nodes. -/
theorem fault_fills (h : b.Stacked) (hfills : b.Fills b' cs) : b'.graph.fault = b.graph.fault :=
  hfills.fault h.founded.unit_lt h.founded.current_lt

/-- **The stack stays in order** in an operation, which writes to nothing but nodes. -/
theorem perform (h : b.Stacked) (op : Op) :
    (b.perform op).Stacked ∧ (b.perform op).graph.fault = b.graph.fault := by
  have hstep := b.performs op
  generalize b.perform op = b₁ at hstep ⊢
  cases hstep with
  | @opens _ b' _ _ hfills hnew hlt =>
    have hfault : b'.graph.fault = b.graph.fault := h.fault_fills hfills
    exact ⟨(h.fills hfills).push (h.not_mem_fills hfills hnew) hlt, hfault⟩
  | stays _ _ hfills => exact ⟨h.fills hfills, h.fault_fills hfills⟩
  | @leaves b' _ hopened hfills =>
    have hfault : b'.graph.fault = b.graph.fault := h.fault_fills hfills
    exact ⟨(h.fills hfills).pop (hfills.containers ▸ hopened), hfault⟩
  | refuses => exact ⟨h, rfl⟩

/-- **The stack stays in order** in a run of operations. -/
theorem performAll (h : b.Stacked) (ops : List Op) : (b.performAll ops).Stacked :=
  performAll_induction h (fun _ op hb => (hb.perform op).1) ops

/-- **Only nodes are written to** in a run of operations. -/
theorem fault_performAll (h : b.Stacked) (ops : List Op) :
    (b.performAll ops).graph.fault = b.graph.fault :=
  (performAll_induction (P := fun b' => b'.Stacked ∧ b'.graph.fault = b.graph.fault) ⟨h, rfl⟩
    (fun _ op hb => ⟨(hb.1.perform op).1, (hb.1.perform op).2.trans hb.2⟩) ops).2

end Stacked

/-- The unit is the same all the time. -/
theorem unit_perform (b : Builder) (op : Op) : (b.perform op).unit = b.unit := by
  have hstep := b.performs op
  generalize b.perform op = b₁ at hstep ⊢
  cases hstep with
  | opens _ hfills _ _ => exact hfills.unit
  | stays _ _ hfills => exact hfills.unit
  | leaves _ hfills => exact hfills.unit
  | refuses => rfl

/-- The unit is the same all the time. -/
theorem unit_performAll (b : Builder) (ops : List Op) : (b.performAll ops).unit = b.unit :=
  performAll_induction (P := fun b' => b'.unit = b.unit) rfl (fun b' op h => (b'.unit_perform op).trans h) ops

/-! ## Nodes that are no longer open -/

/-- A node that is not open, while the stack is in order. -/
structure Settled (b : Builder) (id : NodeId) (node : Node) : Prop where
  /-- The stack is in order. -/
  stacked : b.Stacked
  /-- The node. -/
  node : b.graph.node? id = some node
  /-- It is no open container. -/
  closed : id ∉ b.containers

namespace Settled

/-- The node is there. -/
theorem lt_size (h : b.Settled id node) : id < b.graph.size := Graph.lt_size h.node

/-- It is left alone when the innermost container is filled. -/
theorem fills (h : b.Settled id node) (hfills : b.Fills b' cs) : b'.Settled id node := by
  refine ⟨h.stacked.fills hfills, ?_, hfills.containers ▸ h.closed⟩
  rw [hfills.other id h.lt_size (fun heq => h.closed (heq ▸ h.stacked.founded.rooted.unit_mem))
    (fun heq => h.closed (heq ▸ h.stacked.founded.rooted.current_mem)), h.node]

/-- It is left alone when another node is opened. -/
theorem push {c : NodeId} (h : b.Settled id node) (hne : id ≠ c) (hstacked : (b.push c).Stacked) :
    (b.push c).Settled id node :=
  ⟨hstacked, h.node, List.not_mem_cons_of_ne_of_not_mem hne h.closed⟩

/-- It is left alone when a container is closed. -/
theorem pop (h : b.Settled id node) (hopened : 1 < b.containers.length) : b.pop.Settled id node :=
  ⟨h.stacked.pop hopened, h.node, fun hmem => h.closed (List.mem_of_mem_tail hmem)⟩

/-- **What is not open stays as it is** in an operation. -/
theorem perform (h : b.Settled id node) (op : Op) : (b.perform op).Settled id node := by
  have hstacked := (h.stacked.perform op).1
  have hstep := b.performs op
  generalize b.perform op = b₁ at hstep hstacked ⊢
  cases hstep with
  | opens _ hfills hnew _ =>
    exact (h.fills hfills).push (Nat.ne_of_lt (Nat.lt_of_lt_of_le h.lt_size hnew)) hstacked
  | stays _ _ hfills => exact h.fills hfills
  | leaves hopened hfills => exact (h.fills hfills).pop (hfills.containers ▸ hopened)
  | refuses => exact h

/-- **What is not open stays as it is** in a run of operations. -/
theorem performAll (h : b.Settled id node) (ops : List Op) : (b.performAll ops).Settled id node :=
  performAll_induction (P := fun b' => b'.Settled id node) h (fun _ op hb => hb.perform op) ops

end Settled

end Builder

end ProgramGraph
