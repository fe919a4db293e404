import ProgramGraph.Proofs.Building.Operations

set_option autoImplicit false

/-!
# Implicit constructors

A record that is closed gets an implicit constructor if it has none. In any run of operations, the
constructors of a record are those that were entered while it was the innermost container, as the
operations that open and close containers are nested; if there are none, there is exactly one
constructor in the end, which is named and typed as the record.

## Main definitions

* `ProgramGraph.Builder.Op.depth` — how operations open and close containers inside another.
* `ProgramGraph.Builder.constructorsIn` — the constructors entered directly in a container.
* `ProgramGraph.Builder.IsOpen`, `ProgramGraph.Builder.IsComplete` — a record before and after it is
  closed.
* `ProgramGraph.Builder.Guarded` — a unit that is never taken from the stack,
  `ProgramGraph.Graph.Completed` — a record with the constructors it has in the end.

## Main results

* `ProgramGraph.Builder.IsOpen.perform`, `ProgramGraph.Builder.IsOpen.performAll` — a record stays
  open or is completed.
* `ProgramGraph.Builder.Stacked.containers_finish` — in the end only the unit is left.
* `ProgramGraph.Builder.completes` — every record is complete in the end.
-/

namespace ProgramGraph

/-- The type of a new node is the first type that is observed. -/
theorem Node.type_firstSeen {node : Node} (new : Graph.IsNew node) (typed : node.tag.isTyped = true)
    (o : Observation) : (Graph.firstSeen node o).type = o.known := by
  obtain ⟨belief, hbelief⟩ := Option.isSome_iff_exists.mp (new.typed typed)
  rw [Node.type, Graph.firstSeen, hbelief, new.belief belief hbelief]
  exact Belief.type_observe_empty o

/-- A node is a record with this name, these constructors and this first field, which stands for it. -/
def Node.IsRecord (node : Node) (name : String) (own : NodeId) (constructors : List NodeId) : Prop :=
  node.name = name ∧ ∃ body, node.payload = .record body ∧ body.self = some own ∧
    body.fields.head? = some own ∧ body.constructors = constructors

/-- A record that grows. -/
theorem Node.IsRecord.fills {node : Node} {name : String} {own : NodeId} {cs added : List NodeId}
    (h : node.IsRecord name own cs) {body body' : RecordBody} (hbody : node.payload = .record body)
    (hfills : body.Fills added body') :
    Node.IsRecord { node with payload := .record body' } name own (cs ++ added) := by
  obtain ⟨hname, body₀, hbody₀, hself, hhead, hconstructors⟩ := h
  obtain rfl := Payload.record.inj (hbody₀.symm.trans hbody)
  obtain ⟨more, hmore⟩ := hfills.fields
  refine ⟨hname, body', rfl, hfills.self.trans hself, ?_, ?_⟩
  · rw [← hmore, List.head?_append, hhead]
    rfl
  · rw [hfills.constructors, hconstructors]

namespace Builder

/-! ## Nesting -/

/-- With a number of containers open inside some container, the number after an operation; none if
the operation closes the container itself. -/
def Op.depth : Op → Nat → Option Nat
  | .leave, 0 => none
  | .leave, depth + 1 => some depth
  | op, depth => some (if op.opens then depth + 1 else depth)

/-- The constructors that operations enter while a container is the innermost one, with a number of
containers open inside it at first. -/
def constructorsIn : Builder → Nat → List Op → List NodeId
  | _, _, [] => []
  | b, depth, op :: ops =>
    (if depth = 0 then b.entered op else []) ++
      match op.depth depth with
      | some depth => constructorsIn (b.perform op) depth ops
      | none => []

variable {b b' : Builder} {record own id : NodeId} {name : String} {depth depth' : Nat}
  {cs added entered : List NodeId}

/-- What does not close a container leaves it open. -/
theorem Op.depth_of_ne {op : Op} (h : op ≠ .leave) (depth : Nat) :
    op.depth depth = some (if op.opens then depth + 1 else depth) := by
  cases op with
  | leave => exact absurd rfl h
  | _ => rfl

/-- Closing containers enters no constructor. -/
theorem constructorsIn_replicate_leave (b : Builder) (depth n : Nat) :
    b.constructorsIn depth (List.replicate n .leave) = [] := by
  induction n generalizing b depth with
  | zero => rfl
  | succ n ih =>
    rw [List.replicate_succ, constructorsIn]
    cases depth with
    | zero => rfl
    | succ depth => exact ih ..

/-! ## Open records -/

/-- A record is open, with a number of containers open inside it and with the constructors it got so
far. -/
structure IsOpen (b : Builder) (name : String) (record own : NodeId) (depth : Nat)
    (constructors : List NodeId) : Prop where
  /-- The stack is in order. -/
  stacked : b.Stacked
  /-- Where the record stands on the stack. -/
  position : b.containers[depth]? = some record
  /-- The record. -/
  node : ∃ node, b.graph.node? record = some node ∧ node.IsRecord name own constructors
  /-- The field that stands for it. -/
  field : b.Settled own (newSelf name)

namespace IsOpen

/-- The record is not the unit. -/
theorem ne_unit (h : b.IsOpen name record own depth cs) : record ≠ b.unit := by
  rintro rfl
  obtain ⟨node, hnode, -, body, hbody, -⟩ := h.node
  have htag := h.stacked.unit
  rw [Graph.tag?_eq hnode, Node.tag, hbody] at htag
  cases htag

/-- It is not the only container. -/
theorem opened (h : b.IsOpen name record own depth cs) : 1 < b.containers.length := by
  by_contra hsingle
  have hmem := List.mem_of_getElem? h.position
  rw [h.stacked.founded.rooted.containers_eq (Nat.not_lt.mp hsingle)] at hmem
  exact h.ne_unit (List.mem_singleton.mp hmem)

/-- The record is the innermost container exactly if nothing is open inside it. -/
theorem current_eq_iff (h : b.IsOpen name record own depth cs) : b.current = record ↔ depth = 0 := by
  have hposition := h.position
  have hnodup := h.stacked.nodup
  cases hcontainers : b.containers with
  | nil => simp [hcontainers] at hposition
  | cons c outer =>
    rw [current_of_containers hcontainers]
    rw [hcontainers] at hposition hnodup
    constructor
    · rintro rfl
      exact ((List.getElem?_inj (Nat.zero_lt_succ _) hnodup).mp hposition.symm).symm
    · rintro rfl
      exact Option.some.inj hposition

/-- The record is filled if it is the innermost container. -/
theorem fills (h : b.IsOpen name record own depth cs) (hfills : b.Fills b' added) :
    b'.IsOpen name record own depth (cs ++ if depth = 0 then added else []) := by
  refine ⟨h.stacked.fills hfills, hfills.containers ▸ h.position, ?_, h.field.fills hfills⟩
  obtain ⟨node, hnode, hrecord⟩ := h.node
  by_cases hdepth : depth = 0
  · have hcurrent := h.current_eq_iff.mpr hdepth
    obtain ⟨-, body, hbody, -⟩ := id hrecord
    obtain ⟨body', hbody', hnode'⟩ := hfills.record (hcurrent ▸ h.ne_unit) node body (hcurrent ▸ hnode) hbody
    rw [if_pos hdepth]
    exact ⟨_, hcurrent ▸ hnode', hrecord.fills hbody hbody'⟩
  · have hcurrent := fun heq => hdepth (h.current_eq_iff.mp heq)
    rw [if_neg hdepth, List.append_nil]
    refine ⟨node, ?_, hrecord⟩
    rw [hfills.other record (Graph.lt_size hnode) h.ne_unit (Ne.symm hcurrent), hnode]

/-- Another container is opened inside the record. -/
theorem push (h : b.IsOpen name record own depth cs) (hnew : id ∉ b.containers)
    (hne : own ≠ id) (hlt : id < b.graph.size) :
    (b.push id).IsOpen name record own (depth + 1) cs :=
  ⟨h.stacked.push hnew hlt, h.position, h.node, h.field.push hne (h.stacked.push hnew hlt)⟩

/-- A container inside the record is closed. -/
theorem pop (h : b.IsOpen name record own (depth + 1) cs) : b.pop.IsOpen name record own depth cs := by
  refine ⟨h.stacked.pop h.opened, ?_, h.node, h.field.pop h.opened⟩
  rw [Builder.pop, List.getElem?_tail]
  exact h.position

/-- **A record stays open** in an operation that does not close it, and gets the constructor that is
entered in it. -/
theorem perform (h : b.IsOpen name record own depth cs) {op : Op} (hdepth : op.depth depth = some depth') :
    (b.perform op).IsOpen name record own depth' (cs ++ if depth = 0 then b.entered op else []) := by
  have hstep := b.performs op
  generalize b.perform op = b₁ at hstep ⊢
  cases hstep with
  | opens hopens hfills hnew hlt =>
    rw [Op.depth_of_ne (by rintro rfl; cases hopens), if_pos hopens] at hdepth
    obtain rfl := Option.some.inj hdepth
    exact (h.fills hfills).push (h.stacked.not_mem_fills hfills hnew)
      (Nat.ne_of_lt (Nat.lt_of_lt_of_le h.field.lt_size hnew)) hlt
  | stays hopens hne hfills =>
    rw [Op.depth_of_ne hne, hopens] at hdepth
    obtain rfl := Option.some.inj hdepth
    exact h.fills hfills
  | leaves _ hfills =>
    cases depth with
    | zero => cases hdepth
    | succ depth =>
      obtain rfl := Option.some.inj hdepth
      exact (h.fills hfills).pop
  | refuses hsingle => exact absurd hsingle (Nat.not_le.mpr h.opened)

end IsOpen

/-! ## Complete records -/

/-- A record is closed, with the constructors that were entered in it, or else with the implicit one. -/
def IsComplete (b : Builder) (name : String) (record own : NodeId) (entered : List NodeId) : Prop :=
  ∃ node constructors, b.Settled record node ∧ node.IsRecord name own constructors ∧
    b.Settled own (newSelf name) ∧
    ((entered ≠ [] ∧ constructors = entered) ∨ (entered = [] ∧ ∃ implicit, constructors = [implicit] ∧
      b.Settled implicit (newFunction (some name) name .constructor .unknown false)))

/-- A complete record stays as it is. -/
theorem IsComplete.performAll (h : b.IsComplete name record own entered) (ops : List Op) :
    (b.performAll ops).IsComplete name record own entered := by
  obtain ⟨node, constructors, hnode, hrecord, hself, hconstructors⟩ := h
  refine ⟨node, constructors, hnode.performAll ops, hrecord, hself.performAll ops,
    hconstructors.imp_right fun ⟨hentered, implicit, heq, himplicit⟩ => ?_⟩
  exact ⟨hentered, implicit, heq, himplicit.performAll ops⟩

namespace IsOpen

/-- A record with nothing open inside it is the innermost container. -/
theorem containers_eq (h : b.IsOpen name record own 0 cs) : b.containers = record :: b.pop.containers := by
  refine List.eq_cons_of_mem_head? ?_
  rw [List.head?_eq_getElem?]
  exact h.position

/-- Around it something else is open. -/
theorem pop_ne_nil (h : b.IsOpen name record own 0 cs) : b.pop.containers ≠ [] :=
  ne_nil_of_one_lt h.containers_eq h.opened

/-- It is no longer open when it is taken from the stack. -/
theorem settled_pop (h : b.IsOpen name record own 0 cs) :
    ∃ node, b.pop.Settled record node ∧ node.IsRecord name own cs := by
  obtain ⟨node, hnode, hrecord⟩ := h.node
  have hnodup := h.stacked.nodup
  rw [h.containers_eq] at hnodup
  exact ⟨node, ⟨h.stacked.pop h.opened, hnode, (List.nodup_cons.mp hnodup).1⟩, hrecord⟩

/-- What is declared now is declared in the record. -/
theorem within (h : b.IsOpen name record own 0 cs) : b.Within (some name) := by
  obtain ⟨node, hnode, hname, body, hbody, -⟩ := h.node
  have hcurrent := h.current_eq_iff.mpr rfl
  refine .record ?_ ?_
  · rw [hcurrent, Graph.tag?_eq hnode, Node.tag, hbody]
    rfl
  · rw [hcurrent, Graph.name?_eq hnode, hname]

/-- **The implicit constructor.** A record without constructors is entered once more when it is closed,
so that the constructor is made as one of that record. -/
theorem leave_of_nil (h : b.IsOpen name record own 0 []) :
    ∃ b' : Builder, b.leave.2 = b'.pop ∧ b'.IsOpen name record own 0 [b.graph.size] ∧
      b'.Settled b.graph.size (newFunction (some name) name .constructor .unknown false) := by
  obtain ⟨node, hnode, hname, body, hbody, -, -, hconstructors⟩ := h.node
  obtain ⟨b', hfills, -, heq⟩ := b.fills_enterFunction name .constructor .unknown false
  have hexpect : b.expect record = b := expect_eq_self (Graph.lt_size hnode)
  refine ⟨b', ?_, h.fills hfills, h.stacked.fills hfills, ?_,
    h.stacked.not_mem_fills hfills (Nat.le_refl _)⟩
  · rw [leave_of_incomplete h.containers_eq h.pop_ne_nil hnode hbody hconstructors, hname, hexpect, heq,
      pop_push]
  · have hfound := b.node?_enter_self (newFunction (some name) name .constructor .unknown false)
      h.stacked.founded
    rw [← enterFunction_eq h.within h.stacked.founded, heq] at hfound
    exact hfound

/-- A record with constructors is closed as it is. -/
theorem leave_of_ne_nil (h : b.IsOpen name record own 0 cs) (hcs : cs ≠ []) : b.leave.2 = b.pop := by
  obtain ⟨node, hnode, -, body, hbody, -, -, rfl⟩ := h.node
  have hexpect : b.expect record = b := expect_eq_self (Graph.lt_size hnode)
  rw [leave_of_complete h.containers_eq h.pop_ne_nil, hexpect]
  intro body' hbody'
  rw [Graph.payload?_eq hnode, hbody] at hbody'
  obtain rfl := Payload.record.inj (Option.some.inj hbody')
  exact hcs

/-- **A record is completed** when it is closed. -/
theorem leave (h : b.IsOpen name record own 0 cs) : b.leave.2.IsComplete name record own cs := by
  by_cases hcs : cs = []
  · subst hcs
    obtain ⟨b', hleave, hopen, himplicit⟩ := h.leave_of_nil
    obtain ⟨node, hnode, hrecord⟩ := hopen.settled_pop
    rw [hleave]
    exact ⟨node, _, hnode, hrecord, hopen.field.pop hopen.opened,
      .inr ⟨rfl, _, rfl, himplicit.pop hopen.opened⟩⟩
  · obtain ⟨node, hnode, hrecord⟩ := h.settled_pop
    rw [h.leave_of_ne_nil hcs]
    exact ⟨node, cs, hnode, hrecord, h.field.pop h.opened, .inl ⟨hcs, rfl⟩⟩

/-- **A record stays open or is completed** in a run of operations, with the constructors that are
entered in it. -/
theorem performAll (h : b.IsOpen name record own depth cs) (ops : List Op) :
    (∃ depth', (b.performAll ops).IsOpen name record own depth' (cs ++ b.constructorsIn depth ops)) ∨
      (b.performAll ops).IsComplete name record own (cs ++ b.constructorsIn depth ops) := by
  induction ops generalizing b depth cs with
  | nil =>
    rw [constructorsIn, List.append_nil]
    exact .inl ⟨depth, h⟩
  | cons op ops ih =>
    rw [constructorsIn, ← List.append_assoc]
    cases hdepth : op.depth depth with
    | some depth' => exact ih (h.perform hdepth)
    | none =>
      -- Only leaving the record itself closes it.
      obtain ⟨rfl, rfl⟩ : op = .leave ∧ depth = 0 := by
        by_cases hop : op = .leave
        · subst hop
          cases depth with
          | zero => exact ⟨rfl, rfl⟩
          | succ depth => cases hdepth
        · rw [Op.depth_of_ne hop] at hdepth
          cases hdepth
      refine .inr ?_
      rw [if_pos rfl, show b.entered .leave = [] from rfl, List.append_nil, List.append_nil]
      exact h.leave.performAll ops

end IsOpen

/-! ## The end -/

/-- Closing containers one after the other. -/
theorem leaveAll_eq (b : Builder) (n : Nat) : leaveAll n b = b.performAll (List.replicate n .leave) := by
  induction n generalizing b with
  | zero => rfl
  | succ n ih => exact (b.leaveAll_succ n).trans (ih b.leave.2)

/-- The end closes as many containers as are open. -/
theorem finish_eq (b : Builder) : b.finish = b.performAll (List.replicate b.containers.length .leave) :=
  b.leaveAll_eq _

/-- Closing a container that is not the only one takes it from the stack. -/
theorem containers_leave (hopened : 1 < b.containers.length) :
    b.leave.2.containers = b.containers.tail := by
  have hstep := b.performs_leave
  generalize b.leave.2 = b₁ at hstep ⊢
  cases hstep with
  | opens hopens => cases hopens
  | stays _ hne => exact absurd rfl hne
  | leaves _ hfills => exact congrArg List.tail hfills.containers
  | refuses hsingle => exact absurd hsingle (Nat.not_le.mpr hopened)

/-- In the end no more than one container is left. -/
theorem length_finish_le (b : Builder) : b.finish.containers.length ≤ 1 := by
  have hall : ∀ n, ∀ b : Builder, b.containers.length ≤ n + 1 → (leaveAll n b).containers.length ≤ 1 := by
    intro n
    induction n with
    | zero => exact fun b hlength => hlength
    | succ n ih =>
      intro b hlength
      by_cases hsingle : b.containers.length ≤ 1
      · rwa [leaveAll_of_length_le hsingle]
      · rw [leaveAll_succ]
        refine ih _ ?_
        rw [containers_leave (Nat.not_le.mp hsingle), List.length_tail]
        exact Nat.sub_le_of_le_add hlength
  exact hall _ b (Nat.le_succ _)

/-- **In the end only the unit is left.** -/
theorem Stacked.containers_finish (h : b.Stacked) : b.finish.containers = [b.unit] := by
  have hend := h.performAll (List.replicate b.containers.length .leave)
  rw [← finish_eq] at hend
  have hunit : b.finish.unit = b.unit := by rw [finish_eq, unit_performAll]
  rw [hend.founded.rooted.containers_eq b.length_finish_le, hunit]

/-- A record that was just opened. -/
theorem isOpen_enterRecord (h : b.Stacked) (name sort : String) (superTypes : List Descriptor) :
    (b.enterRecord name sort superTypes).2.IsOpen name (b.enterRecord name sort superTypes).1 b.graph.size 0
      [] := by
  have hstacked := (h.perform (.enterRecord name sort superTypes)).1
  have hadd := h.fills (Fills.add b (newSelf name))
  have hrecord : ((b.add (newSelf name)).2.add (newRecord name sort superTypes b.graph.size)).2.Settled
      (b.add (newSelf name)).2.graph.size (newRecord name sort superTypes b.graph.size) :=
    ⟨hadd.fills (Fills.add ..), node?_add_self .., h.not_mem_of_size_le (Fills.add b (newSelf name)).size⟩
  have hfield : (b.add (newSelf name)).2.Settled b.graph.size (newSelf name) :=
    ⟨hadd, node?_add_self .., h.not_mem_of_size_le (Nat.le_refl _)⟩
  have hfield' := hfield.fills (Fills.add _ (newRecord name sort superTypes b.graph.size))
  have hattach := Fills.attachNominal
    ((b.add (newSelf name)).2.add (newRecord name sort superTypes b.graph.size)).2
    (b.add (newSelf name)).2.graph.size
  simp only [perform, enterRecord, addRecord_eq] at hstacked ⊢
  refine ⟨hstacked, rfl, ⟨_, (hrecord.fills hattach).node, rfl, _, rfl, rfl, rfl, rfl⟩, ?_⟩
  exact (hfield'.fills hattach).push (Nat.ne_of_lt hfield.lt_size) hstacked

/-- A complete record is so in the end. -/
theorem IsComplete.finish (h : b.IsComplete name record own entered) :
    b.finish.IsComplete name record own entered := by
  rw [finish_eq]
  exact h.performAll _

/-- **An open record is complete in the end.** -/
theorem IsOpen.finish (h : b.IsOpen name record own depth cs) : b.finish.IsComplete name record own cs := by
  have hrun := h.performAll (List.replicate b.containers.length .leave)
  rw [constructorsIn_replicate_leave, List.append_nil, ← finish_eq] at hrun
  refine hrun.resolve_left ?_
  rintro ⟨depth', hopen⟩
  exact absurd b.length_finish_le (Nat.not_le.mpr hopen.opened)

/-- A record that is opened is complete in the end, whatever is done in between. -/
theorem Stacked.isComplete_finish (h : b.Stacked) (name sort : String) (superTypes : List Descriptor)
    (ops : List Op) :
    ((b.enterRecord name sort superTypes).2.performAll ops).finish.IsComplete name
      (b.enterRecord name sort superTypes).1 b.graph.size
      ((b.enterRecord name sort superTypes).2.constructorsIn 0 ops) := by
  rcases (isOpen_enterRecord h name sort superTypes).performAll ops with ⟨depth, hopen⟩ | hcomplete
  · exact hopen.finish
  · exact hcomplete.finish

/-- The first type of the field that stands for a record. -/
theorem type_newSelf (name : String) : (newSelf name).type = Observation.known { type := .parse name } := by
  have hplain := Graph.isNew_make "this" (.field [] none)
  exact Node.type_firstSeen ⟨rfl, hplain.belief, hplain.typed⟩ rfl _

/-- An implicit constructor is typed as the record. -/
theorem type_implicit (name : String) :
    (newFunction (some name) name .constructor .unknown false).type = (newSelf name).type := by
  rw [type_newSelf]
  exact Node.type_firstSeen (Graph.isNew_make ..) rfl _

/-! ## Main results -/

/-- The stack of a builder whose unit was added behind the nodes of a graph: the unit is guarded at the
bottom of the stack. -/
structure Guarded (g : Graph) (b : Builder) : Prop where
  /-- The unit is at the bottom. -/
  bottom : b.containers.getLast? = some g.size
  /-- It is a unit. -/
  unit : b.graph.tag? g.size = some .unit
  /-- No container is open twice. -/
  nodup : b.containers.Nodup
  /-- The open containers are there. -/
  lt : ∀ id ∈ b.containers, id < b.graph.size
  /-- Nothing is closed exactly if only the unit is open. -/
  refuses : b.leave.1 = none ↔ b.containers = [g.size]
  /-- In that case everything stays as it is. -/
  stays : b.containers = [g.size] → b.leave.2 = b
  /-- Otherwise the innermost container is closed, and those around it are still open. -/
  closes : ∀ id outer, b.containers = id :: outer → outer ≠ [] →
    b.leave.1 = some id ∧ b.leave.2.containers = outer
  /-- In the end only the unit is left. -/
  finish : b.finish.containers = [g.size]
  /-- Nothing but nodes was written to, -/
  fault : b.graph.fault = g.fault
  /-- nor is it in the end. -/
  fault_finish : b.finish.graph.fault = g.fault

/-- Where the stack is in order, the unit is guarded. -/
theorem Stacked.guarded {g : Graph} (h : b.Stacked) (hunit : b.unit = g.size)
    (hfault : b.graph.fault = g.fault) : b.Guarded g := by
  have hrooted := h.founded.rooted
  refine ⟨hunit ▸ hrooted, hunit ▸ h.unit, h.nodup, h.founded.lt, ?_, fun hsingle => ?_,
    fun id outer hcontainers houter => ?_, hunit ▸ h.containers_finish, hfault, ?_⟩
  · by_cases hsingle : b.containers.length ≤ 1
    · rw [leave_of_length_le hsingle, hrooted.containers_eq hsingle, hunit]
      exact iff_of_true rfl rfl
    · have hopened := Nat.not_le.mp hsingle
      obtain ⟨id, outer, hcontainers⟩ := List.exists_cons_of_length_pos (Nat.zero_lt_of_lt hopened)
      rw [leave_eq hcontainers (ne_nil_of_one_lt hcontainers hopened)]
      refine iff_of_false nofun fun hunits => hsingle ?_
      exact Nat.le_of_eq (congrArg List.length hunits)
  · rw [leave_of_length_le (Nat.le_of_eq (congrArg List.length hsingle))]
  · have hopened : 1 < b.containers.length := by
      rw [hcontainers]
      exact Nat.succ_lt_succ (List.length_pos_iff.mpr houter)
    rw [containers_leave hopened, leave_eq hcontainers houter, hcontainers]
    exact ⟨rfl, rfl⟩
  · rw [finish_eq, h.fault_performAll]
    exact hfault

end Builder

/-- A record in a graph, with a body and a field that stands for it, where some constructors were entered
directly in it. -/
structure Graph.Completed (g : Graph) (id : NodeId) (name : String) (entered : List NodeId)
    (body : RecordBody) (field : Node) : Prop where
  /-- The record has its name, -/
  named : g.name? id = some name
  /-- and its body. -/
  payload : g.payload? id = some (.record body)
  /-- Its first field is the one that stands for it. -/
  self : ∃ own, body.self = some own ∧ body.fields.head? = some own ∧ g.node? own = some field
  /-- That field is named so, -/
  self_named : field.name = "this"
  /-- and has the type that the name of the record spells. -/
  self_typed : field.type = Observation.known { type := .parse name }
  /-- There is a constructor. -/
  constructors : body.constructors ≠ []
  /-- If constructors were entered, these are all. -/
  complete : entered ≠ [] → body.constructors = entered
  /-- If none was, there is a single one, the implicit constructor: it is named and typed as the record,
  and has neither parameters nor a body. -/
  implicit : entered = [] → ∃ constructor node, body.constructors = [constructor] ∧
    g.node? constructor = some node ∧ node.name = name ∧
    node.payload = .function .constructor false [] none ∧ node.type = field.type

namespace Builder

variable {b : Builder} {record own : NodeId} {name : String} {entered : List NodeId}

/-- A complete record as it is seen in the graph. -/
theorem IsComplete.completed (h : b.IsComplete name record own entered) :
    ∃ body, b.graph.Completed record name entered body (newSelf name) := by
  obtain ⟨node, constructors, hnode, ⟨hname, body, hbody, hown, hhead, rfl⟩, hfield, hcases⟩ := h
  have hnamed : b.graph.name? record = some name := by rw [Graph.name?_eq hnode.node, hname]
  have hpayload : b.graph.payload? record = some (.record body) := by
    rw [Graph.payload?_eq hnode.node, hbody]
  have hself : ∃ own, body.self = some own ∧ body.fields.head? = some own ∧
      b.graph.node? own = some (newSelf name) := ⟨own, hown, hhead, hfield.node⟩
  rcases hcases with ⟨hne, heq⟩ | ⟨hnone, implicit, heq, himplicit⟩
  · exact ⟨body, hnamed, hpayload, hself, rfl, type_newSelf name, heq ▸ hne, fun _ => heq,
      fun hnone => absurd hnone hne⟩
  · exact ⟨body, hnamed, hpayload, hself, rfl, type_newSelf name, heq ▸ List.cons_ne_nil _ _,
      fun hne => absurd hnone hne,
      fun _ => ⟨implicit, _, heq, himplicit.node, rfl, rfl, type_implicit name⟩⟩

/-- **Implicit constructors.** For every run of operations on a new unit, in any order and nesting, the
unit stays at the bottom of the stack, closing containers never takes it from there, and in the end only
the unit is left. Then every record that was opened has constructors: those that were entered while it was
the innermost container, and if there are none, exactly one, which is named and typed as the record. Its
first field is the one that stands for it.

**Proof sketch.** All that an operation does is to fill the innermost container, and then perhaps to push a
new container or to pop the innermost one. So the stack stays in order, and the operations after a record was
opened leave it open at some depth, until one closes it at depth zero. Meanwhile it takes up just the
constructors that are entered at depth zero. When it is closed, it is completed, and from then on it is not
open any more, so that nothing changes it. What is left open is closed in the end. -/
theorem completes (g : Graph) (unitName : String) :
    (∀ ops, ((start g unitName).performAll ops).Guarded g) ∧
    ∀ before after name sort superTypes,
      let opened := ((start g unitName).performAll before).enterRecord name sort superTypes
      ∃ body field, (opened.2.performAll after).finish.graph.Completed opened.1 name
        (opened.2.constructorsIn 0 after) body field := by
  have hstart := Stacked.start g unitName
  refine ⟨fun ops => ?_, fun before after name sort superTypes => ?_⟩
  · exact (hstart.performAll ops).guarded (unit_performAll _ ops) (hstart.fault_performAll ops)
  · have hcomplete := (hstart.performAll before).isComplete_finish name sort superTypes after
    obtain ⟨body, hbody⟩ := hcomplete.completed
    exact ⟨body, _, hbody⟩

end Builder

end ProgramGraph
