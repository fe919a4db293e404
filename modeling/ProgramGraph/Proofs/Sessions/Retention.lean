import ProgramGraph.Proofs.Resolution.Effects
import ProgramGraph.Proofs.Sessions.Forest

set_option autoImplicit false

/-!
# What a resolution retains

A resolution leaves the program alone that was written. Names, kinds, marks, source texts and lines
stay, and so does what every node is made of, in order. What it adds comes behind: made-up fields behind
the fields of a record, made-up records behind those of the unit for them, and this unit behind the other
units. Apart from that, usages are pointed at what they mean, and beliefs change.

## Main definitions

* `ProgramGraph.Payload.Amends` — what may become of the payload of a node.
* `ProgramGraph.Node.Retains` — what stays of a node.
* `ProgramGraph.Graph.Retains` — what stays of a graph.
* `ProgramGraph.Resolver.Anchored` — what a resolution must know of its graph to write at the right places.

## Main results

* `ProgramGraph.Resolver.Anchored.writes` — every write retains the graph.
* `ProgramGraph.Resolver.Anchored.does` — so does whatever is done.
* `ProgramGraph.Graph.after_retains` — a resolution after any session.

## Design

A record or a field is made before it is put in its place, and is not new any more when this happens. So
the number from which on nodes count as new is a parameter, as it is where graphs grow.
-/

namespace ProgramGraph

/-! ## What stays -/

/-- A made-up node of a kind that was not there before. -/
def Graph.Brings (n : Nat) (g : Graph) (tag : Tag) (id : NodeId) : Prop :=
  n ≤ id ∧ ∃ node, g.node? id = some node ∧ node.dummy = true ∧ node.tag = tag

/-- What may become of the payload of a node; `unknown` says whether the node is the unit for made-up
declarations. -/
inductive Payload.Amends (n : Nat) (g : Graph) (unknown : Bool) : Payload → Payload → Prop where
  /-- It stays. -/
  | same (payload : Payload) : Amends n g unknown payload payload
  /-- A reference is pointed somewhere. -/
  | target (target target' : Option NodeId) (isStatic : Bool) :
    Amends n g unknown (.reference target isStatic) (.reference target' isStatic)
  /-- An access gets its base and its member. -/
  | access (base base' : NodeId) (member member' : Option NodeId) :
    Amends n g unknown (.memberAccess base member) (.memberAccess base' member')
  /-- A record gets made-up fields behind its own. -/
  | fields {body : RecordBody} {new : List NodeId} (h : ∀ id ∈ new, g.Brings n .field id) :
    Amends n g unknown (.record body) (.record { body with fields := body.fields ++ new })
  /-- The unit for made-up declarations gets made-up records behind its own. -/
  | declarations {declarations new : List NodeId} (hunit : unknown = true)
    (h : ∀ id ∈ new, g.Brings n .record id) :
    Amends n g unknown (.unit declarations) (.unit (declarations ++ new))

/-- What stays of a node: all but its payload and its belief, and there is a belief if there was one. -/
structure Node.Retains (n : Nat) (g : Graph) (node node' : Node) : Prop where
  name : node'.name = node.name
  code : node'.code = node.code
  line : node'.line = node.line
  dummy : node'.dummy = node.dummy
  typed : node'.belief.isSome = node.belief.isSome
  /-- What becomes of the payload. -/
  payload : Payload.Amends n g node.isPlaceholderUnit node.payload node'.payload

/-- What stays of a graph. -/
structure Graph.Retains (n : Nat) (g g' : Graph) : Prop where
  /-- No node is removed. -/
  size : g.size ≤ g'.size
  /-- What stays of the nodes. -/
  nodes : ∀ id node, g.node? id = some node → ∃ node', g'.node? id = some node' ∧ node.Retains n g' node'
  /-- The units stay, and the unit for made-up declarations comes behind them if it was not there. -/
  units : g'.units = g.units ∧ g'.placeholderUnit? = g.placeholderUnit? ∨
    ∃ unit, g.placeholderUnit? = none ∧ g'.placeholderUnit? = some unit ∧ n ≤ unit ∧
      g'.units = g.units ++ [unit]

/-- What is new stays so when a payload changes. -/
theorem Graph.Brings.modifyPayload {n : Nat} {g : Graph} {tag : Tag} {id whole : NodeId}
    {f : Payload → Payload} (h : g.Brings n tag id) (hf : ∀ payload, (f payload).tag = payload.tag) :
    (g.modifyPayload whole f).Brings n tag id := by
  obtain ⟨hle, node, hnode, hdummy, htag⟩ := h
  by_cases hid : id = whole
  · subst hid
    exact ⟨hle, _, Graph.node?_modifyPayload_self hnode, hdummy, (hf node.payload).trans htag⟩
  · exact ⟨hle, node, (Graph.node?_modifyPayload_of_ne hid).trans hnode, hdummy, htag⟩

namespace Payload.Amends

variable {n : Nat} {g g' : Graph} {unknown : Bool} {payload payload' payload'' : Payload}

/-- Kinds stay. -/
theorem tag (h : Amends n g unknown payload payload') : payload'.tag = payload.tag := by
  cases h <;> rfl

/-- **Amending twice.** -/
theorem trans (hbrings : ∀ tag id, g.Brings n tag id → g'.Brings n tag id)
    (h : Amends n g unknown payload payload') (h' : Amends n g' unknown payload' payload'') :
    Amends n g' unknown payload payload'' := by
  have happend : ∀ {tag : Tag} {new new' : List NodeId}, (∀ id ∈ new, g.Brings n tag id) →
      (∀ id ∈ new', g'.Brings n tag id) → ∀ id ∈ new ++ new', g'.Brings n tag id :=
    fun hnew hnew' id hid =>
      (List.mem_append.mp hid).elim (fun hid => hbrings _ id (hnew id hid)) (hnew' id)
  cases h with
  | same => exact h'
  | target =>
    cases h' with
    | same => exact .target _ _ _
    | target => exact .target _ _ _
  | access =>
    cases h' with
    | same => exact .access _ _ _ _
    | access => exact .access _ _ _ _
  | fields h =>
    cases h' with
    | same => exact .fields fun id hid => hbrings _ id (h id hid)
    | fields h' =>
      rw [List.append_assoc]
      exact .fields (happend h h')
  | declarations hunit h =>
    cases h' with
    | same => exact .declarations hunit fun id hid => hbrings _ id (h id hid)
    | declarations _ h' =>
      rw [List.append_assoc]
      exact .declarations hunit (happend h h')

end Payload.Amends

namespace Node.Retains

variable {n : Nat} {g g' : Graph} {node node' node'' : Node}

/-- A node with another belief. -/
theorem of_source (n : Nat) (g : Graph) (h : node'.source = node.source) : node.Retains n g node' := by
  obtain ⟨name, payload, code, line, dummy, belief⟩ := node
  obtain ⟨name', payload', code', line', dummy', belief'⟩ := node'
  simp only [Node.source, Node.mk.injEq] at h
  obtain ⟨rfl, rfl, rfl, rfl, rfl, hbelief⟩ := h
  refine ⟨rfl, rfl, rfl, rfl, ?_, .same _⟩
  have htyped := congrArg Option.isSome hbelief
  rwa [Option.isSome_map, Option.isSome_map] at htyped

/-- Marks and names stay, and with them what the unit for made-up declarations is known by. -/
theorem isPlaceholderUnit (h : node.Retains n g node') : node'.isPlaceholderUnit = node.isPlaceholderUnit := by
  rw [Node.isPlaceholderUnit, h.dummy, h.name, Node.isPlaceholderUnit]

/-- A node retains what it has, step by step, as long as what is brought to it stays. -/
theorem trans (hbrings : ∀ tag id, g.Brings n tag id → g'.Brings n tag id) (h : node.Retains n g node')
    (h' : node'.Retains n g' node'') : node.Retains n g' node'' where
  name := h'.name.trans h.name
  code := h'.code.trans h.code
  line := h'.line.trans h.line
  dummy := h'.dummy.trans h.dummy
  typed := h'.typed.trans h.typed
  payload := h.payload.trans hbrings (h.isPlaceholderUnit ▸ h'.payload)

end Node.Retains

namespace Graph

variable {n : Nat} {g g' g'' : Graph}

/-! ## Growing on -/

/-- The unit for made-up declarations is one of the units, known by its name and its mark. -/
theorem exists_of_placeholderUnit? {unit : NodeId} (h : g.placeholderUnit? = some unit) :
    unit ∈ g.units ∧ ∃ node, g.node? unit = some node ∧ node.isPlaceholderUnit = true := by
  unfold placeholderUnit? at h
  have hfound := List.find?_some h
  exact ⟨List.mem_of_find?_eq_some h, (Option.any_eq_true _ _).mp hfound⟩

/-- It is found as long as the units keep their names and marks. -/
theorem placeholderUnit?_congr (hunits : g'.units = g.units)
    (hnodes : ∀ unit ∈ g.units, ∃ node node', g.node? unit = some node ∧ g'.node? unit = some node' ∧
      node'.isPlaceholderUnit = node.isPlaceholderUnit) : g'.placeholderUnit? = g.placeholderUnit? := by
  have hsame : ∀ unit ∈ g.units, (g'.node? unit).any Node.isPlaceholderUnit =
      (g.node? unit).any Node.isPlaceholderUnit := by
    intro unit hunit
    obtain ⟨node, node', hnode, hnode', hsame⟩ := hnodes unit hunit
    rw [hnode, hnode', Option.any_some, Option.any_some, hsame]
  rw [placeholderUnit?, placeholderUnit?, hunits, ← List.head?_filter, ← List.head?_filter,
    List.filter_congr hsame]

/-- The unit for made-up declarations is a unit. -/
theorem mem_units_placeholderUnit {unit : NodeId} (h : unit ∈ g.placeholderUnit.2.units) :
    unit ∈ g.units ∨ g.placeholderUnit.2.tag? unit = some .unit := by
  cases hfound : g.placeholderUnit? with
  | some found =>
    rw [placeholderUnit_of_some hfound] at h
    exact Or.inl h
  | none =>
    obtain ⟨-, hadds, hnew⟩ := placeholderUnit_of_none hfound
    rw [hnew] at h
    refine (List.mem_append.mp h).imp_right fun hlast => ?_
    rw [List.mem_singleton.mp hlast]
    exact tag?_eq hadds.found

namespace Retains

/-- What was brought stays. -/
theorem brings (h : g.Retains n g') (tag : Tag) (id : NodeId) (hid : g.Brings n tag id) :
    g'.Brings n tag id := by
  obtain ⟨hle, node, hnode, hdummy, htag⟩ := hid
  obtain ⟨node', hnode', hretains⟩ := h.nodes id node hnode
  exact ⟨hle, node', hnode', hretains.dummy.trans hdummy, hretains.payload.tag.trans htag⟩

/-- Kinds stay. -/
theorem tag? (h : g.Retains n g') {id : NodeId} {tag : Tag} (htag : g.tag? id = some tag) :
    g'.tag? id = some tag := by
  obtain ⟨node, hnode, rfl⟩ := exists_node_of_tag? htag
  obtain ⟨node', hnode', hretains⟩ := h.nodes id node hnode
  exact (tag?_eq hnode').trans (congrArg some hretains.payload.tag)

/-- The unit for made-up declarations stays. -/
theorem placeholderUnit? (h : g.Retains n g') {unit : NodeId} (hunit : g.placeholderUnit? = some unit) :
    g'.placeholderUnit? = some unit := by
  rcases h.units with ⟨-, hsame⟩ | ⟨_, hnone, -⟩
  · exact hsame.trans hunit
  · exact absurd (hnone.symm.trans hunit) (by simp)

/-- None is made if no unit is. -/
theorem placeholderUnit?_eq (h : g.Retains n g') (hunits : g'.units = g.units) :
    g'.placeholderUnit? = g.placeholderUnit? := by
  rcases h.units with ⟨-, hsame⟩ | ⟨unit, -, -, -, hnew⟩
  · exact hsame
  · rw [hunits] at hnew
    simp at hnew

/-- A graph in which nothing happens. -/
theorem refl (n : Nat) (g : Graph) : g.Retains n g :=
  ⟨Nat.le_refl _, fun _ node hnode => ⟨node, hnode, .of_source n g rfl⟩, Or.inl ⟨rfl, rfl⟩⟩

/-- **Retaining twice.** The unit for made-up declarations is made at most once. -/
theorem trans (h : g.Retains n g') (h' : g'.Retains n g'') : g.Retains n g'' where
  size := Nat.le_trans h.size h'.size
  nodes id node hnode := by
    obtain ⟨node', hnode', hretains⟩ := h.nodes id node hnode
    obtain ⟨node'', hnode'', hretains'⟩ := h'.nodes id node' hnode'
    exact ⟨node'', hnode'', hretains.trans h'.brings hretains'⟩
  units := by
    rcases h.units with ⟨hunits, hsame⟩ | ⟨unit, hnone, hmade, hle, hunits⟩
    · rcases h'.units with ⟨hunits', hsame'⟩ | ⟨unit, hnone, hmade, hle, hunits'⟩
      · exact Or.inl ⟨hunits'.trans hunits, hsame'.trans hsame⟩
      · exact Or.inr ⟨unit, hsame.symm.trans hnone, hmade, hle, hunits ▸ hunits'⟩
    · rcases h'.units with ⟨hunits', hsame'⟩ | ⟨_, hnone', -⟩
      · exact Or.inr ⟨unit, hnone, hsame'.trans hmade, hle, hunits'.trans hunits⟩
      · exact absurd (hnone'.symm.trans hmade) (by simp)

/-! ## Writes to a graph -/

/-- Nodes are retained and no unit is made. -/
theorem of_nodes (hunits : ∀ unit ∈ g.units, unit < g.size) (hsame : g'.units = g.units)
    (hsize : g.size ≤ g'.size) (hnodes : ∀ id node, g.node? id = some node →
      ∃ node', g'.node? id = some node' ∧ node.Retains n g' node') : g.Retains n g' := by
  refine ⟨hsize, hnodes, Or.inl ⟨hsame, placeholderUnit?_congr hsame fun unit hunit => ?_⟩⟩
  obtain ⟨node, hnode⟩ := exists_node (hunits unit hunit)
  obtain ⟨node', hnode', hretains⟩ := hnodes unit node hnode
  exact ⟨node, node', hnode, hnode', hretains.isPlaceholderUnit⟩

/-- Beliefs change. -/
theorem of_sameSource (hunits : ∀ unit ∈ g.units, unit < g.size) (h : g.SameSource g') :
    g.Retains n g' := by
  refine of_nodes hunits h.units (Nat.le_of_eq h.sameTree.size.symm) fun id node hnode => ?_
  obtain ⟨node', hnode', hsource⟩ := h.exists_node hnode
  exact ⟨node', hnode', .of_source n g' hsource⟩

/-- A node is added that is no unit. -/
theorem of_adds (hunits : ∀ unit ∈ g.units, unit < g.size) {node : Node} (h : g.Adds g' node)
    (hsame : g'.units = g.units) : g.Retains n g' :=
  of_nodes hunits hsame (h.size ▸ Nat.le_succ _) fun _ old hold => ⟨old, h.other hold, .of_source n g' rfl⟩

/-- A payload is amended. -/
theorem of_modifyPayload (hunits : ∀ unit ∈ g.units, unit < g.size) (whole : NodeId)
    {f : Payload → Payload} (h : ∀ node, g.node? whole = some node →
      Payload.Amends n (g.modifyPayload whole f) node.isPlaceholderUnit node.payload (f node.payload)) :
    g.Retains n (g.modifyPayload whole f) := by
  refine of_nodes hunits rfl (Nat.le_of_eq (size_modify ..).symm) fun id node hnode => ?_
  by_cases hid : id = whole
  · subst hid
    exact ⟨_, node?_modifyPayload_self hnode, rfl, rfl, rfl, rfl, rfl, h node hnode⟩
  · exact ⟨node, (node?_modifyPayload_of_ne hid).trans hnode, .of_source n _ rfl⟩

/-- A reference is pointed somewhere. -/
theorem of_setTarget (hunits : ∀ unit ∈ g.units, unit < g.size) (reference : NodeId)
    (target : Option NodeId) : g.Retains n (g.setTarget reference target) :=
  of_modifyPayload hunits reference fun node _ => by
    cases node.payload <;> first | exact .target _ _ _ | exact .same _

/-- An access gets its base and its member. -/
theorem of_setAccess (hunits : ∀ unit ∈ g.units, unit < g.size) (access base : NodeId)
    (member : Option NodeId) : g.Retains n (g.setAccess access base member) :=
  of_modifyPayload hunits access fun node _ => by
    cases node.payload <;> first | exact .access _ _ _ _ | exact .same _

/-- A made-up field is put behind the fields of a record. -/
theorem of_appendField (hunits : ∀ unit ∈ g.units, unit < g.size) (record : NodeId) {field : NodeId}
    (h : g.Brings n .field field) : g.Retains n (g.appendField record field) := by
  refine of_modifyPayload hunits record fun node _ => ?_
  have hnew : (g.appendField record field).Brings n .field field :=
    h.modifyPayload fun payload => by cases payload <;> rfl
  cases node.payload with
  | record body => exact .fields fun id hid => List.mem_singleton.mp hid ▸ hnew
  | _ => exact .same _

/-- A made-up record is put behind those of the unit for them. -/
theorem of_appendDeclaration (hunits : ∀ unit ∈ g.units, unit < g.size) {unit declaration : NodeId}
    (hunit : g.placeholderUnit? = some unit) (h : g.Brings n .record declaration) :
    g.Retains n (g.appendDeclaration unit declaration) := by
  refine of_modifyPayload hunits unit fun node hnode => ?_
  obtain ⟨-, found, hfound, hunknown⟩ := exists_of_placeholderUnit? hunit
  obtain rfl := Option.some.inj (hnode.symm.trans hfound)
  have hnew : (g.appendDeclaration unit declaration).Brings n .record declaration :=
    h.modifyPayload fun payload => by cases payload <;> rfl
  cases node.payload with
  | unit declarations => exact .declarations hunknown fun id hid => List.mem_singleton.mp hid ▸ hnew
  | _ => exact .same _

/-- Units stay nodes. -/
theorem units_lt (h : g.Retains n g') (hunits : ∀ unit ∈ g.units, unit < g.size) :
    ∀ unit ∈ g'.units, unit < g'.size := by
  intro unit hunit
  rcases h.units with ⟨hsame, -⟩ | ⟨made, -, hmade, -, hnew⟩
  · exact Nat.lt_of_lt_of_le (hunits unit (hsame ▸ hunit)) h.size
  · rw [hnew] at hunit
    rcases List.mem_append.mp hunit with hold | hlast
    · exact Nat.lt_of_lt_of_le (hunits unit hold) h.size
    · obtain rfl := List.mem_singleton.mp hlast
      obtain ⟨-, node, hnode, -⟩ := exists_of_placeholderUnit? hmade
      exact lt_size hnode

/-- A node is added with a first observation. -/
theorem of_addTyped (hunits : ∀ unit ∈ g.units, unit < g.size) (node : Node) (o : Observation) :
    g.Retains n (g.addTyped node o).2 := by
  have hadded : g.Retains n (g.add node).2 := of_adds hunits (g.adds_add node) rfl
  exact hadded.trans (of_sameSource (hadded.units_lt hunits) (g.sameSource_addTyped node o))

/-- A record is added with the field that stands for it. -/
theorem of_addRecord (hunits : ∀ unit ∈ g.units, unit < g.size) (name sort : String)
    (superTypes : List Descriptor) (dummy : Bool) :
    g.Retains n (g.addRecord name sort superTypes dummy).2 := by
  have hself : g.Retains n (g.addTyped (.selfField dummy) { type := .parse name }).2 :=
    of_addTyped hunits _ _
  exact hself.trans (of_adds (hself.units_lt hunits) (adds_addRecord name sort superTypes dummy g) rfl)

/-- **The unit for made-up declarations** is found or made.

**Proof sketch.** If there is such a unit, nothing is done. Otherwise one is added at the end, behind units
none of which is for made-up declarations, so that it is the one that is found from then on. -/
theorem of_placeholderUnit (hunits : ∀ unit ∈ g.units, unit < g.size) (hn : n ≤ g.size) :
    g.Retains n g.placeholderUnit.2 ∧
      g.placeholderUnit.2.placeholderUnit? = some g.placeholderUnit.1 := by
  cases hunit : g.placeholderUnit? with
  | some unit =>
    rw [placeholderUnit_of_some hunit]
    exact ⟨.refl n g, hunit⟩
  | none =>
    obtain ⟨hfst, hadds, hnew⟩ := placeholderUnit_of_none hunit
    have hmade : g.placeholderUnit.2.placeholderUnit? = some g.size := by
      have hold :
          g.units.find? (fun id => (g.placeholderUnit.2.node? id).any Node.isPlaceholderUnit) = none := by
        rw [List.find?_eq_none]
        intro other hother
        obtain ⟨node, hnode⟩ := exists_node (hunits other hother)
        rw [hadds.other hnode, ← hnode]
        exact List.find?_eq_none.mp hunit other hother
      rw [Graph.placeholderUnit?, hnew, List.find?_append, hold, Option.none_or, List.find?_singleton,
        hadds.found]
      rfl
    rw [hfst]
    exact ⟨⟨hadds.size ▸ Nat.le_succ _, fun _ old hold => ⟨old, hadds.other hold, .of_source n _ rfl⟩,
      Or.inr ⟨g.size, hunit, hmade, hn, hnew⟩⟩, hmade⟩

/-- **A record is made up** in the unit for made-up declarations. -/
theorem of_makeRecord (hunits : ∀ unit ∈ g.units, unit < g.size) (hn : n ≤ g.size) (name : String)
    {unit : NodeId} (hunit : g.placeholderUnit? = some unit) :
    g.Retains n ((g.addRecord name "unknown" [] true).2.appendDeclaration unit (g.size + 1)) ∧
      ((g.addRecord name "unknown" [] true).2.appendDeclaration unit (g.size + 1)).tag? (g.size + 1) =
        some .record := by
  have hadded : g.Retains n (g.addRecord name "unknown" [] true).2 := of_addRecord hunits ..
  have hbrings : (g.addRecord name "unknown" [] true).2.Brings n .record (g.size + 1) := by
    have hfound := (adds_addRecord name "unknown" [] true g).found
    rw [size_addTyped] at hfound
    exact ⟨Nat.le_succ_of_le hn, _, hfound, rfl, rfl⟩
  have hput := of_appendDeclaration (hadded.units_lt hunits) (hadded.placeholderUnit? hunit) hbrings
  exact ⟨hadded.trans hput, hput.tag? (tag?_of_payload? (payload?_addRecord ..))⟩

/-- **A field is made up** in a record. -/
theorem of_makeField (hunits : ∀ unit ∈ g.units, unit < g.size) (hn : n ≤ g.size) (record : NodeId)
    (name : String) (o : Observation) :
    g.Retains n ((g.addTyped (madeUpField name) o).2.appendField record g.size) := by
  have hadded : g.Retains n (g.addTyped (madeUpField name) o).2 := of_addTyped hunits ..
  have hbrings : (g.addTyped (madeUpField name) o).2.Brings n .field g.size := by
    obtain ⟨node, hnode, hsource⟩ :=
      (g.sameSource_addTyped (madeUpField name) o).exists_node (g.adds_add (madeUpField name)).found
    have hkept := Node.Retains.of_source n g hsource
    exact ⟨hn, node, hnode, hkept.dummy, hkept.payload.tag⟩
  exact hadded.trans (of_appendField (hadded.units_lt hunits) record hbrings)

end Retains

end Graph

/-! ## Whatever a resolution does -/

namespace Resolver

variable {n : Nat} {r r' : Resolver} {vs : List Verdict}

/-- What a resolution must know of its graph to write at the right places. -/
structure Anchored (r : Resolver) : Prop where
  /-- The units are units. -/
  units : ∀ unit ∈ r.graph.units, r.graph.tag? unit = some .unit
  /-- The unit for made-up declarations is the one that would be found. -/
  home : ∀ unit, r.index.placeholderUnit = some unit → r.graph.placeholderUnit? = some unit
  /-- Types are declared by records. -/
  records : ∀ type record, r.index.record? type = some record → r.graph.tag? record = some .record

namespace Anchored

/-- Units are nodes. -/
theorem units_lt (h : r.Anchored) : ∀ unit ∈ r.graph.units, unit < r.graph.size :=
  fun unit hunit => Graph.lt_size_of_tag? (h.units unit hunit)

/-- A resolution stays anchored in a graph that is retained, if what is new is right. -/
theorem retains (h : r.Anchored) (hretains : r.graph.Retains n r'.graph)
    (units : ∀ unit ∈ r'.graph.units, unit ∈ r.graph.units ∨ r'.graph.tag? unit = some .unit)
    (home : ∀ unit, r'.index.placeholderUnit = some unit →
      r.index.placeholderUnit = some unit ∨ r'.graph.placeholderUnit? = some unit)
    (records : ∀ type record, r'.index.record? type = some record →
      r.index.record? type = some record ∨ r'.graph.tag? record = some .record) : r'.Anchored where
  units unit hunit := (units unit hunit).elim (fun hold => hretains.tag? (h.units unit hold)) id
  home unit hunit := (home unit hunit).elim (fun hold => hretains.placeholderUnit? (h.home unit hold)) id
  records type record hrecord := (records type record hrecord).elim
    (fun hold => hretains.tag? (h.records type record hold)) id

/-- It does so in particular if nothing is new that it must know of. -/
theorem keeps (h : r.Anchored) (hretains : r.graph.Retains n r'.graph)
    (units : r'.graph.units = r.graph.units)
    (home : r'.index.placeholderUnit = r.index.placeholderUnit)
    (records : r'.index.records = r.index.records) : r'.Anchored :=
  h.retains hretains (fun _ hunit => Or.inl (units ▸ hunit)) (fun _ hunit => Or.inl (home ▸ hunit))
    fun type record hrecord => Or.inl (by rw [Index.record?, records] at hrecord; exact hrecord)

/-- **Every write** retains the graph.

**Proof sketch.** One case for each kind of write, by the lemma about its graph. Being anchored concerns the
units, the unit for made-up declarations and the records of the index, which only three kinds of writes touch.
-/
theorem writes (h : r.Anchored) (hn : n ≤ r.graph.size) (hwrites : r.Writes r') :
    r.graph.Retains n r'.graph ∧ r'.Anchored := by
  cases hwrites with
  | @beliefs g hsource =>
    have hretains : r.graph.Retains n g := .of_sameSource h.units_lt hsource
    exact ⟨hretains, h.keeps hretains hsource.units rfl rfl⟩
  | remember => exact ⟨.refl n r.graph, h.units, h.home, h.records⟩
  | unit hnone =>
    obtain ⟨hretains, hmade⟩ := Graph.Retains.of_placeholderUnit h.units_lt hn
    refine ⟨hretains, h.retains hretains (fun unit => Graph.mem_units_placeholderUnit)
      (fun unit hunit => Or.inr ?_) fun _ _ => Or.inl⟩
    exact Option.some.inj hunit ▸ hmade
  | @record unit type hunit hnone =>
    rw [makeRecord_eq hunit]
    obtain ⟨hretains, htag⟩ := Graph.Retains.of_makeRecord h.units_lt hn type.name (h.home unit hunit)
    refine ⟨hretains, h.retains hretains (fun other hother => Or.inl ?_) (fun other hother => Or.inl ?_)
      fun other record hrecord => ?_⟩
    · exact r.graph.units_addTyped (.selfField true) { type := .parse type.name } ▸ hother
    · exact hunit.trans hother
    · change (r.index.records.put type _).get? other = _ at hrecord
      rw [Assoc.get?_put] at hrecord
      split at hrecord
      · exact Or.inr (Option.some.inj hrecord ▸ htag)
      · exact Or.inl hrecord
  | @field type record name hrecord _ o =>
    have hretains := Graph.Retains.of_makeField h.units_lt hn record name o
    exact ⟨hretains, h.keeps hretains (r.graph.units_addTyped (Graph.madeUpField name) o) rfl rfl⟩
  | target reference target =>
    have hretains := Graph.Retains.of_setTarget (n := n) h.units_lt reference target
    exact ⟨hretains, h.keeps hretains rfl rfl rfl⟩
  | access access base member =>
    have hretains := Graph.Retains.of_setAccess (n := n) h.units_lt access base member
    exact ⟨hretains, h.keeps hretains rfl rfl rfl⟩

/-- **Whatever is done** retains the graph. -/
theorem does (h : r.Anchored) (hn : n ≤ r.graph.size) (hdoes : r.Does vs r') :
    r.graph.Retains n r'.graph ∧ r'.Anchored := by
  induction hdoes with
  | refl => exact ⟨.refl n r.graph, h⟩
  | write _ now ih =>
    obtain ⟨hretains, hanchored⟩ := ih
    obtain ⟨hretains', hanchored'⟩ := hanchored.writes (Nat.le_trans hn hretains.size) now
    exact ⟨hretains.trans hretains', hanchored'⟩
  | judge _ _ ih => exact ⟨ih.1, ih.2.units, ih.2.home, ih.2.records⟩

end Anchored

/-- A resolution that has not begun is anchored. -/
theorem Run.anchored {g : Graph} {t₀ : ScopeTable} {index : Index} {V₀ V : List NodeId}
    (run : Run g t₀ index V₀ V r) : Anchored ⟨g, index⟩ where
  units unit hunit := run.start.wellFormed.typed.units.tag_eq hunit
  home unit hunit := by
    change index.placeholderUnit = some unit at hunit
    rw [run.indexed.lists.placeholderUnit] at hunit
    exact absurd hunit (by simp)
  records := run.start.records

end Resolver

namespace Graph

/-- **A resolution retains the program.** After any session, resolving the usages changes nothing of what
is there but what references, accesses and beliefs say, and adds nothing but made-up fields and records
in their places and the unit for them.

**Proof sketch.** A run is a list of writes (`Does`). Each write keeps what is retained, since it goes to the
payload or the belief of a usage, or adds a made-up field behind the others, or a made-up record to the unit
for them. To know that these places are the right ones the run must be anchored, and every write keeps that
too; the statement follows by induction on the writes. -/
theorem after_retains (session : List Operation) :
    ∃ g g' index, after session = .ok g ∧ g.resolveUsages = .ok (g', index) ∧ g.Retains g.size g' := by
  obtain ⟨g, hafter, hg⟩ := exists_settled_after session
  obtain ⟨r, t₀, index, V₀, V, hresolve, run⟩ := resolveUsages_ok hg.wellFormed
  obtain ⟨vs, hdoes⟩ := run.runs.does
  exact ⟨g, r.graph, r.index, hafter, hresolve, (run.anchored.does (Nat.le_refl _) hdoes).1⟩

end Graph

end ProgramGraph
