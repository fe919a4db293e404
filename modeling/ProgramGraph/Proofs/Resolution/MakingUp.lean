import ProgramGraph.Proofs.Resolution.Indexing
import ProgramGraph.Proofs.Syntax.Growth

set_option autoImplicit false

/-!
# Making up declarations

Declarations are made up in a growing graph: a unit for them, records in this unit, and fields at
the end of records. The graph stays well formed.

## Main results

* `ProgramGraph.Graph.WellFormed.placeholderUnit` — the unit for made-up declarations.
* `ProgramGraph.Graph.WellFormed.addRecord` — a record with the field that stands for it.
* `ProgramGraph.Graph.WellFormed.makeRecord` — a made-up record in the unit.
* `ProgramGraph.Graph.WellFormed.makeField` — a made-up field at the end of a record.
-/

namespace ProgramGraph.Graph

variable {g g' : Graph} {loose rest : List NodeId} {n : Nat} {id : NodeId}

/-! ## Reading payloads -/

/-- The kind of a node with a known payload. -/
theorem tag?_of_payload? {payload : Payload} (h : g.payload? id = some payload) :
    g.tag? id = some payload.tag := by
  obtain ⟨node, hnode, rfl⟩ := exists_node_of_payload? h
  exact tag?_eq hnode

/-- A record has the contents of a record. -/
theorem exists_record_of_tag? (h : g.tag? id = some .record) :
    ∃ body, g.payload? id = some (.record body) := by
  obtain ⟨node, hnode, htag⟩ := exists_node_of_tag? h
  rw [payload?_eq hnode]
  cases hpayload : node.payload with
  | record body => exact ⟨body, rfl⟩
  | _ => simp [Node.tag, hpayload, Payload.tag] at htag

/-- A unit has declarations. -/
theorem exists_unit_of_tag? (h : g.tag? id = some .unit) :
    ∃ declarations, g.payload? id = some (.unit declarations) := by
  obtain ⟨node, hnode, htag⟩ := exists_node_of_tag? h
  rw [payload?_eq hnode]
  cases hpayload : node.payload with
  | unit declarations => exact ⟨declarations, rfl⟩
  | _ => simp [Node.tag, hpayload, Payload.tag] at htag

/-! ## Loose nodes with a first observation -/

/-- **Creating a node** with a first observation, made of loose nodes. -/
theorem WellFormed.addTyped (wf : g.WellFormed loose) {node : Node} (o : Observation)
    (fits : g.Fits node.name node.payload) (before : loose.Perm (g.partsOf node.payload ++ rest)) :
    (g.addTyped node o).2.WellFormed (g.size :: rest) :=
  (g.sameTree_addTyped node o).wellFormed (wf.add fits before)

/-- There is one node more when a node with a value is added. -/
@[simp] theorem size_addTyped (g : Graph) (node : Node) (o : Observation) :
    (g.addTyped node o).2.size = g.size + 1 := by
  rw [(g.sameTree_addTyped node o).size, size_add]

/-- The payload of the node that was created. -/
theorem payload?_addTyped_self (g : Graph) (node : Node) (o : Observation) :
    (g.addTyped node o).2.payload? g.size = some node.payload := by
  rw [(g.sameTree_addTyped node o).payload?, payload?_eq (g.adds_add node).found]

/-- The name of the node that was created. -/
theorem name?_addTyped_self (g : Graph) (node : Node) (o : Observation) :
    (g.addTyped node o).2.name? g.size = some node.name := by
  rw [(g.sameTree_addTyped node o).name?, name?_eq (g.adds_add node).found]

/-- The payloads of the other nodes. -/
theorem payload?_addTyped_of_ne (node : Node) (o : Observation) (h : id ≠ g.size) :
    (g.addTyped node o).2.payload? id = g.payload? id := by
  rw [(g.sameTree_addTyped node o).payload?, payload?, (g.adds_add node).nodes, if_neg h]
  rfl

/-- What creating a node keeps. -/
theorem keeps_addTyped (g : Graph) (node : Node) (o : Observation) :
    g.Keeps (g.addTyped node o).2 :=
  (g.adds_add node).keeps.trans (g.sameTree_addTyped node o).keeps

/-- A made-up node with a first observation. -/
theorem Grows.addTyped {node : Node} (o : Observation) (hdummy : node.dummy = true)
    (hmade : node.payload.MadeUp n) : g.Grows n (g.addTyped node o).2 :=
  (Grows.of_adds (g.adds_add node) hdummy hmade
    ⟨[], (List.append_nil _).symm, fun _ h => absurd h List.not_mem_nil⟩).trans
      (.of_sameTree n (g.sameTree_addTyped node o))

/-! ## The unit for made-up declarations -/

/-- The node with a number is a made-up unit. -/
def IsMadeUpUnit (g : Graph) (id : NodeId) : Prop :=
  ∃ node, g.node? id = some node ∧ node.tag = .unit ∧ node.dummy = true

/-- Made-up units stay made-up units. -/
theorem Grows.isMadeUpUnit (h : g.Grows n g') (hunit : g.IsMadeUpUnit id) : g'.IsMadeUpUnit id := by
  obtain ⟨node, hnode, htag, hdummy⟩ := hunit
  obtain ⟨node', hnode', -, hdummy', hevolves⟩ := h.nodes id node hnode
  exact ⟨node', hnode', hevolves.tag.trans htag, hdummy'.trans hdummy⟩

/-- A made-up unit has declarations. -/
theorem IsMadeUpUnit.exists_unit (h : g.IsMadeUpUnit id) :
    ∃ node declarations, g.node? id = some node ∧ node.payload = .unit declarations ∧
      node.dummy = true := by
  obtain ⟨node, hnode, htag, hdummy⟩ := h
  cases hpayload : node.payload with
  | unit declarations => exact ⟨node, declarations, hnode, hpayload, hdummy⟩
  | _ => simp [Node.tag, hpayload, Payload.tag] at htag

/-- The unit for made-up declarations, when it is made. -/
def newPlaceholderUnit : Node := { Node.make placeholderUnitName (.unit []) with dummy := true }

/-- Where there is a unit for made-up declarations, it is found. -/
theorem placeholderUnit_of_some {unit : NodeId} (h : g.placeholderUnit? = some unit) :
    g.placeholderUnit = (unit, g) := by
  rw [Graph.placeholderUnit, h]

/-- Where there is none, it is made, and is the last unit. -/
theorem placeholderUnit_of_none (h : g.placeholderUnit? = none) :
    g.placeholderUnit.1 = g.size ∧ g.Adds g.placeholderUnit.2 newPlaceholderUnit ∧
      g.placeholderUnit.2.units = g.units ++ [g.size] := by
  have hmade : g.placeholderUnit = (g.size, (g.addUnit placeholderUnitName).2.modify g.size
      fun node => { node with dummy := true }) := by
    rw [Graph.placeholderUnit, h]
    rfl
  have hlt : g.size < (g.addUnit placeholderUnitName).2.size :=
    Nat.lt_of_lt_of_eq (Nat.lt_succ_self _) (size_add g _).symm
  rw [hmade]
  refine ⟨rfl, ⟨?_, fun id => ?_, rfl, fault_modify hlt _⟩, rfl⟩
  · rw [size_modify]
    exact size_add ..
  · have hadd : (g.addUnit placeholderUnitName).2.node? id =
        if id = g.size then some (.make placeholderUnitName (.unit [])) else g.node? id :=
      node?_add g _ id
    rw [node?_modify, hadd]
    by_cases hid : id = g.size
    · rw [if_pos hid.symm, if_pos hid, if_pos hid]
      rfl
    · rw [if_neg (Ne.symm hid), if_neg hid, if_neg hid]

/-- **The unit for made-up declarations** is found or made.

**Proof sketch.** If there is such a unit, nothing changes. If not, a unit without parts is added, which is a
root. -/
theorem WellFormed.placeholderUnit (wf : g.WellFormed []) (hn : n ≤ g.size) :
    g.placeholderUnit.2.WellFormed [] ∧ g.Grows n g.placeholderUnit.2 ∧
      g.placeholderUnit.2.size ≤ g.size + 1 ∧
        g.placeholderUnit.2.IsMadeUpUnit g.placeholderUnit.1 := by
  cases hunit : g.placeholderUnit? with
  | some unit =>
    rw [placeholderUnit_of_some hunit]
    have hmem : unit ∈ g.units := List.mem_of_find?_eq_some hunit
    unfold Graph.placeholderUnit? at hunit
    have hfound := List.find?_some hunit
    obtain ⟨node, hnode, hplaceholder⟩ := (Option.any_eq_true _ _).mp hfound
    refine ⟨wf, .refl n g, Nat.le_succ _, node, hnode, ?_, ?_⟩
    · have htag := wf.typed.units.tag_eq hmem
      rwa [tag?_eq hnode, Option.some.injEq] at htag
    · simp only [Node.isPlaceholderUnit, Bool.and_eq_true] at hplaceholder
      exact hplaceholder.1
  | none =>
    obtain ⟨hfst, hadds, hunits⟩ := placeholderUnit_of_none hunit
    have hkept : g.placeholderUnit.2.All (· == .unit) g.placeholderUnit.2.units := by
      rw [hunits]
      exact (wf.typed.units.keep hadds.keeps).append (.single (tag?_eq hadds.found) rfl)
    rw [hfst]
    refine ⟨?_, ?_, Nat.le_of_eq hadds.size, _, hadds.found, rfl, rfl⟩
    · refine wf.adds g.units hadds All.nil hkept ?_ ?_
      · rw [List.append_nil]
        exact List.Perm.refl _
      · rw [hunits, List.append_nil]
        exact List.perm_append_comm
    · refine .of_adds hadds rfl (.unit fun _ h => absurd h List.not_mem_nil)
        ⟨[g.size], hunits, fun id hid => ?_⟩
      obtain rfl := List.mem_singleton.mp hid
      exact hn

/-- The unit for made-up declarations is a unit. -/
theorem hung_placeholderUnit (g : Graph) : g.Hung g.placeholderUnit.2 := by
  cases hunit : g.placeholderUnit? with
  | some unit =>
    rw [placeholderUnit_of_some hunit]
    exact .of_size rfl
  | none =>
    obtain ⟨-, hadds, hunits⟩ := placeholderUnit_of_none hunit
    intro id hid hlt
    rw [hadds.size] at hlt
    obtain rfl := Nat.le_antisymm (Nat.lt_succ_iff.mp hlt) hid
    exact Or.inl (hunits ▸ List.mem_append_right _ (List.mem_singleton.mpr rfl))

/-- Payloads stay when the unit for made-up declarations is looked for. -/
theorem payload?_placeholderUnit {payload : Payload} (h : g.payload? id = some payload) :
    g.placeholderUnit.2.payload? id = some payload := by
  cases hunit : g.placeholderUnit? with
  | some unit => rwa [placeholderUnit_of_some hunit]
  | none =>
    obtain ⟨-, hadds, -⟩ := placeholderUnit_of_none hunit
    obtain ⟨node, hnode, rfl⟩ := exists_node_of_payload? h
    exact payload?_eq (hadds.other hnode)

/-! ## Records -/

/-- The contents of a record that was just created. -/
def newRecord (sort : String) (superTypes : List Descriptor) (self : NodeId) : RecordBody :=
  { sort, superTypes, fields := [self], self := some self }

section AddRecord

variable (name sort : String) (superTypes : List Descriptor) (dummy : Bool)

/-- The number of a new record comes behind that of the field that stands for it. -/
theorem fst_addRecord (g : Graph) : (g.addRecord name sort superTypes dummy).1 = g.size + 1 :=
  size_addTyped g _ _

/-- A new record makes two nodes, with the field that stands for it. -/
theorem size_addRecord (g : Graph) :
    (g.addRecord name sort superTypes dummy).2.size = g.size + 2 := by
  have := size_add (g.addTyped (.selfField dummy) { type := .parse name }).2
    { Node.make name (.record (newRecord sort superTypes g.size)) with dummy }
  rw [size_addTyped] at this
  exact this

/-- The record is the node added after the field that stands for it. -/
theorem adds_addRecord (g : Graph) :
    (g.addTyped (.selfField dummy) { type := .parse name }).2.Adds
      (g.addRecord name sort superTypes dummy).2
        { Node.make name (.record (newRecord sort superTypes g.size)) with dummy } :=
  adds_add _ _

/-- **Creating a record** with the field that stands for it. -/
theorem WellFormed.addRecord (wf : g.WellFormed loose) :
    (g.addRecord name sort superTypes dummy).2.WellFormed ((g.size + 1) :: loose) := by
  have hself : (g.addTyped (.selfField dummy) { type := .parse name }).2.WellFormed
      (g.size :: loose) := wf.addTyped _ All.nil (List.Perm.refl _)
  have hsize := size_addTyped g (.selfField dummy) { type := .parse name }
  have htag : (g.addTyped (.selfField dummy) { type := .parse name }).2.tag? g.size = some .field :=
    tag?_of_payload? (payload?_addTyped_self g _ _)
  rw [← hsize]
  refine hself.add ⟨.single htag rfl, All.nil, All.nil, g.size, rfl, rfl, ?_⟩ (List.Perm.refl _)
  exact name?_addTyped_self g _ _

/-- Nodes are still of their kinds when a record is added. -/
theorem keeps_addRecord (g : Graph) : g.Keeps (g.addRecord name sort superTypes dummy).2 :=
  (g.keeps_addTyped _ _).trans (adds_addRecord name sort superTypes dummy g).keeps

/-- The contents of the new record. -/
theorem payload?_addRecord (g : Graph) :
    (g.addRecord name sort superTypes dummy).2.payload? (g.size + 1) =
      some (.record (newRecord sort superTypes g.size)) := by
  have := payload?_eq (adds_addRecord name sort superTypes dummy g).found
  rwa [size_addTyped] at this

/-- The field that stands for the new record. -/
theorem self_addRecord (g : Graph) :
    (g.addRecord name sort superTypes dummy).2.name? g.size = some "this" ∧
      (g.addRecord name sort superTypes dummy).2.tag? g.size = some .field :=
  ⟨(adds_addRecord name sort superTypes dummy g).keeps.name _ _ (name?_addTyped_self g _ _),
    (adds_addRecord name sort superTypes dummy g).keeps.tag _ _
      (tag?_of_payload? (payload?_addTyped_self g _ _))⟩

/-- The payloads of the other nodes. -/
theorem payload?_addRecord_of_lt (h : id < g.size) :
    (g.addRecord name sort superTypes dummy).2.payload? id = g.payload? id := by
  rw [payload?, (adds_addRecord name sort superTypes dummy g).nodes, size_addTyped,
    if_neg (Nat.ne_of_lt (Nat.lt_succ_of_lt h))]
  exact payload?_addTyped_of_ne _ _ (Nat.ne_of_lt h)

end AddRecord

/-- A made-up record. -/
theorem Grows.addRecord (hn : n ≤ g.size) (name : String) :
    g.Grows n (g.addRecord name "unknown" [] true).2 := by
  refine (Grows.addTyped _ rfl .field).trans
    (.of_adds (adds_addRecord name "unknown" [] true g) rfl (.record fun id hid => ?_)
      ⟨[], (List.append_nil _).symm, fun _ h => absurd h List.not_mem_nil⟩)
  obtain rfl := List.mem_singleton.mp hid
  exact hn

/-- What hanging a declaration up in a unit keeps. -/
theorem keeps_appendDeclaration {unit declaration : NodeId} {declarations : List NodeId}
    (hunit : g.payload? unit = some (.unit declarations)) :
    g.Keeps (g.appendDeclaration unit declaration) := by
  obtain ⟨node, hnode, hpayload⟩ := exists_node_of_payload? hunit
  refine keeps_modifyPayload hnode ?_ fun entries superTypes heq => ?_
  · rw [hpayload]
    rfl
  · rw [hpayload] at heq
    exact absurd heq (by simp)

/-- **Hanging a declaration up** in a unit. -/
theorem WellFormed.appendDeclaration {unit declaration : NodeId} {declarations : List NodeId}
    (wf : g.WellFormed (declaration :: rest)) (hunit : g.payload? unit = some (.unit declarations))
    (hdeclaration : g.All Tag.isTopLevel [declaration]) :
    (g.appendDeclaration unit declaration).WellFormed rest := by
  obtain ⟨node, hnode, hpayload⟩ := exists_node_of_payload? hunit
  have hfits := wf.typed.nodes unit node hnode
  rw [hpayload] at hfits
  refine wf.attach hnode (keeps_appendDeclaration hunit) ?_ ?_ <;> rw [hpayload]
  · exact List.Perm.refl _
  · exact All.append hfits hdeclaration

/-- Hanging a made-up declaration up in a made-up unit. -/
theorem Grows.appendDeclaration {unit declaration : NodeId} (hunit : g.IsMadeUpUnit unit)
    (hn : n ≤ declaration) : g.Grows n (g.appendDeclaration unit declaration) := by
  obtain ⟨node, declarations, hnode, hpayload, hdummy⟩ := hunit.exists_unit
  refine .of_modifyPayload hnode (fun _ => hdummy) ?_
  rw [hpayload]
  refine .unit fun id hid => ?_
  obtain rfl := List.mem_singleton.mp hid
  exact hn

/-- Payloads that are no units. -/
theorem payload?_appendDeclaration {unit declaration : NodeId} {payload : Payload}
    (h : g.payload? id = some payload) (hunit : payload.tag ≠ .unit) :
    (g.appendDeclaration unit declaration).payload? id = some payload := by
  obtain ⟨node, hnode, rfl⟩ := exists_node_of_payload? h
  by_cases hid : id = unit
  · subst hid
    rw [appendDeclaration, payload?_eq (node?_modifyPayload_self hnode)]
    cases hpayload : node.payload with
    | unit _ => exact absurd (by rw [hpayload]; rfl) hunit
    | _ => rfl
  · rw [appendDeclaration, payload?_eq ((node?_modifyPayload_of_ne hid).trans hnode)]

/-- **Making up a record** in a made-up unit. -/
theorem WellFormed.makeRecord {unit : NodeId} (wf : g.WellFormed []) (hn : n ≤ g.size)
    (hunit : g.IsMadeUpUnit unit) (name : String) :
    ((g.addRecord name "unknown" [] true).2.appendDeclaration unit (g.size + 1)).WellFormed [] ∧
      g.Grows n ((g.addRecord name "unknown" [] true).2.appendDeclaration unit (g.size + 1)) := by
  have hadded := wf.addRecord name "unknown" [] true
  have hgrows := Grows.addRecord (n := n) hn name
  have hkept := hgrows.isMadeUpUnit hunit
  obtain ⟨node, declarations, hnode, hpayload, -⟩ := hkept.exists_unit
  have hdeclarations := (payload?_eq hnode).trans (congrArg some hpayload)
  have hrecord := tag?_of_payload? (payload?_addRecord name "unknown" [] true g)
  refine ⟨hadded.appendDeclaration hdeclarations (.single hrecord rfl), ?_⟩
  refine hgrows.trans (.appendDeclaration hkept ?_)
  exact Nat.le_succ_of_le hn

section MakeRecord

variable (g : Graph) (unit : NodeId) (name : String)

/-- A record in the unit comes with the field that stands for it. -/
theorem size_makeRecord :
    ((g.addRecord name "unknown" [] true).2.appendDeclaration unit (g.size + 1)).size = g.size + 2 :=
  (size_modify ..).trans (size_addRecord ..)

/-- The contents of the record in the unit. -/
theorem payload?_makeRecord_self :
    ((g.addRecord name "unknown" [] true).2.appendDeclaration unit (g.size + 1)).payload? (g.size + 1) =
      some (.record (newRecord "unknown" [] g.size)) :=
  payload?_appendDeclaration (payload?_addRecord ..) (by simp [Payload.tag])

variable {g} in
/-- The payloads of the other nodes, units apart. -/
theorem payload?_makeRecord {payload : Payload} (hpayload : g.payload? id = some payload)
    (htag : payload.tag ≠ .unit) :
    ((g.addRecord name "unknown" [] true).2.appendDeclaration unit (g.size + 1)).payload? id =
      some payload := by
  refine payload?_appendDeclaration ?_ htag
  rw [payload?_addRecord_of_lt _ _ _ _ (lt_size_of_tag? (tag?_of_payload? hpayload)), hpayload]

variable {g unit} in
/-- The name of the field that stands for the record in the unit. -/
theorem name?_makeRecord_self (hunit : g.IsMadeUpUnit unit) :
    ((g.addRecord name "unknown" [] true).2.appendDeclaration unit (g.size + 1)).name? g.size =
      some "this" := by
  obtain ⟨node, declarations, hnode, hpayload, -⟩ :=
    ((Grows.addRecord (n := 0) (Nat.zero_le _) name).isMadeUpUnit hunit).exists_unit
  have hdeclarations := (payload?_eq hnode).trans (congrArg some hpayload)
  exact (keeps_appendDeclaration hdeclarations).name _ _ (self_addRecord name "unknown" [] true g).1

end MakeRecord

/-- A record that was made up is hung up in the unit, and the field that stands for it in the
record. -/
theorem hung_makeRecord {unit : NodeId} (hunit : g.IsMadeUpUnit unit) (name : String) :
    g.Hung ((g.addRecord name "unknown" [] true).2.appendDeclaration unit (g.size + 1)) := by
  obtain ⟨node, declarations, hnode, hpayload, -⟩ :=
    ((Grows.addRecord (n := 0) (Nat.zero_le _) name).isMadeUpUnit hunit).exists_unit
  intro id hid hlt
  have hsize : id < g.size + 2 := by
    rwa [size_makeRecord] at hlt
  right
  rcases Nat.lt_succ_iff_lt_or_eq.mp hsize with hself | rfl
  · obtain rfl := Nat.le_antisymm (Nat.lt_succ_iff.mp hself) hid
    obtain ⟨record, hrecord, hbody⟩ := exists_node_of_payload? (payload?_makeRecord_self g unit name)
    refine ⟨g.size + 1, ?_⟩
    rw [parts_eq hrecord, hbody]
    simp [partsOf, Payload.parts, newRecord]
  · refine ⟨unit, ?_⟩
    rw [appendDeclaration, parts_eq (node?_modifyPayload_self hnode), hpayload]
    exact List.mem_append_right _ (List.mem_singleton.mpr rfl)

/-! ## Fields -/

/-- A made-up field. -/
def madeUpField (name : String) : Node := { Node.make name (.field [] none) with dummy := true }

/-- The contents of a record after a field was hung up in it. -/
theorem payload?_appendField_self {record field : NodeId} {body : RecordBody}
    (hbody : g.payload? record = some (.record body)) :
    (g.appendField record field).payload? record =
      some (.record { body with fields := body.fields ++ [field] }) := by
  obtain ⟨node, hnode, hpayload⟩ := exists_node_of_payload? hbody
  rw [appendField, payload?_eq (node?_modifyPayload_self hnode), hpayload]

/-- The payloads of the other nodes. -/
theorem payload?_appendField_of_ne {record field : NodeId} (h : id ≠ record) :
    (g.appendField record field).payload? id = g.payload? id := by
  rw [appendField, payload?, node?_modifyPayload_of_ne h, payload?]

/-- What hanging a field up in a record keeps. -/
theorem keeps_appendField {record field : NodeId} {body : RecordBody}
    (hbody : g.payload? record = some (.record body)) :
    g.Keeps (g.appendField record field) := by
  obtain ⟨node, hnode, hpayload⟩ := exists_node_of_payload? hbody
  refine keeps_modifyPayload hnode ?_ fun entries superTypes heq => ?_
  · rw [hpayload]
    rfl
  · rw [hpayload] at heq
    exact absurd heq (by simp)

/-- **Hanging a field up** in a record. -/
theorem WellFormed.appendField {record field : NodeId} {body : RecordBody}
    (wf : g.WellFormed (field :: rest)) (hbody : g.payload? record = some (.record body))
    (hfield : g.tag? field = some .field) : (g.appendField record field).WellFormed rest := by
  obtain ⟨node, hnode, hpayload⟩ := exists_node_of_payload? hbody
  have hfits := wf.typed.nodes record node hnode
  rw [hpayload] at hfits
  obtain ⟨hfields, hfunctions, hrecords, self, hself, hhead, hname⟩ := hfits
  refine wf.attach hnode (keeps_appendField hbody) ?_ ?_ <;> rw [hpayload]
  · simp only [partsOf, Payload.parts, List.append_assoc]
    refine List.Perm.append_left _ ?_
    refine List.Perm.trans List.perm_append_comm ?_
    simp only [List.append_assoc]
    exact List.Perm.refl _
  · refine ⟨hfields.append (.single hfield rfl), hfunctions, hrecords, self, hself, ?_, hname⟩
    rw [List.head?_append, hhead]
    rfl

/-- **Making up a field** at the end of a record. -/
theorem WellFormed.makeField {record : NodeId} {body : RecordBody} (wf : g.WellFormed [])
    (hn : n ≤ g.size) (hbody : g.payload? record = some (.record body)) (name : String)
    (o : Observation) :
    ((g.addTyped (madeUpField name) o).2.appendField record g.size).WellFormed [] ∧
      g.Grows n ((g.addTyped (madeUpField name) o).2.appendField record g.size) := by
  have hadded : (g.addTyped (madeUpField name) o).2.WellFormed (g.size :: []) :=
    wf.addTyped o All.nil (List.Perm.refl _)
  have hlt : record < g.size := lt_size_of_tag? (tag?_of_payload? hbody)
  have hbody' : (g.addTyped (madeUpField name) o).2.payload? record = some (.record body) := by
    rw [payload?_addTyped_of_ne _ _ (Nat.ne_of_lt hlt), hbody]
  have hfield := tag?_of_payload? (payload?_addTyped_self g (madeUpField name) o)
  refine ⟨hadded.appendField hbody' hfield, ?_⟩
  obtain ⟨node, hnode, hpayload⟩ := exists_node_of_payload? hbody'
  have hunit : node.tag = .unit → node.dummy = true := by
    rw [Node.tag, hpayload]
    simp [Payload.tag]
  refine (Grows.addTyped o rfl .field).trans (.of_modifyPayload hnode hunit ?_)
  rw [hpayload]
  refine .record fun id hid => ?_
  obtain rfl := List.mem_singleton.mp hid
  exact hn

/-- The contents of the record after a field was made up. -/
theorem payload?_makeField_self {record : NodeId} {body : RecordBody}
    (hbody : g.payload? record = some (.record body)) (name : String) (o : Observation) :
    ((g.addTyped (madeUpField name) o).2.appendField record g.size).payload? record =
      some (.record { body with fields := body.fields ++ [g.size] }) := by
  have hlt : record < g.size := lt_size_of_tag? (tag?_of_payload? hbody)
  refine payload?_appendField_self ?_
  rw [payload?_addTyped_of_ne _ _ (Nat.ne_of_lt hlt), hbody]

/-- The payloads of the other nodes after a field was made up. -/
theorem payload?_makeField_of_ne {record : NodeId} {payload : Payload}
    (h : g.payload? id = some payload) (hne : id ≠ record) (name : String) (o : Observation) :
    ((g.addTyped (madeUpField name) o).2.appendField record g.size).payload? id = some payload := by
  have hlt : id < g.size := lt_size_of_tag? (tag?_of_payload? h)
  rw [payload?_appendField_of_ne hne, payload?_addTyped_of_ne _ _ (Nat.ne_of_lt hlt), h]

/-- A field that was made up is hung up in its record. -/
theorem hung_makeField {record : NodeId} {body : RecordBody}
    (hbody : g.payload? record = some (.record body)) (name : String) (o : Observation) :
    g.Hung ((g.addTyped (madeUpField name) o).2.appendField record g.size) := by
  intro id hid hlt
  have hsize : id < g.size + 1 := by
    rw [← size_addTyped g (madeUpField name) o]
    exact Nat.lt_of_lt_of_eq hlt (size_modify ..)
  obtain rfl := Nat.le_antisymm (Nat.lt_succ_iff.mp hsize) hid
  obtain ⟨node, hnode, hpayload⟩ := exists_node_of_payload? (payload?_makeField_self hbody name o)
  refine Or.inr ⟨record, ?_⟩
  rw [parts_eq hnode, hpayload]
  simp [partsOf, Payload.parts]

/-- The name and the payload of a field that was made up. -/
theorem made_makeField {record : NodeId} {body : RecordBody}
    (hbody : g.payload? record = some (.record body)) (name : String) (o : Observation) :
    ((g.addTyped (madeUpField name) o).2.appendField record g.size).name? g.size = some name ∧
      ((g.addTyped (madeUpField name) o).2.appendField record g.size).payload? g.size =
        some (.field [] none) := by
  have hlt : record < g.size := lt_size_of_tag? (tag?_of_payload? hbody)
  have hbody' : (g.addTyped (madeUpField name) o).2.payload? record = some (.record body) := by
    rw [payload?_addTyped_of_ne _ _ (Nat.ne_of_lt hlt), hbody]
  refine ⟨(keeps_appendField hbody').name _ _ (name?_addTyped_self g _ o), ?_⟩
  rw [payload?_appendField_of_ne (Nat.ne_of_gt hlt), payload?_addTyped_self]
  rfl

end ProgramGraph.Graph
