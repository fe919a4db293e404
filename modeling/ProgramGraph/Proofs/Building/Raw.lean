import ProgramGraph.Proofs.Resolution.FirstObservations

set_option autoImplicit false

/-!
# Raw graphs

A graph that was built and not resolved yet is raw: nothing in it is made up, no reference means
anything, the members of all accesses are references, and nobody listens to anything. While it is
built, everything hangs on a unit or on a loose node. The same holds of what is built on top of any
other graph, whose own nodes stay as they are.

## Main definitions

* `ProgramGraph.Graph.RawFrom` — the nodes from a number on are raw; if all are, the graph is
  `ProgramGraph.Graph.Raw`.
* `ProgramGraph.Graph.Hangs` — a node is a root or hangs below one.
* `ProgramGraph.Graph.BuildsOn` — a graph under construction on top of another one; on top of
  nothing it is `ProgramGraph.Graph.Sprouting`.

## Main results

* `ProgramGraph.Graph.Raw.selvesBegan` — the fields that stand for records.
* `ProgramGraph.Graph.BuildsOn.adds`, `ProgramGraph.Graph.BuildsOn.attach` — the steps.
* `ProgramGraph.Graph.Sprouting.stands` — in the end everything stands somewhere.
-/

namespace ProgramGraph

/-! ## Raw nodes -/

/-- The payload of a node of a name that was not resolved yet. The type that the name of a record
spells was observed on the field that stands for it. -/
def Payload.IsRaw (g : Graph) (name : String) : Payload → Prop
  | .reference target _ => target = none
  | .memberAccess _ member => ∃ stub, member = some stub ∧ g.tag? stub = some .reference
  | .record body => ∀ self, body.self = some self →
    g.belief? self = some (({} : Belief).observe { type := .parse name })
  | _ => True

namespace Graph

variable {g g' g₀ : Graph} {loose rest : List NodeId} {id whole : NodeId} {n : Nat}

/-- Nothing is made up and nothing is resolved. -/
structure Raw (g : Graph) : Prop where
  /-- Nothing is made up. -/
  dummy : ∀ id node, g.node? id = some node → node.dummy = false
  /-- Nothing is resolved. -/
  payload : ∀ id node, g.node? id = some node → node.payload.IsRaw g node.name
  /-- Beliefs stem from one observation. -/
  belief : ∀ id b, g.belief? id = some b → b.IsRaw

/-- None of the nodes from a number on is made up or resolved. -/
structure RawFrom (n : Nat) (g : Graph) : Prop where
  /-- Nothing is made up. -/
  dummy : ∀ id node, n ≤ id → g.node? id = some node → node.dummy = false
  /-- Nothing is resolved. -/
  payload : ∀ id node, n ≤ id → g.node? id = some node → node.payload.IsRaw g node.name
  /-- Beliefs stem from one observation. -/
  belief : ∀ id b, n ≤ id → g.belief? id = some b → b.IsRaw
  /-- Whatever carries a value has a belief. -/
  typed : ∀ id node, n ≤ id → g.node? id = some node → node.tag.isTyped = true →
    node.belief.isSome = true

/-- A graph is raw if all its nodes are. -/
theorem RawFrom.raw (h : RawFrom 0 g) : g.Raw :=
  ⟨fun id node => h.dummy id node (Nat.zero_le id), fun id node => h.payload id node (Nat.zero_le id),
    fun id b => h.belief id b (Nat.zero_le id)⟩

/-- What is not resolved stays so where kinds and beliefs stay. -/
theorem isRaw_keep {payload : Payload} {name : String} (h : payload.IsRaw g name) (keeps : g.Keeps g')
    (beliefs : ∀ id b, g.belief? id = some b → g'.belief? id = some b) : payload.IsRaw g' name := by
  cases payload with
  | memberAccess _ _ =>
    obtain ⟨stub, hstub, htag⟩ := h
    exact ⟨stub, hstub, keeps.tag _ _ htag⟩
  | record body => exact fun self hself => beliefs self _ (h self hself)
  | _ => exact h

/-- A node that was not resolved. -/
structure IsFresh (g : Graph) (node : Node) : Prop where
  /-- It is not made up. -/
  dummy : node.dummy = false
  /-- It is not resolved. -/
  payload : node.payload.IsRaw g node.name
  /-- Its belief stems from one observation. -/
  belief : ∀ b, node.belief = some b → b.IsRaw
  /-- It has a belief if it carries a value. -/
  typed : node.tag.isTyped = true → node.belief.isSome = true

/-- A fresh node is so where kinds and beliefs stay. -/
theorem IsFresh.keep {node : Node} (h : g.IsFresh node) (keeps : g.Keeps g')
    (beliefs : ∀ id b, g.belief? id = some b → g'.belief? id = some b) : g'.IsFresh node :=
  ⟨h.dummy, isRaw_keep h.payload keeps beliefs, h.belief, h.typed⟩

/-- Each of the raw nodes is fresh. -/
theorem RawFrom.isFresh (h : RawFrom n g) {node : Node} (hid : n ≤ id) (hnode : g.node? id = some node) :
    g.IsFresh node := by
  refine ⟨h.dummy id node hid hnode, h.payload id node hid hnode, fun b hb => h.belief id b hid ?_,
    h.typed id node hid hnode⟩
  rw [belief?, hnode, Option.bind_some, hb]

/-- **Fresh nodes are raw,** from a number on. -/
theorem RawFrom.of_isFresh (h : ∀ id node, n ≤ id → g.node? id = some node → g.IsFresh node) :
    RawFrom n g := by
  refine ⟨fun id node hid hnode => (h id node hid hnode).dummy,
    fun id node hid hnode => (h id node hid hnode).payload, fun id b hid hb => ?_,
    fun id node hid hnode => (h id node hid hnode).typed⟩
  obtain ⟨node, hnode, hbelief⟩ := Option.bind_eq_some_iff.mp hb
  exact (h id node hid hnode).belief b hbelief

/-- Nobody listens in a raw graph. -/
theorem Raw.confined (h : g.Raw) (D : NodeId → Prop) : g.Confined D := by
  intro id b hb l hl
  rw [(h.belief id b hb).listeners] at hl
  exact absurd hl List.not_mem_nil

/-- **The fields that stand for records** of a raw graph began with the types of these. -/
theorem Raw.selvesBegan (h : g.Raw) : g.SelvesBegan := by
  intro record name self hname hself
  obtain ⟨node, hnode, rfl⟩ := exists_node_of_name? hname
  have hraw := h.payload record node hnode
  rw [selfOf, payload?_eq hnode] at hself
  generalize node.payload = payload at hraw hself
  cases payload with
  | record body => exact ⟨_, hraw self hself, Belief.began_observe { type := .parse node.name }⟩
  | _ => exact absurd hself (by simp)

/-! ## Everything hangs somewhere -/

/-- A node is a root or hangs below one. -/
inductive Hangs (g : Graph) (loose : List NodeId) : NodeId → Prop where
  /-- A root. -/
  | root {id : NodeId} (h : id ∈ g.units ++ loose) : Hangs g loose id
  /-- A part of something that hangs somewhere. -/
  | part {id part : NodeId} (above : Hangs g loose id) (h : part ∈ g.parts id) : Hangs g loose part

/-- What hangs somewhere does so in another graph if the roots do and the parts stay. -/
theorem Hangs.mono {loose' : List NodeId} (h : g.Hangs loose id)
    (roots : ∀ root ∈ g.units ++ loose, g'.Hangs loose' root)
    (parts : ∀ whole, ∀ part ∈ g.parts whole, part ∈ g'.parts whole) : g'.Hangs loose' id := by
  induction h with
  | root hroot => exact roots _ hroot
  | part _ hpart ih => exact ih.part (parts _ _ hpart)

/-- What hangs somewhere is there. -/
theorem Hangs.lt_size (h : g.Hangs [] id) (tree : g.Tree loose) : id < g.size := by
  cases h with
  | root hid => exact tree.root_lt _ (List.mem_append_left _ (List.append_nil g.units ▸ hid))
  | part _ hpart => exact tree.part_lt _ _ hpart

/-- Where no node is loose, what hangs somewhere stands somewhere. -/
theorem Hangs.stands (h : g.Hangs [] id) : ∃ p, g.Stands p id := by
  induction h with
  | root hroot => exact ⟨_, .unit (by simpa using hroot)⟩
  | part _ hpart ih =>
    obtain ⟨p, hp⟩ := ih
    obtain ⟨node, hnode, -⟩ := exists_node_of_mem_parts hpart
    exact ⟨_, hp.part hnode hpart⟩

/-- A graph under construction on top of another one, in which some nodes are loose. -/
structure BuildsOn (g₀ g : Graph) (loose : List NodeId) : Prop where
  /-- The graph is well formed. -/
  wellFormed : g.WellFormed loose
  /-- There are no fewer nodes than below. -/
  size : g₀.size ≤ g.size
  /-- The nodes below stay as they are. -/
  below : ∀ id, id < g₀.size → g.node? id = g₀.node? id
  /-- No listener was made. -/
  keys : g.nextKey = g₀.nextKey
  /-- The units below stay, and new ones come behind them. -/
  units : ∃ new, g.units = g₀.units ++ new ∧ ∀ unit ∈ new, g₀.size ≤ unit
  /-- What was built is raw. -/
  raw : RawFrom g₀.size g
  /-- Everything that was built hangs somewhere. -/
  hangs : ∀ id, g₀.size ≤ id → id < g.size → g.Hangs loose id
  /-- The loose nodes were built. -/
  loose_le : ∀ id ∈ loose, g₀.size ≤ id
  /-- What was built is made of what was built. -/
  part_le : ∀ whole, g₀.size ≤ whole → ∀ part ∈ g.parts whole, g₀.size ≤ part

/-- A graph under construction, in which some nodes are loose. -/
abbrev Sprouting (g : Graph) (loose : List NodeId) : Prop := BuildsOn {} g loose

namespace Sprouting

/-- What was only built is raw: nothing in it was resolved. -/
theorem raw (h : g.Sprouting loose) : g.Raw := RawFrom.raw (BuildsOn.raw h)

/-- Where no node is loose, everything stands somewhere. -/
theorem stands (h : g.Sprouting []) (hid : id < g.size) : ∃ p, g.Stands p id :=
  (h.hangs id (Nat.zero_le id) hid).stands

end Sprouting

/-- Nothing is well formed. -/
theorem WellFormed.empty : ({} : Graph).WellFormed [] := by
  have hnone : ∀ id, ({} : Graph).node? id = none := fun _ => rfl
  have hparts : ∀ id, ({} : Graph).parts id = [] := fun _ => rfl
  refine ⟨⟨List.nodup_nil, ?_, ?_, ?_, ?_, ?_⟩, ⟨All.nil, ?_⟩, .empty, rfl⟩
  · exact fun _ h => absurd h List.not_mem_nil
  · exact fun _ h => absurd h List.not_mem_nil
  · exact fun id => hparts id ▸ List.nodup_nil
  · exact fun whole id h => absurd (hparts whole ▸ h) List.not_mem_nil
  · exact fun _ whole _ h => absurd (hparts whole ▸ h) List.not_mem_nil
  · exact fun id _ h => absurd ((hnone id).symm.trans h) (by simp)

namespace BuildsOn

/-- Nothing was built yet. -/
theorem refl (wf : g.WellFormed []) : BuildsOn g g [] := by
  have hnone : ∀ {id node}, g.size ≤ id → g.node? id ≠ some node :=
    fun hid hnode => absurd (lt_size hnode) (Nat.not_lt.mpr hid)
  refine ⟨wf, Nat.le_refl _, fun _ _ => rfl, rfl, ⟨[], (List.append_nil _).symm, fun _ h => ?_⟩,
    .of_isFresh fun _ _ hid hnode => absurd hnode (hnone hid), fun id hid hlt => ?_,
    fun _ h => absurd h List.not_mem_nil, fun whole hwhole part hpart => ?_⟩
  · exact absurd h List.not_mem_nil
  · exact absurd hlt (Nat.not_lt.mpr hid)
  · obtain ⟨node, hnode, -⟩ := exists_node_of_mem_parts hpart
    exact absurd hnode (hnone hwhole)

/-- What was built comes behind the nodes below. -/
theorem exists_nodes (h : BuildsOn g₀ g loose) : ∃ new, g.nodes = g₀.nodes ++ new := by
  refine ⟨g.nodes.extract g₀.size g.size, Array.ext_getElem? fun id => ?_⟩
  rw [Array.getElem?_append]
  split
  · next hlt => exact h.below id hlt
  · next hge =>
    have hle : g₀.size ≤ id := Nat.le_of_not_lt hge
    rw [Array.getElem?_extract, show g.size = g.nodes.size from rfl, Nat.min_self]
    change _ = if id - g₀.size < g.nodes.size - g₀.size then g.nodes[g₀.size + (id - g₀.size)]? else none
    rw [Nat.add_sub_cancel' hle]
    split
    · rfl
    · next hout => exact Array.getElem?_eq_none (by omega)

/-- The order of the loose nodes does not matter. -/
theorem perm (h : BuildsOn g₀ g loose) (hperm : loose.Perm rest) : BuildsOn g₀ g rest := by
  refine ⟨h.wellFormed.perm hperm, h.size, h.below, h.keys, h.units, h.raw, fun id hid hlt => ?_,
    fun id hid => h.loose_le id (hperm.mem_iff.mpr hid), h.part_le⟩
  refine (h.hangs id hid hlt).mono (fun root hroot => .root ?_) fun _ _ hpart => hpart
  exact (hperm.append_left g.units).mem_iff.mp hroot

end BuildsOn

/-! ## Steps -/

/-- A node on which nothing was observed yet. -/
structure IsNew (node : Node) : Prop where
  /-- It is not made up. -/
  dummy : node.dummy = false
  /-- Nothing was observed. -/
  belief : ∀ b, node.belief = some b → b = {}
  /-- It has a belief if it carries a value. -/
  typed : node.tag.isTyped = true → node.belief.isSome = true

/-- A node that is made from a name and a payload is new. -/
theorem isNew_make (name : String) (payload : Payload) : IsNew (.make name payload) := by
  refine ⟨rfl, fun b hb => ?_, fun htyped => ?_⟩
  · unfold Node.make at hb
    split at hb
    · exact (Option.some.inj hb).symm
    · exact absurd hb (by simp)
  · exact (congrArg Option.isSome (if_pos htyped)).trans rfl

/-- A literal holds its text. -/
theorem isNew_literal (value : String) :
    IsNew { Node.make value (.literal value) with code := some value } :=
  ⟨rfl, (isNew_make value (.literal value)).belief, (isNew_make value (.literal value)).typed⟩

/-- A new node is fresh. -/
theorem IsNew.isFresh {node : Node} (h : IsNew node) (hpayload : node.payload.IsRaw g node.name) :
    g.IsFresh node :=
  ⟨h.dummy, hpayload, fun b hb => ⟨.unknown, h.belief b hb⟩, h.typed⟩

/-- A new node with a first observation is fresh. -/
theorem IsNew.isFresh_firstSeen {node : Node} (h : IsNew node)
    (hpayload : node.payload.IsRaw g node.name) (o : Observation) : g.IsFresh (firstSeen node o) := by
  refine ⟨h.dummy, hpayload, fun b hb => ?_, fun htyped => ?_⟩
  · obtain ⟨b', hb', rfl⟩ := Option.map_eq_some_iff.mp hb
    exact ⟨o, by rw [h.belief b' hb']⟩
  · rw [firstSeen, Option.isSome_map]
    exact h.typed htyped

/-- Raw nodes get a fresh one. -/
theorem RawFrom.adds (h : RawFrom n g) {node : Node} (hadds : g.Adds g' node)
    (fresh : g.IsFresh node) : RawFrom n g' := by
  refine .of_isFresh fun id found hid hfound => IsFresh.keep ?_ hadds.keeps fun _ _ => hadds.belief?_of_some
  rw [hadds.nodes] at hfound
  split at hfound
  · exact Option.some.inj hfound ▸ fresh
  · exact h.isFresh hid hfound

/-- Raw nodes stay raw when the contents of a container change. -/
theorem RawFrom.modifyPayload (h : RawFrom n g) {node : Node} {f : Payload → Payload}
    (found : g.node? whole = some node) (keeps : g.Keeps (g.modifyPayload whole f))
    (hraw : (f node.payload).IsRaw g node.name) : RawFrom n (g.modifyPayload whole f) := by
  have hbelief : ∀ id, (g.modifyPayload whole f).belief? id = g.belief? id :=
    fun id => belief?_modify g whole id fun _ => rfl
  have hbeliefs : ∀ id b, g.belief? id = some b → (g.modifyPayload whole f).belief? id = some b :=
    fun id b hb => (hbelief id).trans hb
  refine .of_isFresh fun id after hid hafter => IsFresh.keep ?_ keeps hbeliefs
  by_cases heq : id = whole
  · subst heq
    have hbefore := h.isFresh hid found
    have htag := keeps.tag id _ (tag?_eq found)
    rw [tag?_eq hafter, Option.some.injEq] at htag
    rw [node?_modifyPayload_self found] at hafter
    obtain rfl := Option.some.inj hafter
    exact ⟨hbefore.dummy, hraw, hbefore.belief, fun htyped => hbefore.typed (htag ▸ htyped)⟩
  · rw [node?_modifyPayload_of_ne heq] at hafter
    exact h.isFresh hid hafter

namespace BuildsOn

/-- New nodes come above those below. -/
theorem below_adds (h : BuildsOn g₀ g loose) {node : Node} (hadds : g.Adds g' node) :
    g₀.size ≤ g'.size ∧ ∀ id, id < g₀.size → g'.node? id = g₀.node? id := by
  refine ⟨hadds.size ▸ Nat.le_succ_of_le h.size, fun id hid => ?_⟩
  rw [hadds.nodes, if_neg (Nat.ne_of_lt (Nat.lt_of_lt_of_le hid h.size)), h.below id hid]

/-- **Adding a node** to a graph under construction. It is made of loose nodes, and becomes a unit or a loose
node itself.

**Proof sketch.** The roots after this are the roots before it, less the parts of the new node, and the new
node. What hung below one of its parts hangs below the new node. -/
theorem addsRoot (h : BuildsOn g₀ g loose) {node : Node} {new loose' : List NodeId}
    (hadds : g.Adds g' node) (fresh : g.IsFresh node) (fits : g.Fits node.name node.payload)
    (keys : g'.nextKey = g.nextKey) (units : g'.units = g.units ++ new) (hall : g'.All (· == .unit) new)
    (before : loose.Perm (g.partsOf node.payload ++ rest))
    (after : (new ++ loose').Perm (g.size :: rest)) : BuildsOn g₀ g' loose' := by
  have hroots : ∀ {id}, id ∈ g.size :: rest → g'.Hangs loose' id := by
    intro id hid
    refine .root ?_
    rw [units, List.append_assoc]
    exact List.mem_append_right _ (after.mem_iff.mpr hid)
  have hle : ∀ id ∈ new ++ loose', g₀.size ≤ id := by
    intro id hid
    rcases List.mem_cons.mp (after.mem_iff.mp hid) with rfl | hid
    · exact h.size
    · exact h.loose_le id (before.mem_iff.mpr (List.mem_append_right _ hid))
  have hpartsOf : g'.parts g.size = g.partsOf node.payload := by
    rw [parts_eq hadds.found]
    exact partsOf_keep fits hadds.keeps
  obtain ⟨hsize, hbelow⟩ := h.below_adds hadds
  obtain ⟨built, hbuilt, hbuilt_le⟩ := h.units
  refine ⟨?_, hsize, hbelow, keys.trans h.keys, ⟨built ++ new, ?_, fun unit hunit => ?_⟩,
    h.raw.adds hadds fresh, fun id hid hlt => ?_, fun id hid => hle id (List.mem_append_right _ hid),
    fun whole hwhole part hpart => ?_⟩
  · refine h.wellFormed.adds (g.units ++ rest) hadds fits ?_ ?_ ?_
    · exact units ▸ (h.wellFormed.typed.units.keep hadds.keeps).append hall
    · exact (before.append_left _).trans (List.perm_append_comm_assoc ..)
    · rw [units, List.append_assoc]
      exact (after.append_left _).trans List.perm_middle
  · rw [units, hbuilt, List.append_assoc]
  · rcases List.mem_append.mp hunit with hunit | hunit
    · exact hbuilt_le unit hunit
    · exact hle unit (List.mem_append_left _ hunit)
  · rcases Nat.lt_or_ge id g.size with hold | hge
    · refine (h.hangs id hid hold).mono (fun root hroot => ?_) fun whole part hpart => ?_
      · rcases List.mem_append.mp hroot with hroot | hroot
        · exact .root (List.mem_append_left _ (units ▸ List.mem_append_left _ hroot))
        · rcases List.mem_append.mp (before.mem_iff.mp hroot) with hpart | hrest
          · exact (hroots (List.mem_cons_self ..)).part (hpartsOf ▸ hpart)
          · exact hroots (List.mem_cons_of_mem _ hrest)
      · obtain ⟨old, hold, -⟩ := exists_node_of_mem_parts hpart
        rwa [hadds.parts_other h.wellFormed.typed (Nat.ne_of_lt (lt_size hold))]
    · rw [hadds.size] at hlt
      obtain rfl := Nat.le_antisymm hge (Nat.lt_succ_iff.mp hlt)
      exact hroots (List.mem_cons_self ..)
  · by_cases heq : whole = g.size
    · rw [heq, hpartsOf] at hpart
      exact h.loose_le part (before.mem_iff.mpr (List.mem_append_left _ hpart))
    · rw [hadds.parts_other h.wellFormed.typed heq] at hpart
      exact h.part_le whole hwhole part hpart

/-- **Adding a loose node,** made of loose nodes. -/
theorem adds (h : BuildsOn g₀ g loose) {node : Node} (hadds : g.Adds g' node) (fresh : g.IsFresh node)
    (fits : g.Fits node.name node.payload) (units : g'.units = g.units) (keys : g'.nextKey = g.nextKey)
    (before : loose.Perm (g.partsOf node.payload ++ rest)) : BuildsOn g₀ g' (g.size :: rest) :=
  h.addsRoot hadds fresh fits keys (units.trans (List.append_nil _).symm) All.nil before (List.Perm.refl _)

/-- **Adding a unit** to a graph under construction. -/
theorem addUnit (h : BuildsOn g₀ g []) (name : String) :
    BuildsOn g₀ (g.addUnit name).2 [] ∧ (g.addUnit name).2.tag? g.size = some .unit := by
  have hadds : g.Adds (g.addUnit name).2 (.make name (.unit [])) := ⟨size_add g _, node?_add g _, rfl, rfl⟩
  have htag := tag?_eq hadds.found
  have hfresh := (isNew_make name (.unit [])).isFresh (g := g) trivial
  exact ⟨h.addsRoot hadds hfresh All.nil rfl rfl (.single htag rfl) (List.Perm.refl _) (List.Perm.refl _), htag⟩

/-- Notes about what was built change. -/
theorem of_sameTree (h : BuildsOn g₀ g loose) (hsame : g.SameTree g')
    (hbelief : ∀ id, g'.belief? id = g.belief? id)
    (hbelow : ∀ id, id < g₀.size → g'.node? id = g.node? id) (hkeys : g'.nextKey = g.nextKey) :
    BuildsOn g₀ g' loose := by
  refine ⟨hsame.wellFormed h.wellFormed, hsame.size ▸ h.size,
    fun id hid => (hbelow id hid).trans (h.below id hid), hkeys.trans h.keys, hsame.units ▸ h.units, ?_,
    fun id hle hid => ?_, h.loose_le, fun whole hwhole part hpart => ?_⟩
  · refine .of_isFresh fun id node hle hnode => ?_
    obtain ⟨old, hold, hname, hpayload, hdummy⟩ := hsame.symm.exists_node hnode
    have hfresh := (h.raw.isFresh hle hold).keep hsame.keeps fun other b hb => (hbelief other).trans hb
    have hbeliefs := hbelief id
    rw [belief?, belief?, hold, hnode, Option.bind_some, Option.bind_some] at hbeliefs
    refine ⟨hdummy ▸ hfresh.dummy, hname ▸ hpayload ▸ hfresh.payload, hbeliefs ▸ hfresh.belief, ?_⟩
    rw [hbeliefs, Node.tag, ← hpayload]
    exact hfresh.typed
  · refine (h.hangs id hle (hsame.size ▸ hid)).mono (fun root hroot => .root ?_)
      fun whole part hpart => ?_
    · rwa [hsame.units]
    · rwa [hsame.parts]
  · rw [hsame.parts] at hpart
    exact h.part_le whole hwhole part hpart

/-- **Hanging up a loose node** in a graph under construction.

**Proof sketch.** The node that is hung up is a root no longer, but it hangs below the one that got it.
Whatever hung below a root still does, as nothing lost a part. -/
theorem attach (h : BuildsOn g₀ g (id :: rest)) (hle : g₀.size ≤ whole) {node : Node}
    {f : Payload → Payload}
    (found : g.node? whole = some node) (keeps : g.Keeps (g.modifyPayload whole f))
    (parts : (g.partsOf (f node.payload)).Perm (g.partsOf node.payload ++ [id]))
    (fits : g.Fits node.name (f node.payload)) (hraw : (f node.payload).IsRaw g node.name)
    (above : g.Hangs rest whole) : BuildsOn g₀ (g.modifyPayload whole f) rest := by
  have hsize : (g.modifyPayload whole f).size = g.size := size_modify ..
  have hself : (g.modifyPayload whole f).parts whole = g.partsOf (f node.payload) :=
    parts_modifyPayload_self found keeps fits
  have hparts : ∀ other, ∀ part ∈ g.parts other, part ∈ (g.modifyPayload whole f).parts other := by
    intro other part hpart
    by_cases hother : other = whole
    · subst hother
      rw [hself]
      rw [parts_eq found] at hpart
      exact parts.mem_iff.mpr (List.mem_append_left _ hpart)
    · rwa [parts_modifyPayload_of_ne h.wellFormed.typed keeps hother]
  have hroots : ∀ root ∈ g.units ++ rest, (g.modifyPayload whole f).Hangs rest root :=
    fun root hroot => .root hroot
  refine ⟨h.wellFormed.attach found keeps parts fits, hsize ▸ h.size, fun other hother => ?_, h.keys, h.units,
    h.raw.modifyPayload found keeps hraw, fun other hle' hother => ?_,
    fun other hother => h.loose_le other (List.mem_cons_of_mem _ hother), fun other hother part hpart => ?_⟩
  · rw [node?_modifyPayload_of_ne (Nat.ne_of_lt (Nat.lt_of_lt_of_le hother hle)), h.below other hother]
  · refine (h.hangs other hle' (hsize ▸ hother)).mono (fun root hroot => ?_) hparts
    rcases List.mem_append.mp hroot with hroot | hroot
    · exact .root (List.mem_append_left _ hroot)
    · rcases List.mem_cons.mp hroot with rfl | hroot
      · refine (above.mono hroots hparts).part ?_
        rw [hself]
        exact parts.mem_iff.mpr (List.mem_append_right _ (List.mem_singleton.mpr rfl))
      · exact .root (List.mem_append_right _ hroot)
  · by_cases heq : other = whole
    · subst heq
      rw [hself, parts.mem_iff, ← parts_eq found] at hpart
      rcases List.mem_append.mp hpart with hpart | hpart
      · exact h.part_le other hle part hpart
      · exact h.loose_le part (List.mem_singleton.mp hpart ▸ List.mem_cons_self)
    · rw [parts_modifyPayload_of_ne h.wellFormed.typed keeps heq] at hpart
      exact h.part_le other hother part hpart

end BuildsOn

end Graph

end ProgramGraph
