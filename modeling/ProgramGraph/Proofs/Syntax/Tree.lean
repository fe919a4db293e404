import Mathlib.Data.List.Nodup
import Mathlib.Tactic.Common
import ProgramGraph.Graph.Children
import ProgramGraph.Type.Parse

set_option autoImplicit false

/-!
# Graphs as forests

The parts of the nodes make a graph a forest: no node is a part of two others, and no unit is a
part of anything. So there is one way at most from the units down to a node, and the scopes and
records that are open on this way are the place of the node.

## Main definitions

* `ProgramGraph.Graph.parts` — the parts of a node, none for a number without a node.
* `ProgramGraph.Graph.Tree` — the graph is a forest, in which some nodes are not hung up yet.
* `ProgramGraph.Place` — the scopes and the record types around a node.
* `ProgramGraph.Graph.Stands` — a node stands at a place.

## Main results

* `ProgramGraph.Graph.Stands.unique` — a node stands at one place only.
* `ProgramGraph.Graph.Stands.outer` — a scope around a node stands in the scopes around it.

## Design

A forest under construction has loose nodes: nodes that are made already and will become parts of
other nodes later. A finished forest has none.
-/

namespace ProgramGraph

namespace Graph

/-! ## Parts -/

/-- The kind of the node with a number. -/
def tag? (g : Graph) (id : NodeId) : Option Tag := (g.node? id).map Node.tag

/-- The name of the node with a number. -/
def name? (g : Graph) (id : NodeId) : Option String := (g.node? id).map Node.name

/-- The parts of a node with a given payload: of a member access those that are expressions. -/
def partsOf (g : Graph) : Payload → List NodeId
  | .memberAccess base member =>
    (base :: member.toList).filter fun id => (g.tag? id).any Tag.isExpression
  | other => other.parts

/-- The parts of the node with a number. -/
def parts (g : Graph) (id : NodeId) : List NodeId :=
  match g.node? id with
  | some node => g.partsOf node.payload
  | none => []

/-- The parts of a node that is there. -/
theorem parts_eq {g : Graph} {id : NodeId} {node : Node} (h : g.node? id = some node) :
    g.parts id = g.partsOf node.payload := by
  simp only [parts, h]

/-- What has a part is there. -/
theorem exists_node_of_mem_parts {g : Graph} {id part : NodeId} (h : part ∈ g.parts id) :
    ∃ node, g.node? id = some node ∧ part ∈ g.partsOf node.payload := by
  unfold parts at h
  cases hnode : g.node? id with
  | none => simp [hnode] at h
  | some node => exact ⟨node, rfl, by simpa [hnode] using h⟩

/-- The kind of a node that is there. -/
theorem tag?_eq {g : Graph} {id : NodeId} {node : Node} (h : g.node? id = some node) :
    g.tag? id = some node.tag := by
  simp [tag?, h]

/-- The name of a node that is there. -/
theorem name?_eq {g : Graph} {id : NodeId} {node : Node} (h : g.node? id = some node) :
    g.name? id = some node.name := by
  simp [name?, h]

/-- The payload of a node that is there. -/
theorem payload?_eq {g : Graph} {id : NodeId} {node : Node} (h : g.node? id = some node) :
    g.payload? id = some node.payload := by
  rw [payload?, h]
  rfl

/-- A kind is the kind of a node. -/
theorem exists_node_of_tag? {g : Graph} {id : NodeId} {tag : Tag} (h : g.tag? id = some tag) :
    ∃ node, g.node? id = some node ∧ node.tag = tag := by
  simpa [tag?] using h

/-- A name is the name of a node. -/
theorem exists_node_of_name? {g : Graph} {id : NodeId} {name : String}
    (h : g.name? id = some name) : ∃ node, g.node? id = some node ∧ node.name = name := by
  simpa [name?] using h

/-- A payload is the payload of a node. -/
theorem exists_node_of_payload? {g : Graph} {id : NodeId} {payload : Payload}
    (h : g.payload? id = some payload) : ∃ node, g.node? id = some node ∧ node.payload = payload := by
  simpa [payload?] using h

/-- What has a kind has a number below the size. -/
theorem lt_size_of_tag? {g : Graph} {id : NodeId} {tag : Tag} (h : g.tag? id = some tag) :
    id < g.size := by
  obtain ⟨node, hnode, -⟩ := exists_node_of_tag? h
  exact lt_size hnode

/-- References have no parts. -/
theorem parts_of_reference {g : Graph} {id : NodeId} (h : g.tag? id = some .reference) :
    g.parts id = [] := by
  obtain ⟨node, hnode, htag⟩ := exists_node_of_tag? h
  rw [parts_eq hnode]
  cases hpayload : node.payload with
  | reference _ _ => rfl
  | _ => simp [Node.tag, hpayload, Payload.tag] at htag

/-- Reading the numbers of expressions succeeds where all numbers have nodes. -/
theorem expressions_eq {g : Graph} {ids : List NodeId} (h : ∀ id ∈ ids, id < g.size) :
    g.expressions ids = .ok (ids.filter fun id => (g.tag? id).any Tag.isExpression) := by
  induction ids with
  | nil => rfl
  | cons id rest ih =>
    obtain ⟨node, hnode⟩ := exists_node (h id (List.mem_cons_self ..))
    have hrest := ih fun other hmem => h other (List.mem_cons_of_mem _ hmem)
    have hread : g.isExpression id = .ok node.tag.isExpression := by
      rw [isExpression, node_eq_ok.mpr hnode]
      rfl
    rw [expressions, hread, hrest]
    simp only [List.filter_cons, tag?_eq hnode, Option.any_some]
    cases node.tag.isExpression <;> rfl

/-! ## Places -/

end Graph

/-- Where a node stands: what is around it, innermost first. -/
structure Place where
  /-- The scopes. -/
  scopes : List NodeId := []
  /-- The types that the records declare. -/
  types : List Descriptor := []
deriving DecidableEq

namespace Place

/-- The place inside a node that stands at a place. -/
def enter (p : Place) (id : NodeId) (node : Node) : Place where
  scopes := if node.tag.opens?.isSome then id :: p.scopes else p.scopes
  types := if node.tag = .record then .parse node.name :: p.types else p.types

/-- What opens no scope is no record, and leaves the place as it is. -/
theorem enter_of_opens?_eq_none {p : Place} {id : NodeId} {node : Node}
    (h : node.tag.opens? = none) : p.enter id node = p := by
  have hrecord : node.tag ≠ .record := by
    intro heq
    rw [heq] at h
    exact absurd h (by decide)
  simp [enter, h, hrecord]

/-- The place inside a node depends on its kind and its name. -/
theorem enter_congr {p : Place} {id : NodeId} {node node' : Node} (htag : node'.tag = node.tag)
    (hname : node'.name = node.name) : p.enter id node' = p.enter id node := by
  unfold enter
  rw [htag, hname]

/-- What opens a scope is the innermost scope around its parts. -/
theorem scopes_enter_of_opens? {p : Place} {id : NodeId} {node : Node}
    (h : node.tag.opens?.isSome) : (p.enter id node).scopes = id :: p.scopes := by
  simp [enter, h]

/-- Leaving a node leads back to the scopes around it. -/
theorem leave_scopes (p : Place) (id : NodeId) (node : Node) :
    (if node.tag.opens?.isSome then (p.enter id node).scopes.tail else (p.enter id node).scopes) =
      p.scopes := by
  unfold enter
  cases node.tag.opens?.isSome <;> rfl

/-- Leaving a node leads back to the record types around it. -/
theorem leave_types (p : Place) (id : NodeId) (node : Node) :
    (if decide (node.tag = .record) then (p.enter id node).types.tail
      else (p.enter id node).types) = p.types := by
  unfold enter
  by_cases h : node.tag = .record <;> simp [h]

end Place

namespace Graph

/-- A node stands at a place: a unit at the outermost place, a part of a node inside that node. -/
inductive Stands (g : Graph) : Place → NodeId → Prop where
  /-- Units have nothing around them. -/
  | unit {id : NodeId} (h : id ∈ g.units) : Stands g {} id
  /-- Parts stand inside what they are parts of. -/
  | part {p : Place} {id part : NodeId} {node : Node} (above : Stands g p id)
    (found : g.node? id = some node) (h : part ∈ g.parts id) : Stands g (p.enter id node) part

/-! ## Forests -/

/-- The graph is a forest. Some nodes may still be loose: they are not parts of others yet. -/
structure Tree (g : Graph) (loose : List NodeId) : Prop where
  /-- The roots are listed once. -/
  roots : (g.units ++ loose).Nodup
  /-- The roots are nodes. -/
  root_lt : ∀ id ∈ g.units ++ loose, id < g.size
  /-- The roots are parts of nothing. -/
  root_notMem : ∀ id ∈ g.units ++ loose, ∀ whole, id ∉ g.parts whole
  /-- No node has a part twice. -/
  parts_nodup : ∀ id, (g.parts id).Nodup
  /-- The parts are nodes. -/
  part_lt : ∀ whole, ∀ id ∈ g.parts whole, id < g.size
  /-- No node is a part of two others. -/
  whole_unique : ∀ id whole other, id ∈ g.parts whole → id ∈ g.parts other → whole = other

namespace Stands

variable {g : Graph} {p q : Place} {id : NodeId} {loose : List NodeId}

/-- **One place.** A node of a forest stands at one place only.

**Proof sketch.** Induction on the one place. A unit is a part of nothing, and any other node is a part of one
node only, whose place is unique. -/
theorem unique (tree : g.Tree loose) (hp : g.Stands p id) (hq : g.Stands q id) : p = q := by
  induction hp generalizing q with
  | unit hunit =>
    cases hq with
    | unit _ => rfl
    | part _ _ hpart =>
      exact absurd hpart (tree.root_notMem _ (List.mem_append_left _ hunit) _)
  | part above found hpart ih =>
    cases hq with
    | unit hunit => exact absurd hpart (tree.root_notMem _ (List.mem_append_left _ hunit) _)
    | part above' found' hpart' =>
      obtain rfl := tree.whole_unique _ _ _ hpart hpart'
      obtain rfl := Option.some.inj (found.symm.trans found')
      rw [ih above']

/-- What stands somewhere is a node. -/
theorem lt_size (tree : g.Tree loose) (h : g.Stands p id) : id < g.size := by
  cases h with
  | unit hunit => exact tree.root_lt _ (List.mem_append_left _ hunit)
  | part _ _ hpart => exact tree.part_lt _ _ hpart

/-- **Scopes stand in scopes.** Each scope around a node stands in the scopes that are farther
out. -/
theorem outer (h : g.Stands p id) {scope : NodeId} {scopes : List NodeId}
    (hsuffix : scope :: scopes <:+ p.scopes) :
    ∃ q, g.Stands q scope ∧ q.scopes = scopes ∧
      ∃ node, g.node? scope = some node ∧ node.tag.opens?.isSome := by
  induction h with
  | unit _ => simp at hsuffix
  | @part p id part node above found _ ih =>
    by_cases hopens : node.tag.opens?.isSome
    · rw [Place.scopes_enter_of_opens? hopens, List.suffix_cons_iff] at hsuffix
      rcases hsuffix with heq | hsuffix
      · obtain ⟨rfl, rfl⟩ := List.cons.inj heq
        exact ⟨p, above, rfl, node, found, hopens⟩
      · exact ih hsuffix
    · rw [Place.enter_of_opens?_eq_none (by simpa using hopens)] at hsuffix
      exact ih hsuffix

/-- A scope around a node stands somewhere and opens a scope. -/
theorem exists_opens (h : g.Stands p id) {scope : NodeId} (hscope : scope ∈ p.scopes) :
    ∃ q tag, g.Stands q scope ∧ g.tag? scope = some tag ∧ tag.opens?.isSome := by
  obtain ⟨inner, rest, hsplit⟩ := List.append_of_mem hscope
  have hsuffix : scope :: rest <:+ p.scopes := ⟨inner, hsplit.symm⟩
  obtain ⟨q, hq, -, node, hnode, hopens⟩ := h.outer hsuffix
  exact ⟨q, node.tag, hq, tag?_eq hnode, hopens⟩

/-- The scopes around a node, seen from one of them. -/
theorem scopes_eq (tree : g.Tree loose) (h : g.Stands p id) {scope : NodeId} (hq : g.Stands q scope)
    (hmem : scope ∈ p.scopes) : scope :: q.scopes <:+ p.scopes := by
  obtain ⟨inner, rest, hsplit⟩ := List.append_of_mem hmem
  have hsuffix : scope :: rest <:+ p.scopes := ⟨inner, hsplit.symm⟩
  obtain ⟨q', hq', rfl, -⟩ := h.outer hsuffix
  rwa [hq.unique tree hq']

end Stands

end Graph

end ProgramGraph
