import Mathlib.Data.List.Induction
import ProgramGraph.Graph.Basic

set_option autoImplicit false

/-!
# The index by name

A graph lists its nodes by name, so that they can be looked up without a search through all of them.
Nodes are entered when they are added, and nobody changes the name of a node afterwards. So the index
comes to what a search through all nodes would come to.

## Main definitions

* `ProgramGraph.NameIndex.of` — the index of nodes with some names.
* `ProgramGraph.Graph.Listed` — all nodes of a graph are listed under their names.

## Main results

* `ProgramGraph.NameIndex.under_of` — what is listed under a name.
* `ProgramGraph.Graph.Listed.named_eq_filter`, `ProgramGraph.Graph.Listed.find?_eq` — looking up comes to
  what searching comes to.
* `ProgramGraph.Graph.Listed.push`, `ProgramGraph.Graph.Listed.congr` — what keeps an index right.
-/

namespace ProgramGraph

namespace NameIndex

/-- The index of nodes with some names, numbered in order. -/
def of (names : List String) : NameIndex :=
  names.zipIdx.foldl (fun index entry => index.enter entry.2 entry.1) ∅

/-- One name more is entered last. -/
theorem of_concat (names : List String) (name : String) :
    of (names ++ [name]) = (of names).enter names.length name := by
  rw [of, List.zipIdx_append, List.foldl_append, Nat.zero_add]
  rfl

/-- What is listed after an entry. -/
theorem under_enter (index : NameIndex) (id : NodeId) (name other : String) :
    (index.enter id name).under other =
      if other = name then index.under other ++ [id] else index.under other := by
  rw [under, enter, Assoc.get?_put]
  split
  · next h => rw [h, Option.getD_some]
  · rfl

/-- **What is listed under a name** are the numbers of the places where the name stands.

**Proof sketch.** Induction on the names, the last one first: it has the greatest number, so it comes last
under its name, and nothing changes under the others. -/
theorem under_of (names : List String) (name : String) :
    (of names).under name = (List.range names.length).filter fun id => names[id]? = some name := by
  induction names using List.reverseRecOn with
  | nil => rfl
  | append_singleton names last ih =>
    have hbefore : ∀ id ∈ List.range names.length,
        decide ((names ++ [last])[id]? = some name) = decide (names[id]? = some name) := by
      intro id hid
      rw [List.getElem?_append_left (List.mem_range.mp hid)]
    rw [of_concat, under_enter, ih, List.length_append, List.length_singleton, List.range_succ,
      List.filter_append, List.filter_congr hbefore]
    by_cases h : name = last
    · simp [h]
    · simp [h, Ne.symm h]

end NameIndex

namespace Graph

/-- The names of the nodes, in order. -/
def nodeNames (g : Graph) : List String := g.nodes.toList.map Node.name

/-- All nodes are listed under their names, and nothing else is listed. -/
def Listed (g : Graph) : Prop := g.names = .of g.nodeNames

variable {g g' : Graph} {name : String} {tag : Tag} {id : NodeId}

/-- The name of a node is found under its number. -/
theorem getElem?_nodeNames (g : Graph) (id : NodeId) : g.nodeNames[id]? = (g.node? id).map Node.name := by
  rw [nodeNames, List.getElem?_map, Array.getElem?_toList]
  rfl

/-- There are as many names as nodes. -/
theorem length_nodeNames (g : Graph) : g.nodeNames.length = g.size :=
  (List.length_map _).trans Array.length_toList

namespace Listed

/-- Nothing is listed in the empty graph. -/
theorem empty : ({} : Graph).Listed := rfl

/-- **A new node** is entered under its name. -/
theorem push (h : g.Listed) {node : Node} (hnames : g'.names = g.names.enter g.size node.name)
    (hnodes : ∀ id, g'.node? id = if id = g.size then some node else g.node? id) : g'.Listed := by
  have hall : g'.nodeNames = g.nodeNames ++ [node.name] := by
    refine List.ext_getElem? fun id => ?_
    rw [getElem?_nodeNames, hnodes, List.getElem?_append, length_nodeNames]
    rcases Nat.lt_trichotomy id g.size with hlt | rfl | hgt
    · rw [if_neg (Nat.ne_of_lt hlt), if_pos hlt, getElem?_nodeNames]
    · simp
    · rw [if_neg (Nat.ne_of_gt hgt), if_neg (Nat.not_lt.mpr (Nat.le_of_lt hgt)),
        node?_eq_none (Nat.le_of_lt hgt), List.getElem?_eq_none (by simp; omega)]
      rfl
  rw [Listed, hnames, hall, NameIndex.of_concat, length_nodeNames, h]

/-- **A change that renames no node** leaves the index right. -/
theorem congr (h : g.Listed) (hnames : g'.names = g.names)
    (hnodes : ∀ id, (g'.node? id).map Node.name = (g.node? id).map Node.name) : g'.Listed := by
  have hall : g'.nodeNames = g.nodeNames :=
    List.ext_getElem? fun id => by rw [getElem?_nodeNames, getElem?_nodeNames, hnodes]
  rw [Listed, hnames, hall, h]

/-- **Looking up a name** comes to what searching through all nodes comes to. -/
theorem named_eq_filter (h : g.Listed) (name : String) :
    g.named name = g.filter fun node => node.name == name := by
  rw [named, h, NameIndex.under_of, length_nodeNames, filter, ids]
  refine List.filter_congr fun id _ => ?_
  rw [getElem?_nodeNames]
  cases g.node? id <;> simp [beq_eq_decide]

/-- What is listed are nodes. -/
theorem named_lt (h : g.Listed) (hid : id ∈ g.named name) : id < g.size := by
  rw [h.named_eq_filter] at hid
  exact List.mem_range.mp (List.mem_filter.mp hid).1

end Listed

/-- The first of several nodes that has a kind, if all of them are there. -/
theorem firstTagged_eq {ids : List NodeId} (h : ∀ id ∈ ids, id < g.size) :
    g.firstTagged tag ids = .ok (ids.find? fun id => (g.node? id).any fun node => node.tag == tag) := by
  induction ids with
  | nil => rfl
  | cons id rest ih =>
    obtain ⟨node, hnode⟩ := exists_node (h id List.mem_cons_self)
    have hrest := ih fun other hother => h other (List.mem_cons_of_mem _ hother)
    rw [firstTagged, node_eq_ok.mpr hnode, List.find?_cons, hnode, Option.any_some]
    by_cases htag : node.tag = tag
    · rw [beq_iff_eq.mpr htag]
      simp only [bind, Except.bind, if_pos htag]
      rfl
    · rw [beq_eq_false_iff_ne.mpr htag]
      simp only [bind, Except.bind, if_neg htag]
      exact hrest

/-- **Finding a node** by its kind and its name succeeds, and comes to the first one of the nodes with that
kind and that name, if there is any. -/
theorem Listed.find?_eq (h : g.Listed) (tag : Tag) (name : String) :
    g.find? tag name = .ok (g.filter fun node => node.name == name && node.tag == tag).head? := by
  rw [find?, firstTagged_eq fun id hid => h.named_lt hid, h.named_eq_filter, ← List.head?_filter, filter,
    List.filter_filter, filter]
  refine congrArg (fun ids : List NodeId => Except.ok ids.head?) (List.filter_congr fun id _ => ?_)
  cases g.node? id with
  | none => rfl
  | some node => exact Bool.and_comm ..

end Graph

end ProgramGraph
