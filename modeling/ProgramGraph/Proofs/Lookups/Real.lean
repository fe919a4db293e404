import ProgramGraph.Proofs.Rerun.Contents

set_option autoImplicit false

/-!
# Real declarations

The declarations of a resolved graph that were not made up are those of the raw graph it grew from,
in the same order. So the first real declaration of a name is the one that was found first before
anything was made up.

## Main definitions

* `ProgramGraph.Graph.isReal` — a node has a name and was not made up.
* `ProgramGraph.Graph.realIn` — the first real declaration of a name in a scope.
* `ProgramGraph.Graph.realField` — the first real field of a name in a record.

## Main results

* `ProgramGraph.Graph.Grows.realIn_eq`, `ProgramGraph.Graph.Grows.realField_eq` — real declarations
  in terms of the raw graph.
-/

namespace ProgramGraph.Graph

variable {g g' : Graph} {ids : List NodeId} {id scope record field : NodeId} {name : String}

/-- The node has a name and was not made up. -/
def isReal (g : Graph) (name : String) (id : NodeId) : Bool :=
  (g.node? id).any fun node => node.name == name && !node.dummy

/-- The first real declaration of a name among those of a scope. -/
def realIn (g : Graph) (name : String) (scope : NodeId) : Option NodeId :=
  (g.declaredIn scope).find? (g.isReal name)

/-- The first real field of a name in a record. -/
def realField (g : Graph) (name : String) (record : NodeId) : Option NodeId :=
  (g.fieldsOf record).find? (g.isReal name)

section

variable (h : g.Grows g.size g') (raw : g.Raw)

include h raw

/-- The nodes of a raw graph are real. -/
theorem Grows.isReal_of_lt (hlt : id < g.size) : g'.isReal name id = g.isNamed name id := by
  obtain ⟨node, hnode⟩ := exists_node hlt
  obtain ⟨node', hnode', hname, hdummy, -⟩ := h.nodes id node hnode
  rw [raw.dummy id node hnode] at hdummy
  simp only [isReal, isNamed, hnode', name?_eq hnode, Option.any_some, hname, hdummy,
    Bool.not_false, Bool.and_true]
  rfl

omit raw in
/-- What a graph has grown by is not real. -/
theorem Grows.isReal_of_le (hle : g.size ≤ id) : g'.isReal name id = false := by
  unfold isReal
  cases hnode : g'.node? id with
  | none => rfl
  | some node => simp [(h.fresh id node hle hnode).1]

/-- **The first real node of a name** is found in the raw graph. -/
theorem Grows.find?_isReal {ids' : List NodeId} (hids : ids'.filter (· < g.size) = ids) :
    ids'.find? (g'.isReal name) = ids.find? (g.isNamed name) := by
  subst hids
  rw [List.find?_filter]
  congr 1
  funext id
  by_cases hlt : id < g.size
  · simp [hlt, h.isReal_of_lt raw hlt]
  · simp [hlt, h.isReal_of_le (Nat.not_lt.mp hlt)]

variable (wf : g.WellFormed [])

include wf

/-- **The first real declaration of a scope.** -/
theorem Grows.realIn_eq (wf' : g'.WellFormed []) {tag : Tag} (htag : g.tag? scope = some tag)
    (hk : tag.isExpression = false) :
    g'.realIn name scope = (g.declaredIn scope).find? (g.isNamed name) :=
  h.find?_isReal raw (h.filter_declaredIn raw wf wf' htag hk)

/-- **The first real field of a record.** -/
theorem Grows.realField_eq (hrecord : g.tag? record = some .record) :
    g'.realField name record = g.fieldOf name record :=
  h.find?_isReal raw (h.filter_fieldsOf wf.typed hrecord)

end

end ProgramGraph.Graph
