import Mathlib.Data.List.Perm.Subperm
import Mathlib.Logic.Relation
import ProgramGraph.Proofs.Syntax.Preorder
import ProgramGraph.Proofs.Syntax.Typing

set_option autoImplicit false

/-!
# What is below a node

The parts of a node, their parts and so on are below the node. In a forest whatever stands somewhere is
below one unit only, never below itself, and the nodes below a unit can be listed, each of them once.

## Main definitions

* `ProgramGraph.Graph.HasPart` — one node is a part of another.
* `ProgramGraph.Graph.Below` — a node is another one or below it.
* `ProgramGraph.Graph.Acyclic` — no node is below itself.

## Main results

* `ProgramGraph.Graph.Stands.exists_unit_above`, `ProgramGraph.Graph.Tree.unit_unique` — one unit is above.
* `ProgramGraph.Graph.Stands.acyclic` — what stands somewhere is not below itself.
* `ProgramGraph.Graph.WellTyped.exists_preorder_of_depth` — where nothing is below itself, the nodes
  below one are listed.
* `ProgramGraph.Graph.Tree.nodup_preorder` — nothing is listed twice.

## Design

That listing ends is a matter of the chain of nodes above the one that is listed: no node is on it
twice, so with every level that is left fewer nodes can be added to the chain.
-/

namespace ProgramGraph

/-! ## Listing in preorder -/

/-- **Preorder.** The listed nodes are those that some steps lead to. -/
theorem Preorder.mem_iff {next : NodeId → List NodeId} {ids all : List NodeId}
    (h : Preorder next ids all) {id : NodeId} :
    id ∈ all ↔ ∃ root ∈ ids, Relation.ReflTransGen (fun whole part => part ∈ next whole) root id := by
  induction h with
  | nil => simp
  | @cons root rest below after _ _ ihbelow ihafter =>
    have hroot : Relation.ReflTransGen (fun whole part => part ∈ next whole) root id ↔
        id = root ∨ id ∈ below := by
      rw [Relation.ReflTransGen.cases_head_iff, ihbelow, eq_comm]
    rw [List.mem_cons, List.mem_append, ihafter, ← or_assoc, ← hroot]
    simp only [List.mem_cons, exists_eq_or_imp]

namespace Graph

variable {g : Graph} {loose ids all : List NodeId} {p : Place} {id whole part : NodeId}

/-! ## Parts of parts -/

/-- One node is a part of another. -/
def HasPart (g : Graph) (whole part : NodeId) : Prop :=
  ∃ parts, g.children whole = .ok parts ∧ part ∈ parts

/-- A node is another one or below it. -/
def Below (g : Graph) : NodeId → NodeId → Prop := Relation.ReflTransGen g.HasPart

/-- No node is below itself. -/
def Acyclic (g : Graph) : Prop := ∀ id, ¬ Relation.TransGen g.HasPart id id

/-- Having a part is having it in the list of parts. -/
theorem WellTyped.hasPart_iff (typed : g.WellTyped) : g.HasPart whole part ↔ part ∈ g.parts whole := by
  constructor
  · rintro ⟨parts, hparts, hpart⟩
    cases hread : g.node whole with
    | error fault =>
      rw [children, hread] at hparts
      cases hparts
    | ok node =>
      rw [typed.children_eq (node_eq_ok.mp hread)] at hparts
      cases hparts
      exact hpart
  · intro hpart
    obtain ⟨node, hnode, -⟩ := exists_node_of_mem_parts hpart
    exact ⟨g.parts whole, typed.children_eq hnode, hpart⟩

/-- The relation behind what is below. -/
theorem WellTyped.hasPart_eq (typed : g.WellTyped) :
    g.HasPart = fun whole part => part ∈ g.parts whole := by
  funext whole part
  exact propext typed.hasPart_iff

/-! ## What stands is below one unit -/

/-- **A unit above.** Whatever stands somewhere is below a unit. -/
theorem Stands.exists_unit_above (typed : g.WellTyped) (h : g.Stands p id) : ∃ unit ∈ g.units, g.Below unit id := by
  induction h with
  | unit hunit => exact ⟨_, hunit, .refl⟩
  | part _ _ hpart ih =>
    obtain ⟨unit, hunit, hbelow⟩ := ih
    exact ⟨unit, hunit, hbelow.tail (typed.hasPart_iff.mpr hpart)⟩

namespace Tree

variable (tree : g.Tree loose) (typed : g.WellTyped)

include tree typed

/-- No node is a part of two others. -/
theorem hasPart_unique : Relator.LeftUnique g.HasPart := by
  intro whole other part hwhole hother
  exact tree.whole_unique part whole other (typed.hasPart_iff.mp hwhole) (typed.hasPart_iff.mp hother)

/-- **Two nodes above a third** are above one another. -/
theorem below_total {other : NodeId} (h : g.Below whole id) (h' : g.Below other id) :
    g.Below whole other ∨ g.Below other whole := by
  induction h with
  | refl => exact Or.inr h'
  | @tail middle last hmiddle hpart ih =>
    rcases Relation.ReflTransGen.cases_tail h' with rfl | ⟨above, habove, hpart'⟩
    · exact Or.inl (hmiddle.tail hpart)
    · obtain rfl := tree.hasPart_unique typed hpart hpart'
      exact ih habove

/-- No part of a node is below another part of it. -/
theorem eq_of_below_part (acyclic : g.Acyclic) {other : NodeId} (hpart : part ∈ g.parts whole)
    (hother : other ∈ g.parts whole) (h : g.Below part other) : part = other := by
  rcases Relation.ReflTransGen.cases_tail h with rfl | ⟨last, habove, hlast⟩
  · rfl
  · obtain rfl := tree.hasPart_unique typed (typed.hasPart_iff.mpr hother) hlast
    exact absurd (Relation.TransGen.head' (typed.hasPart_iff.mpr hpart) habove) (acyclic whole)

/-- Nothing is above a root. -/
theorem eq_of_below_root {root : NodeId} (hroot : root ∈ g.units ++ loose) (h : g.Below id root) :
    id = root := by
  rcases Relation.ReflTransGen.cases_tail h with rfl | ⟨whole, -, hpart⟩
  · rfl
  · exact absurd (typed.hasPart_iff.mp hpart) (tree.root_notMem root hroot whole)

/-- **One unit.** No node is below two units. -/
theorem unit_unique {unit other : NodeId} (hunit : unit ∈ g.units) (hother : other ∈ g.units)
    (h : g.Below unit id) (h' : g.Below other id) : unit = other := by
  rcases tree.below_total typed h h' with hbelow | hbelow
  · exact tree.eq_of_below_root typed (List.mem_append_left _ hother) hbelow
  · exact (tree.eq_of_below_root typed (List.mem_append_left _ hunit) hbelow).symm

end Tree

/-- **No circles.** What stands somewhere is not below itself. -/
theorem Stands.acyclic (h : g.Stands p id) (tree : g.Tree loose) (typed : g.WellTyped) :
    ¬ Relation.TransGen g.HasPart id id := by
  induction h with
  | unit hunit =>
    intro hcircle
    obtain ⟨whole, -, hpart⟩ := Relation.TransGen.tail'_iff.mp hcircle
    exact tree.root_notMem _ (List.mem_append_left _ hunit) whole (typed.hasPart_iff.mp hpart)
  | @part _ whole id _ _ _ hpart ih =>
    intro hcircle
    have hhas := typed.hasPart_iff.mpr hpart
    obtain ⟨last, hbelow, hlast⟩ := Relation.TransGen.tail'_iff.mp hcircle
    obtain rfl := tree.hasPart_unique typed hhas hlast
    exact ih (Relation.TransGen.head' hhas hbelow)

/-! ## Listing what is below -/

/-- **Listing.** Where nothing is below itself, the nodes below one are listed in preorder, if as many
levels are left as there are nodes that are not above it.

**Proof sketch.** Induction on the levels that are left. Nothing is below itself, so a node is not among those
above it. If no level is left there are as many nodes above as there are at all, and none can be left to be
listed. -/
theorem WellTyped.exists_preorder_of_depth (typed : g.WellTyped) (acyclic : g.Acyclic)
    (part_lt : ∀ whole, ∀ part ∈ g.parts whole, part < g.size) {depth : Nat} {above : List NodeId}
    (hid : id < g.size) (habove : ∀ other ∈ above, other < g.size ∧ Relation.TransGen g.HasPart other id)
    (hnodup : above.Nodup) (hdepth : g.size ≤ above.length + depth) :
    ∃ all, g.preorder depth id = .ok all ∧ Preorder g.parts [id] all := by
  induction depth generalizing id above with
  | zero =>
    -- a chain of all nodes leaves none to be listed
    exfalso
    have hnot : id ∉ above := fun hmem => acyclic id (habove id hmem).2
    have hsubset : id :: above ⊆ List.range g.size := by
      intro other hother
      rw [List.mem_range]
      rcases List.mem_cons.mp hother with rfl | hother
      · exact hid
      · exact (habove other hother).1
    have hlength := (List.subperm_of_subset (List.nodup_cons.mpr ⟨hnot, hnodup⟩) hsubset).length_le
    rw [List.length_range, List.length_cons] at hlength
    omega
  | succ depth ih =>
    obtain ⟨node, hnode⟩ := exists_node hid
    have hnot : id ∉ above := fun hmem => acyclic id (habove id hmem).2
    have hparts : ∀ part ∈ g.parts id, ∃ all, g.preorder depth part = .ok all ∧
        Preorder g.parts [part] all := by
      intro part hpart
      have hhas := typed.hasPart_iff.mpr hpart
      have hchain : ∀ other ∈ id :: above, other < g.size ∧ Relation.TransGen g.HasPart other part := by
        intro other hother
        rcases List.mem_cons.mp hother with rfl | hother
        · exact ⟨hid, .single hhas⟩
        · exact ⟨(habove other hother).1, (habove other hother).2.tail hhas⟩
      exact ih (part_lt id part hpart) hchain (List.nodup_cons.mpr ⟨hnot, hnodup⟩)
        (by rw [List.length_cons]; omega)
    obtain ⟨lists, hlists, hall⟩ := exists_mapM_eq_ok hparts
    refine ⟨id :: lists.flatten, ?_, ?_⟩
    · rw [preorder, typed.children_eq hnode]
      simp only [bind, Except.bind, hlists]
      rfl
    · have := Preorder.cons (Preorder.flatten hall) .nil
      rwa [List.append_nil] at this

/-- **What is below a node** is listed, where nothing is below itself. -/
theorem WellFormed.exists_subnodes (wf : g.WellFormed loose) (acyclic : g.Acyclic) (hid : id < g.size) :
    ∃ all, g.subnodes id = .ok all ∧ Preorder g.parts [id] all := by
  have hnone : ∀ other ∈ ([] : List NodeId), other < g.size ∧ Relation.TransGen g.HasPart other id :=
    fun _ h => absurd h List.not_mem_nil
  exact wf.typed.exists_preorder_of_depth acyclic wf.tree.part_lt hid hnone List.nodup_nil (by simp)

/-- **Nothing is listed twice** below nodes that are not below each other.

**Proof sketch.** Induction on the preorder. A node is not below its parts, two parts are not below each
other, and what is below two nodes would put one of these below the other. -/
theorem Tree.nodup_preorder (tree : g.Tree loose) (typed : g.WellTyped) (acyclic : g.Acyclic)
    (h : Preorder g.parts ids all)
    (apart : ids.Pairwise fun a b => ¬ g.Below a b ∧ ¬ g.Below b a) : all.Nodup := by
  have hmem : ∀ {ids all : List NodeId} {id : NodeId}, Preorder g.parts ids all →
      (id ∈ all ↔ ∃ root ∈ ids, g.Below root id) := by
    intro ids all id h
    rw [h.mem_iff, Below, typed.hasPart_eq]
  induction h with
  | nil => exact List.nodup_nil
  | @cons id rest below after hbelow hafter ihbelow ihafter =>
    obtain ⟨hfirst, hrest⟩ := List.pairwise_cons.mp apart
    have hparts : (g.parts id).Pairwise fun a b => ¬ g.Below a b ∧ ¬ g.Below b a := by
      refine (tree.parts_nodup id).pairwise_of_forall_ne fun a ha b hb hne => ?_
      exact ⟨fun h => hne (tree.eq_of_below_part typed acyclic ha hb h),
        fun h => hne (tree.eq_of_below_part typed acyclic hb ha h).symm⟩
    rw [List.nodup_cons, List.nodup_append]
    refine ⟨fun hid => ?_, ihbelow hparts, ihafter hrest, ?_⟩
    · rcases List.mem_append.mp hid with hid | hid
      · obtain ⟨part, hpart, hcircle⟩ := (hmem hbelow).mp hid
        exact acyclic id (Relation.TransGen.head' (typed.hasPart_iff.mpr hpart) hcircle)
      · obtain ⟨other, hother, habove⟩ := (hmem hafter).mp hid
        exact (hfirst other hother).2 habove
    · rintro x hx y hy rfl
      obtain ⟨part, hpart, hx⟩ := (hmem hbelow).mp hx
      obtain ⟨other, hother, hy⟩ := (hmem hafter).mp hy
      have hid : g.Below id x := Relation.ReflTransGen.head (typed.hasPart_iff.mpr hpart) hx
      rcases tree.below_total typed hid hy with habove | habove
      · exact (hfirst other hother).1 habove
      · exact (hfirst other hother).2 habove

/-- **What is below a node** is listed once. -/
theorem WellFormed.nodup_preorder (wf : g.WellFormed loose) (acyclic : g.Acyclic)
    (h : Preorder g.parts [id] all) : all.Nodup ∧ ∀ other, other ∈ all ↔ g.Below id other := by
  refine ⟨wf.tree.nodup_preorder wf.typed acyclic h (List.pairwise_singleton _ _), fun other => ?_⟩
  rw [h.mem_iff, Below, wf.typed.hasPart_eq]
  simp

end Graph

end ProgramGraph
