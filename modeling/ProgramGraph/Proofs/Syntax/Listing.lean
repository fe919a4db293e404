import Mathlib.Algebra.Group.Nat.Defs
import Mathlib.Data.List.Perm.Subperm
import ProgramGraph.Proofs.Syntax.Preorder
import ProgramGraph.Proofs.Syntax.Tree

set_option autoImplicit false

/-!
# Listing parts in any graph

The parts of a node, in any graph, are listed if and only if they have a preorder and can all be read:
whatever has a preorder is not a part of itself, so it is no deeper than there are nodes.

## Main results

* `ProgramGraph.Preorder.notMem` — what has a preorder is not below itself.
* `ProgramGraph.Graph.subnodes_eq_ok_iff` — what is listed.
* `ProgramGraph.Graph.length_le_of_preorder` — how much is listed down to a depth.
-/

namespace ProgramGraph

namespace Preorder

variable {next : NodeId → List NodeId} {ids all below : List NodeId} {id : NodeId}

/-- What is below a node in a preorder is a shorter preorder. -/
theorem exists_below (h : Preorder next ids all) (hid : id ∈ all) :
    ∃ below, Preorder next (next id) below ∧ below.length < all.length := by
  induction h with
  | nil => exact absurd hid List.not_mem_nil
  | @cons root rest inner after hinner _ ihinner ihafter =>
    simp only [List.length_cons, List.length_append]
    rcases List.mem_cons.mp hid with rfl | hid
    · exact ⟨inner, hinner, by omega⟩
    · rcases List.mem_append.mp hid with hid | hid
      · obtain ⟨below, hbelow, hlt⟩ := ihinner hid
        exact ⟨below, hbelow, by omega⟩
      · obtain ⟨below, hbelow, hlt⟩ := ihafter hid
        exact ⟨below, hbelow, by omega⟩

/-- **No circles.** What has a preorder is not below itself. -/
theorem notMem (h : Preorder next (next id) below) : id ∉ below := by
  intro hid
  obtain ⟨shorter, hshorter, hlt⟩ := h.exists_below hid
  rw [h.unique hshorter] at hlt
  exact absurd hlt (Nat.lt_irrefl _)

end Preorder

namespace Graph

variable {g : Graph} {id : NodeId} {ids all parts above : List NodeId} {depth : Nat}

/-! ## Reading parts -/

/-- Numbers of expressions that can be read have nodes. -/
theorem lt_size_of_expressions (h : g.expressions ids = .ok parts) : ∀ id ∈ ids, id < g.size := by
  induction ids generalizing parts with
  | nil => exact fun _ hid => absurd hid List.not_mem_nil
  | cons first rest ih =>
    rw [expressions, isExpression] at h
    cases hfirst : g.node first with
    | error fault => rw [hfirst] at h; cases h
    | ok node =>
      rw [hfirst] at h
      cases hrest : g.expressions rest with
      | error fault => rw [hrest] at h; cases h
      | ok others => exact List.forall_mem_cons.mpr ⟨lt_size (node_eq_ok.mp hfirst), ih hrest⟩

/-- The parts that are read are the parts. -/
theorem parts_of_children (h : g.children id = .ok parts) : g.parts id = parts := by
  rw [children] at h
  cases hnode : g.node id with
  | error fault => rw [hnode] at h; cases h
  | ok node =>
    rw [hnode] at h
    rw [parts_eq (node_eq_ok.mp hnode)]
    cases hpayload : node.payload with
    | memberAccess base member =>
      simp only [bind, Except.bind, hpayload] at h
      rw [expressions_eq (lt_size_of_expressions h)] at h
      exact Except.ok.inj h
    | _ =>
      simp only [bind, Except.bind, hpayload, pure, Except.pure] at h
      exact Except.ok.inj h

/-- What can be read has a number below the size. -/
theorem lt_size_of_children (h : g.children id = .ok parts) : id < g.size := by
  rw [children] at h
  cases hnode : g.node id with
  | error fault => rw [hnode] at h; cases h
  | ok node => exact lt_size (node_eq_ok.mp hnode)

/-! ## Listing -/

/-- One level of a listing. -/
theorem preorder_succ_eq_ok_iff : g.preorder (depth + 1) id = .ok all ↔
    ∃ lists, g.children id = .ok (g.parts id) ∧
      List.Forall₂ (fun part list => g.preorder depth part = .ok list) (g.parts id) lists ∧
        id :: lists.flatten = all := by
  simp only [preorder, bind_eq_ok_iff, mapM_eq_ok_iff, pure, Except.pure, Except.ok.injEq]
  constructor
  · rintro ⟨parts, hparts, lists, hlists, rfl⟩
    obtain rfl := parts_of_children hparts
    exact ⟨lists, hparts, hlists, rfl⟩
  · rintro ⟨lists, hparts, hlists, rfl⟩
    exact ⟨_, hparts, lists, hlists, rfl⟩

/-- What holds of all that is read from the elements of a list. -/
theorem forall_mem_of_forall₂ {α β : Type} {R : α → β → Prop} {Q : β → Prop} {l : List α} {bs : List β}
    (h : List.Forall₂ R l bs) (hQ : ∀ a b, R a b → Q b) : ∀ b ∈ bs, Q b := by
  induction h with
  | nil => exact fun _ hb => absurd hb List.not_mem_nil
  | cons hab _ ih => exact List.forall_mem_cons.mpr ⟨hQ _ _ hab, ih⟩

/-- What is listed is a preorder of what can be read. -/
theorem preorder_of_eq_ok (h : g.preorder depth id = .ok all) :
    Preorder g.parts [id] all ∧ ∀ sub ∈ all, g.children sub = .ok (g.parts sub) := by
  induction depth generalizing id all with
  | zero => cases h
  | succ depth ih =>
    obtain ⟨lists, hread, hlists, rfl⟩ := preorder_succ_eq_ok_iff.mp h
    have hbelow : Preorder g.parts (g.parts id) lists.flatten :=
      .flatten (hlists.imp fun _ _ hlist => (ih hlist).1)
    refine ⟨by simpa using Preorder.cons hbelow .nil, List.forall_mem_cons.mpr ⟨hread, fun sub hsub => ?_⟩⟩
    obtain ⟨list, hlist, hsub⟩ := List.mem_flatten.mp hsub
    exact forall_mem_of_forall₂ hlists (fun _ _ hpart => (ih hpart).2) list hlist sub hsub

/-- **A preorder is listed** if as many levels are left as there are nodes that are not above it.

**Proof sketch.** Induction on the preorder. The node that is entered is not below itself and not above, so it
can be added to what is above; and as there are no more nodes above than there are nodes, a level is left for
its parts. -/
theorem forall₂_preorder (h : Preorder g.parts ids all)
    (hread : ∀ id ∈ all, g.children id = .ok (g.parts id)) (hnodup : above.Nodup)
    (habove : ∀ id ∈ above, id < g.size ∧ id ∉ all) (hdepth : g.size ≤ above.length + depth) :
    ∃ lists, List.Forall₂ (fun id list => g.preorder depth id = .ok list) ids lists ∧
      lists.flatten = all := by
  induction h generalizing above depth with
  | nil => exact ⟨[], .nil, rfl⟩
  | @cons id rest below after hbelow _ ihbelow ihafter =>
    obtain ⟨hid, hread⟩ := List.forall_mem_cons.mp hread
    obtain ⟨hreadBelow, hreadAfter⟩ := List.forall_mem_append.mp hread
    have hlt := lt_size_of_children hid
    have hnot : id ∉ above := fun hmem => (habove id hmem).2 (List.mem_cons_self ..)
    have hnodup' : (id :: above).Nodup := List.nodup_cons.mpr ⟨hnot, hnodup⟩
    have hroom : (id :: above).length ≤ g.size := by
      have hsubset : id :: above ⊆ List.range g.size := List.cons_subset.mpr
        ⟨List.mem_range.mpr hlt, fun other hother => List.mem_range.mpr (habove other hother).1⟩
      simpa using (List.subperm_of_subset hnodup' hsubset).length_le
    rw [List.length_cons] at hroom
    -- the node is not below itself, so it can be added to what is above
    have hchain : ∀ other ∈ id :: above, other < g.size ∧ other ∉ below := by
      refine List.forall_mem_cons.mpr ⟨⟨hlt, hbelow.notMem⟩, fun other hother => ?_⟩
      refine ⟨(habove other hother).1, fun hmem => (habove other hother).2 ?_⟩
      exact List.mem_cons_of_mem _ (List.mem_append_left _ hmem)
    have hothers : ∀ other ∈ above, other < g.size ∧ other ∉ after := by
      refine fun other hother => ⟨(habove other hother).1, fun hmem => (habove other hother).2 ?_⟩
      exact List.mem_cons_of_mem _ (List.mem_append_right _ hmem)
    obtain ⟨levels, rfl⟩ : ∃ levels, depth = levels + 1 := ⟨depth - 1, by omega⟩
    have hfits : g.size ≤ (id :: above).length + levels := by
      rw [List.length_cons]
      omega
    obtain ⟨lists, hlists, rfl⟩ := ihbelow hreadBelow hnodup' hchain hfits
    obtain ⟨lists', hlists', rfl⟩ := ihafter hreadAfter hnodup hothers hdepth
    exact ⟨(id :: lists.flatten) :: lists',
      .cons (preorder_succ_eq_ok_iff.mpr ⟨lists, hid, hlists, rfl⟩) hlists', rfl⟩

/-- **What is listed** below a node, in any graph: its preorder, if all of it can be read. -/
theorem subnodes_eq_ok_iff : g.subnodes id = .ok all ↔
    Preorder g.parts [id] all ∧ ∀ sub ∈ all, g.children sub = .ok (g.parts sub) := by
  refine ⟨preorder_of_eq_ok, fun ⟨h, hread⟩ => ?_⟩
  have hfits : g.size ≤ ([] : List NodeId).length + (g.size + 1) := by simp
  obtain ⟨lists, hlists, rfl⟩ :=
    forall₂_preorder h hread List.nodup_nil (fun _ hid => absurd hid List.not_mem_nil) hfits
  obtain ⟨list, rest, hlist, hrest, rfl⟩ := List.forall₂_cons_left_iff.mp hlists
  obtain rfl := List.forall₂_nil_left_iff.mp hrest
  simpa [subnodes] using hlist

/-! ## How much is listed -/

/-- Lists that are not longer than a number, one after the other. -/
theorem length_flatten_le {α : Type} {lists : List (List α)} {n : Nat} (h : ∀ list ∈ lists, list.length ≤ n) :
    lists.flatten.length ≤ lists.length * n := by
  induction lists with
  | nil => simp
  | cons list lists ih =>
    obtain ⟨hlist, hlists⟩ := List.forall_mem_cons.mp h
    rw [List.flatten_cons, List.length_append, List.length_cons, Nat.succ_mul, Nat.add_comm]
    exact Nat.add_le_add (ih hlists) hlist

/-- **How much is listed** down to a depth, where no node has more parts than a certain number. -/
theorem length_le_of_preorder {width : Nat}
    (hwidth : ∀ id parts, g.children id = .ok parts → parts.length ≤ width)
    (h : g.preorder depth id = .ok all) : all.length ≤ (width + 1) ^ depth := by
  induction depth generalizing id all with
  | zero => cases h
  | succ depth ih =>
    obtain ⟨lists, hread, hlists, rfl⟩ := preorder_succ_eq_ok_iff.mp h
    have hlengths : ∀ list ∈ lists, list.length ≤ (width + 1) ^ depth :=
      forall_mem_of_forall₂ hlists fun _ _ hlist => ih hlist
    have hpos : 1 ≤ (width + 1) ^ depth := Nat.pow_pos (Nat.succ_pos _)
    calc (id :: lists.flatten).length ≤ lists.length * (width + 1) ^ depth + 1 :=
        Nat.succ_le_succ (length_flatten_le hlengths)
      _ ≤ width * (width + 1) ^ depth + (width + 1) ^ depth :=
        Nat.add_le_add (Nat.mul_le_mul_right _ (hlists.length_eq ▸ hwidth id _ hread)) hpos
      _ = (width + 1) ^ (depth + 1) := by rw [Nat.pow_succ, Nat.mul_comm, ← Nat.mul_succ]

end Graph

end ProgramGraph
