import Mathlib.Data.List.Forall2
import Mathlib.Tactic.Common
import ProgramGraph.Graph.Belief

set_option autoImplicit false

/-!
# Preorder

A list of nodes with everything below them, each node before what is below it. What is below a node
is given by a function that lists the next nodes.

## Main definitions

* `ProgramGraph.Preorder` — some nodes and everything below them, in preorder.

## Main results

* `ProgramGraph.exists_mapM_eq_ok`, `ProgramGraph.mapM_eq_ok_iff` — reading a list.
* `ProgramGraph.Preorder.append_iff` — several nodes one after the other.
* `ProgramGraph.Preorder.unique` — there is one preorder.
* `ProgramGraph.Preorder.forall_mem` — what is inherited downwards.
* `ProgramGraph.Preorder.filter` — a part of the nodes, closed upwards.
-/

namespace ProgramGraph

/-! ## Reading lists -/

section Reading

variable {ε α β : Type} {f : α → Except ε β} {l : List α}

/-- Reading a list succeeds if it does so for all elements. -/
theorem exists_mapM_eq_ok {Q : α → β → Prop} (h : ∀ a ∈ l, ∃ b, f a = .ok b ∧ Q a b) :
    ∃ bs, l.mapM f = .ok bs ∧ List.Forall₂ Q l bs := by
  induction l with
  | nil => exact ⟨[], rfl, .nil⟩
  | cons a l ih =>
    obtain ⟨b, hb, hQ⟩ := h a (List.mem_cons_self ..)
    obtain ⟨bs, hbs, hall⟩ := ih fun other hother => h other (List.mem_cons_of_mem _ hother)
    refine ⟨b :: bs, ?_, .cons hQ hall⟩
    rw [List.mapM_cons, hb]
    simp only [bind, Except.bind, hbs]
    rfl

/-- A computation in two steps has an answer if and only if both steps have one. -/
theorem bind_eq_ok_iff {x : Except ε α} {b : β} : (x >>= f) = .ok b ↔ ∃ a, x = .ok a ∧ f a = .ok b := by
  cases x with
  | error fault => exact ⟨fun h => (nomatch h), fun ⟨_, h, _⟩ => (nomatch h)⟩
  | ok a => exact ⟨fun h => ⟨a, rfl, h⟩, fun ⟨_, ha, h⟩ => Except.ok.inj ha ▸ h⟩

/-- **Reading a list** is reading its elements. -/
theorem mapM_eq_ok_iff {bs : List β} : l.mapM f = .ok bs ↔ List.Forall₂ (fun a b => f a = .ok b) l bs := by
  induction l generalizing bs with
  | nil => simp [pure, Except.pure, eq_comm]
  | cons a l ih =>
    simp only [List.mapM_cons, bind_eq_ok_iff, ih, List.forall₂_cons_left_iff, pure, Except.pure,
      Except.ok.injEq]
    constructor
    · rintro ⟨b, hb, rest, hrest, rfl⟩
      exact ⟨b, rest, hb, hrest, rfl⟩
    · rintro ⟨b, rest, hb, hrest, rfl⟩
      exact ⟨b, hb, rest, hrest, rfl⟩

/-- What is read where it is known for all elements. -/
theorem mapM_eq_ok {q : α → β} (h : ∀ a ∈ l, f a = .ok (q a)) : l.mapM f = .ok (l.map q) := by
  obtain ⟨bs, hbs, hall⟩ := exists_mapM_eq_ok (Q := fun a b => q a = b) fun a ha => ⟨q a, h a ha, rfl⟩
  have heq := List.forall₂_map_left_iff.mpr hall
  rw [List.forall₂_eq_eq_eq] at heq
  rw [hbs, heq]

end Reading

/-! ## Preorder -/

/-- Some nodes and everything below them, each node before what is below it. -/
inductive Preorder (next : NodeId → List NodeId) : List NodeId → List NodeId → Prop where
  /-- Nothing. -/
  | nil : Preorder next [] []
  /-- A node, what is below it, and the rest. -/
  | cons {id : NodeId} {rest below after : List NodeId} (hbelow : Preorder next (next id) below)
    (hafter : Preorder next rest after) : Preorder next (id :: rest) (id :: (below ++ after))

namespace Preorder

variable {next next' : NodeId → List NodeId} {ids others all all' : List NodeId}

/-- One list after the other. -/
theorem append (h : Preorder next ids all) (h' : Preorder next others all') :
    Preorder next (ids ++ others) (all ++ all') := by
  induction h with
  | nil => exact h'
  | @cons id rest below after hbelow _ _ ih =>
    rw [List.cons_append, List.cons_append, List.append_assoc]
    exact .cons hbelow ih

/-- The lists of several nodes in a row. -/
theorem flatten {lists : List (List NodeId)}
    (h : List.Forall₂ (fun id all => Preorder next [id] all) ids lists) :
    Preorder next ids lists.flatten := by
  induction h with
  | nil => exact .nil
  | cons hfirst _ ih => exact hfirst.append ih

/-- **Several nodes one after the other.** -/
theorem append_iff : Preorder next (ids ++ others) all ↔
    ∃ before after, all = before ++ after ∧ Preorder next ids before ∧ Preorder next others after := by
  constructor
  · intro h
    induction ids generalizing all with
    | nil => exact ⟨[], all, rfl, .nil, h⟩
    | cons id rest ih =>
      cases h with
      | @cons _ _ below after hbelow hafter =>
        obtain ⟨before, after', rfl, hbefore, hothers⟩ := ih hafter
        refine ⟨id :: (below ++ before), after', ?_, .cons hbelow hbefore, hothers⟩
        rw [List.cons_append, List.append_assoc]
  · rintro ⟨before, after, rfl, hbefore, hafter⟩
    exact hbefore.append hafter

/-- **One preorder.** -/
theorem unique (h : Preorder next ids all) (h' : Preorder next ids all') : all = all' := by
  induction h generalizing all' with
  | nil =>
    cases h'
    rfl
  | cons _ _ ihbelow ihafter =>
    cases h' with
    | cons hbelow hafter => rw [ihbelow hbelow, ihafter hafter]

/-- **What is inherited downwards** holds of everything below nodes of which it holds. -/
theorem forall_mem {Q : NodeId → Prop} (h : Preorder next ids all)
    (hQ : ∀ id part, part ∈ next id → Q id → Q part) (hids : ∀ id ∈ ids, Q id) :
    ∀ id ∈ all, Q id := by
  induction h with
  | nil => exact hids
  | @cons id rest below after _ _ ihbelow ihafter =>
    have hid := hids id (List.mem_cons_self ..)
    have hbelow := ihbelow fun part hpart => hQ id part hpart hid
    have hafter := ihafter fun other hother => hids other (List.mem_cons_of_mem _ hother)
    intro other hother
    rcases List.mem_cons.mp hother with rfl | hother
    · exact hid
    · rcases List.mem_append.mp hother with hother | hother
      · exact hbelow other hother
      · exact hafter other hother

/-- **Part of a preorder.** The nodes with a property that is inherited upwards are in preorder when
the others are left out everywhere.

**Proof sketch.** Induction on the preorder. If a node is left out, all that is below it is left out as well.
-/
theorem filter {P : NodeId → Bool} (h : Preorder next ids all)
    (hP : ∀ id part, part ∈ next id → P part = true → P id = true) :
    Preorder (fun id => (next id).filter P) (ids.filter P) (all.filter P) := by
  induction h with
  | nil => exact .nil
  | @cons id rest below after hbelow _ ihbelow ihafter =>
    rw [List.filter_cons, List.filter_cons, List.filter_append]
    cases hid : P id with
    | true => exact .cons ihbelow ihafter
    | false =>
      have hnone : below.filter P = [] := by
        rw [List.filter_eq_nil_iff]
        have hdown : ∀ whole part, part ∈ next whole → ¬ P whole = true → ¬ P part = true :=
          fun whole part hpart hwhole hpartP => hwhole (hP whole part hpart hpartP)
        refine hbelow.forall_mem hdown fun part hpart => hdown id part hpart ?_
        rw [hid]
        decide
      rw [hnone]
      exact ihafter

/-- The preorder depends on what is below the nodes it meets. -/
theorem congr (h : Preorder next ids all) (hnext : ∀ id ∈ all, next' id = next id) :
    Preorder next' ids all := by
  induction h with
  | nil => exact .nil
  | @cons id rest below after _ _ ihbelow ihafter =>
    have hid := hnext id (List.mem_cons_self ..)
    refine .cons ?_ (ihafter fun other hother => ?_)
    · rw [hid]
      exact ihbelow fun other hother => hnext other (List.mem_cons_of_mem _ (List.mem_append_left _ hother))
    · exact hnext other (List.mem_cons_of_mem _ (List.mem_append_right _ hother))

end Preorder

end ProgramGraph
