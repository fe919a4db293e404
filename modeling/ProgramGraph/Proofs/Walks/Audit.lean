import ProgramGraph.Proofs.Walks.Run
import ProgramGraph.Resolution.Index

set_option autoImplicit false

/-!
# Looking for numbers without nodes

Numbers of nodes are held in many places: in the list of units, in the index by name, in payloads, by
listeners, and during a resolution in the index of declared types. An audit looks through all of them for
a number that no node has, and whether any such number was ever written to. A walk can be audited at every
visit, before and after the handler is called; if every audit of a walk is passed, the walk comes to what
it comes to without them.

## Main definitions

* `ProgramGraph.Graph.held`, `ProgramGraph.Index.held` — the numbers that a graph and an index hold.
* `ProgramGraph.audit` — fails if one of them has no node, or if something else was written to.
* `ProgramGraph.Handler.audited` — a handler between two audits.

## Main results

* `ProgramGraph.audit_eq_ok_iff` — an audit is passed if and only if all numbers have nodes.
* `ProgramGraph.audit_modify` — a write to a number without a node does not pass an audit.
* `ProgramGraph.Walk.Keeps.audited` — a walk passes its audits if an invariant says so.
* `ProgramGraph.walkAll_of_audited` — audits that are passed change nothing.
-/

namespace ProgramGraph

/-! ## Numbers that are held -/

/-- The values of a map. -/
def Assoc.values {κ ν : Type} [DecidableEq κ] (m : Assoc κ ν) : List ν := m.keys.filterMap m.get?

/-- The values are found under some key. -/
theorem Assoc.mem_values_iff {κ ν : Type} [DecidableEq κ] {m : Assoc κ ν} {value : ν} :
    value ∈ m.values ↔ ∃ key, m.get? key = some value := by
  rw [Assoc.values, List.mem_filterMap]
  exact ⟨fun ⟨key, _, h⟩ => ⟨key, h⟩, fun ⟨key, h⟩ => ⟨key, Assoc.mem_keys_iff.mpr ⟨value, h⟩, h⟩⟩

/-- The numbers that a payload holds: those of the parts, and those of what is meant. -/
def Payload.held (payload : Payload) : List NodeId :=
  payload.parts ++ match payload with
    | .record body => body.self.toList
    | .reference target _ => target.toList
    | .memberAccess base member => base :: member.toList
    | _ => []

/-- The node that a listener carries the type over to. -/
def Listener.target? (l : Listener) : Option NodeId :=
  match l.reaction with
  | .follow target => some target
  | .record _ => none

/-- The numbers that a graph holds: those of its units, those listed by name, those in its payloads, and
those of nodes that follow others. -/
def Graph.held (g : Graph) : List NodeId :=
  g.units ++ g.names.values.flatten ++ g.nodes.toList.flatMap fun node => node.payload.held ++
    (node.belief.toList.flatMap Belief.listeners).filterMap Listener.target?

/-- The numbers listed by name are found by their names. -/
theorem NameIndex.mem_values_flatten_iff {index : NameIndex} {id : NodeId} :
    id ∈ index.values.flatten ↔ ∃ name, id ∈ index.under name := by
  simp only [List.mem_flatten, Assoc.mem_values_iff, under]
  constructor
  · rintro ⟨ids, ⟨name, hname⟩, hid⟩
    exact ⟨name, by rwa [hname]⟩
  · rintro ⟨name, hid⟩
    cases hname : index.get? name with
    | none => exact absurd (hname ▸ hid) List.not_mem_nil
    | some ids => exact ⟨ids, ⟨name, hname⟩, by rwa [hname] at hid⟩

/-- The numbers that an index holds. -/
def Index.held (index : Index) : List NodeId :=
  index.records.values ++ index.enums.values ++ index.dummies.values ++ index.placeholderUnit.toList

/-- The numbers in an index are those of declared types, of fields that stand in for members, and of the
unit for made-up declarations. -/
theorem Index.mem_held_iff {index : Index} {id : NodeId} : id ∈ index.held ↔
    (∃ type, index.record? type = some id) ∨ (∃ type, index.enum? type = some id) ∨
      (∃ key, index.dummies.get? key = some id) ∨ index.placeholderUnit = some id := by
  simp only [Index.held, List.mem_append, Assoc.mem_values_iff, Option.mem_toList, or_assoc]
  rfl

/-! ## Audits -/

/-- Fails if a number without a node was written to, or if such a number is held. -/
def audit (g : Graph) (index : Index) : Except Fault Unit := do
  let g ← g.checked
  match (g.held ++ index.held).find? (g.size ≤ ·) with
  | some id => throw (.dangling id)
  | none => return ()

/-- **An audit is passed** if and only if nothing but nodes was written to and all numbers that are held
have nodes. -/
theorem audit_eq_ok_iff {g : Graph} {index : Index} : audit g index = .ok () ↔
    g.fault = none ∧ (∀ id ∈ g.held, id < g.size) ∧ ∀ id ∈ index.held, id < g.size := by
  have hnone : (g.held ++ index.held).find? (g.size ≤ ·) = none ↔
      ∀ id ∈ g.held ++ index.held, id < g.size := by
    simp only [List.find?_eq_none, decide_eq_true_eq, Nat.not_le]
  rw [← List.forall_mem_append, ← hnone, audit, Graph.checked]
  cases g.fault with
  | some fault => simp [bind, Except.bind]
  | none =>
    simp only [bind, Except.bind]
    cases (g.held ++ index.held).find? (g.size ≤ ·) with
    | some id => simp [throw, throwThe, MonadExceptOf.throw]
    | none => exact iff_of_true rfl ⟨trivial, rfl⟩

/-- **A write to a number without a node** does not pass an audit. -/
theorem audit_modify {g : Graph} {id : NodeId} (h : g.size ≤ id) (f : Node → Node) (index : Index) :
    audit (g.modify id f) index ≠ .ok () := by
  obtain ⟨fault, hfault⟩ := Graph.checked_modify h f
  rw [audit, hfault]
  nofun

/-- A handler between two audits. -/
def Handler.audited (handler : Handler Index) : Handler Index := fun table visit g index => do
  audit g index
  let (g, index) ← handler table visit g index
  audit g index
  return (g, index)

variable {handler : Handler Index}

/-- A handler whose audits are passed. -/
theorem audited_eq_ok_iff {t : ScopeTable} {visit : Visit} {g g' : Graph} {index index' : Index} :
    handler.audited t visit g index = .ok (g', index') ↔ audit g index = .ok () ∧
      handler t visit g index = .ok (g', index') ∧ audit g' index' = .ok () := by
  simp only [Handler.audited, bind_eq_ok_iff, pure, Except.pure, Except.ok.injEq]
  constructor
  · rintro ⟨_, hbefore, ⟨_, _⟩, hhandler, _, hafter, heq⟩
    obtain ⟨rfl, rfl⟩ := Prod.mk.inj heq
    exact ⟨hbefore, hhandler, hafter⟩
  · rintro ⟨hbefore, hhandler, hafter⟩
    exact ⟨(), hbefore, (g', index'), hhandler, (), hafter, rfl⟩

namespace Walk

variable {s s' : State Index} {id : NodeId} {todo : List Step}

/-- A visit whose audits are passed. -/
theorem visit_audited_eq_ok_iff : visit handler.audited s id todo = .ok s' ↔
    audit s.graph s.carried = .ok () ∧ visit handler s id todo = .ok s' ∧
      audit s'.graph s'.carried = .ok () := by
  rw [visit_eq_ok_iff, visit_eq_ok_iff]
  constructor
  · rintro ⟨node, parts, graph, carried, hnode, hhandler, hparts, rfl⟩
    obtain ⟨hbefore, hhandler, hafter⟩ := audited_eq_ok_iff.mp hhandler
    exact ⟨hbefore, ⟨node, parts, graph, carried, hnode, hhandler, hparts, rfl⟩, hafter⟩
  · rintro ⟨hbefore, ⟨node, parts, graph, carried, hnode, hhandler, hparts, rfl⟩, hafter⟩
    exact ⟨node, parts, graph, carried, hnode, audited_eq_ok_iff.mpr ⟨hbefore, hhandler, hafter⟩, hparts,
      rfl⟩

/-- A run whose audits are passed.

**Proof sketch.** Induction on the steps: an audited visit that is passed does what the visit does. -/
theorem run_of_audited {n : Nat} (h : run handler.audited n s = .ok s') : run handler n s = .ok s' := by
  induction n generalizing s with
  | zero => exact h
  | succ n ih =>
    unfold run at h ⊢
    split
    · next hdone => rwa [if_pos hdone] at h
    · next hdone =>
      rw [if_neg hdone] at h
      cases htodo : s.todo with
      | nil => simp [htodo] at hdone
      | cons step todo =>
        simp only [advance, htodo] at h ⊢
        cases step with
        | leave scope recordType => exact ih h
        | enter id =>
          dsimp only at h ⊢
          cases hvisit : visit handler.audited s id todo with
          | error fault =>
            rw [hvisit] at h
            cases h
          | ok next =>
            rw [hvisit] at h
            rw [(visit_audited_eq_ok_iff.mp hvisit).2.1]
            exact ih h

/-- **A walk passes its audits** if its invariant says that no number dangles. -/
theorem Keeps.audited {bound : Nat} {I : List NodeId → List NodeId → State Index → Prop}
    (keeps : Keeps handler bound I)
    (passes : ∀ {V rest s}, I V rest s → audit s.graph s.carried = .ok ()) :
    Keeps handler.audited bound I where
  enter h htodo := by
    obtain ⟨node, parts, graph, carried, hvisit, hnext⟩ := keeps.enter h htodo
    exact ⟨node, parts, graph, carried,
      visit_audited_eq_ok_iff.mpr ⟨passes h, hvisit, passes hnext⟩, hnext⟩
  leave := keeps.leave
  next := keeps.next
  visits := keeps.visits
  steps := keeps.steps

end Walk

/-- **Audits that are passed** change nothing. -/
theorem walkAll_of_audited {t : ScopeTable} {g : Graph} {index : Index} {roots : List NodeId}
    {result : ScopeTable × Graph × Index} (h : walkAll handler.audited t g index roots = .ok result) :
    walkAll handler t g index roots = .ok result := by
  induction roots generalizing t g index with
  | nil => exact h
  | cons root rest ih =>
    rw [walkAll, walk] at h ⊢
    cases hrun : Walk.run handler.audited (Walk.stepBound g)
        { todo := [.enter root], table := t, graph := g, carried := index } with
    | error fault =>
      rw [hrun] at h
      cases h
    | ok last =>
      rw [hrun] at h
      rw [Walk.run_of_audited hrun]
      exact ih h

end ProgramGraph
