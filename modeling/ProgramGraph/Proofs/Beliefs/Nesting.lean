import ProgramGraph.Proofs.Beliefs.Forwarding

set_option autoImplicit false

/-!
# Operations inside operations

A follower that is told of a change carries out an operation of its own, whose consequences are all in
place before the next listener is told. So an operation contains others, which contain others in turn.
Deliveries are made from a stack of notices that knows nothing of this nesting; here the nesting is
brought out, and with it the operations that were carried out on the way.

## Main definitions

* `ProgramGraph.Graph.asks` — the operation that a follower carries out when it is told.
* `ProgramGraph.Graph.Invocation` — an operation, and the graph that it is carried out on.
* `ProgramGraph.Graph.Telling` — listeners are told, each with all consequences.
* `ProgramGraph.Graph.Performs` — an operation with all operations inside it.

## Main results

* `ProgramGraph.Graph.Settles.split` — deliveries from a stack are made part by part.
* `ProgramGraph.Graph.exists_performs` — every operation contains finitely many others, and leaves behind
  what is left when all of them are done.
* `ProgramGraph.Graph.Performs.unique` — which they are is determined.
* `ProgramGraph.Graph.isRefinement_of_asks` — all but the first of them are refinements.
-/

namespace ProgramGraph.Graph

variable {g next last last' : Graph} {id x : NodeId} {b : Belief} {f : Belief → Belief} {notice : Notice}
  {first pending rest : List Notice} {c : Call} {n : Nat}

/-- The operation that a follower carries out when it is told; a recorder carries out none. -/
def asks (g : Graph) (notice : Notice) : Option Call :=
  match notice.listener.reaction, notice.former with
  | .follow target, .type _ => some (.observe target (g.typeOf notice.source))
  | .follow target, .observed _ => some (.widen target (g.observedAt notice.source).observations)
  | .record _, _ => none

/-- A recorder has made its entry. -/
def noted (g : Graph) (notice : Notice) : Graph := { g with journal := g.journal.push (g.eventOf notice) }

/-- An operation, and the graph that it is carried out on. -/
structure Invocation where
  /-- The graph before. -/
  graph : Graph
  /-- The operation. -/
  call : Call

/-- Listeners are told, one after the other, and each of them with all consequences. Listed are the
operations that are carried out, each of them before those that it contains. -/
inductive Telling : Graph → List Notice → List Invocation → Graph → Prop where
  /-- Nobody is left to be told. -/
  | done (g : Graph) : Telling g [] [] g
  /-- A recorder makes its entry. -/
  | record {g last : Graph} {notice : Notice} {rest : List Notice} {calls : List Invocation}
    (h : g.asks notice = none) (others : Telling (g.noted notice) rest calls last) :
    Telling g (notice :: rest) calls last
  /-- A follower carries out an operation. -/
  | follow {g next last : Graph} {notice : Notice} {rest : List Notice} {c : Call}
    {inner calls : List Invocation} (h : g.asks notice = some c)
    (inside : Telling (c.opening g).1 (c.opening g).2 inner next) (others : Telling next rest calls last) :
    Telling g (notice :: rest) (⟨g, c⟩ :: inner ++ calls) last

/-- An operation is carried out, with all operations inside it: its own change first, and then whatever
is done by those who are told of it. -/
inductive Performs (g : Graph) (c : Call) : List Invocation → Graph → Prop where
  | intro {inner : List Invocation} {last : Graph}
    (inside : Telling (c.opening g).1 (c.opening g).2 inner last) : Performs g c (⟨g, c⟩ :: inner) last

/-! ## One delivery -/

/-- **Telling a follower** is the opening of its operation. -/
theorem deliver_of_asks (h : g.asks notice = some c) : g.deliver notice = c.opening g := by
  obtain ⟨source, ⟨key, reaction⟩, former⟩ := notice
  cases reaction with
  | follow target => cases former <;> (obtain rfl := Option.some.inj h; rfl)
  | record owner => cases h

/-- **Telling a recorder** has no consequences. -/
theorem deliver_of_asks_eq_none (h : g.asks notice = none) : g.deliver notice = (g.noted notice, []) := by
  obtain ⟨source, ⟨key, reaction⟩, former⟩ := notice
  cases reaction with
  | follow target => cases former <;> cases h
  | record owner => rfl

/-! ## From the stack to the nesting -/

/-- **Deliveries part by part.** The notices on top of a stack are delivered, with their consequences,
before those below. -/
theorem Settles.split (h : Settles g (first ++ rest) n last) :
    ∃ mid k m, Settles g first k mid ∧ Settles mid rest m last ∧ k + m = n := by
  generalize hpending : first ++ rest = pending at h
  induction h generalizing first with
  | done g =>
    obtain ⟨rfl, rfl⟩ := List.append_eq_nil_iff.mp hpending
    exact ⟨g, 0, 0, .done g, .done g, rfl⟩
  | @tell g next last notice consequences below n hdeliver hsettles ih =>
    cases first with
    | nil =>
      obtain rfl : rest = notice :: below := hpending
      exact ⟨g, 0, n + 1, .done g, .tell hdeliver hsettles, Nat.zero_add _⟩
    | cons top first =>
      obtain ⟨rfl, rfl⟩ := List.cons.inj hpending
      obtain ⟨mid, k, m, hfirst, hrest, hsum⟩ := @ih (consequences ++ first) (List.append_assoc ..)
      exact ⟨mid, k + 1, m, .tell hdeliver hfirst, hrest, by omega⟩

/-- Deliveries from a stack are nested operations.

**Proof sketch.** Strong induction on the number of deliveries. Delivering the consequences of the first
notice and then the others splits the run in two shorter ones (`Settles.split`); the first is the operation
that the notice asks for. -/
theorem Settles.exists_telling (h : Settles g pending n last) : ∃ calls, Telling g pending calls last := by
  induction n using Nat.strong_induction_on generalizing g pending last with
  | _ n ih =>
    cases h with
    | done => exact ⟨[], .done g⟩
    | @tell _ next _ notice consequences rest n hdeliver hsettles =>
      cases hasks : g.asks notice with
      | none =>
        obtain ⟨rfl, rfl⟩ := Prod.mk.inj ((deliver_of_asks_eq_none hasks).symm.trans hdeliver)
        obtain ⟨calls, hcalls⟩ := ih n (by omega) hsettles
        exact ⟨calls, .record hasks hcalls⟩
      | some c =>
        have hopening := (deliver_of_asks hasks).symm.trans hdeliver
        obtain ⟨mid, k, m, hinner, hrest, hsum⟩ := hsettles.split
        obtain ⟨inner, hinner⟩ := ih k (by omega) hinner
        obtain ⟨calls, hcalls⟩ := ih m (by omega) hrest
        have hinside : Telling (c.opening g).1 (c.opening g).2 inner mid := by
          rw [hopening]
          exact hinner
        exact ⟨_, .follow hasks hinside hcalls⟩

/-- What is carried out when listeners are told is determined.

**Proof sketch.** Induction on one of the two. What a notice asks for is a function of the graph, so the other
is of the same form. -/
theorem Telling.unique {calls calls' : List Invocation} (h : Telling g pending calls last)
    (h' : Telling g pending calls' last') : calls' = calls ∧ last' = last := by
  induction h generalizing calls' last' with
  | done g =>
    cases h'
    exact ⟨rfl, rfl⟩
  | record hasks _ ih =>
    cases h' with
    | record _ others => exact ih others
    | follow hasks' => exact absurd (hasks.symm.trans hasks') (by simp)
  | follow hasks _ _ ihinside ihothers =>
    cases h' with
    | record hasks' => exact absurd (hasks'.symm.trans hasks) (by simp)
    | follow hasks' inside others =>
      obtain rfl := Option.some.inj (hasks.symm.trans hasks')
      obtain ⟨rfl, rfl⟩ := ihinside inside
      obtain ⟨rfl, rfl⟩ := ihothers others
      exact ⟨rfl, rfl⟩

/-- **Every operation is carried out** with finitely many others inside it, and what it returns is what
is left when all of them are done. -/
theorem exists_performs (g : Graph) (c : Call) : ∃ calls, Performs g c calls (c.run g) := by
  obtain ⟨n, -, hsettles⟩ := (call_settles g c).2
  obtain ⟨inner, hinner⟩ := hsettles.exists_telling
  exact ⟨_, .intro hinner⟩

/-- **The operations inside an operation** are determined. -/
theorem Performs.unique {calls calls' : List Invocation} (h : Performs g c calls last)
    (h' : Performs g c calls' last') : calls' = calls ∧ last' = last := by
  cases h with
  | intro inside =>
    cases h' with
    | intro inside' =>
      obtain ⟨rfl, rfl⟩ := inside.unique inside'
      exact ⟨rfl, rfl⟩

/-! ## Refinements -/

/-- The node that an operation is about. -/
def Call.node : Call → NodeId
  | observe id _ | widen id _ | pin id _ | subscribe id _ | rebroadcast id => id

/-- An observation, or a widening. -/
def Call.IsRefinement : Call → Prop
  | observe .. | widen .. => True
  | _ => False

/-- What a refinement does to the belief of its node. -/
def Call.change : Call → Belief → Belief
  | observe _ o, b => b.observe o
  | widen _ os, b => b.widen os
  | _, b => b

/-- What refines one belief. -/
theorem Call.opening_eq (g : Graph) (h : c.IsRefinement) : c.opening g = g.refine c.node c.change := by
  cases c <;> first | rfl | exact h.elim

/-- What a call changes of a belief leaves the listeners as they are. -/
theorem Call.listeners_change (c : Call) (b : Belief) : (c.change b).listeners = b.listeners := by
  cases c <;> first | exact b.listeners_observe _ | exact b.listeners_widen _ | rfl

/-- What a call changes of a belief lets it rise. -/
theorem Call.rises_change (c : Call) (b : Belief) : b.Rises (c.change b) := by
  cases c <;> first | exact b.rises_observe _ | exact b.rises_widen _ | exact .refl b

/-- Followers refine their nodes. -/
theorem isRefinement_of_asks (h : g.asks notice = some c) :
    c.IsRefinement ∧ notice.listener.reaction = .follow c.node := by
  obtain ⟨source, ⟨key, reaction⟩, former⟩ := notice
  cases reaction with
  | follow target => cases former <;> (obtain rfl := Option.some.inj h; exact ⟨trivial, rfl⟩)
  | record owner => cases h

/-- A refinement leaves all listeners where they are. -/
theorem listenersAt_refine (hlisteners : ∀ b, (f b).listeners = b.listeners) (x id : NodeId) :
    (g.refine x f).1.listenersAt id = g.listenersAt id := by
  unfold listenersAt
  rw [belief?_refine]
  by_cases hx : x = id
  · rw [if_pos hx]
    cases g.belief? id with
    | none => rfl
    | some b => exact hlisteners b
  · rw [if_neg hx]

/-- A refinement makes no entries. -/
theorem journal_refine (g : Graph) (x : NodeId) (f : Belief → Belief) :
    (g.refine x f).1.journal = g.journal := by
  unfold refine
  cases g.belief? x <;> rfl

/-- Whom a refinement gives notice: the listeners of the node, but not those that act for it. -/
theorem mem_refine (hlisteners : ∀ b, (f b).listeners = b.listeners) (h : notice ∈ (g.refine x f).2) :
    notice.source = x ∧ notice.listener ∈ g.listenersAt x ∧ notice.listener.owner ≠ some x := by
  cases hb : g.belief? x with
  | none =>
    rw [refine, hb] at h
    exact absurd h List.not_mem_nil
  | some b =>
    rw [refine_eq hb] at h
    have haudience : notice.source = x ∧ notice.listener ∈ (f b).audience x := by
      unfold Belief.announceRefined Belief.announce at h
      rcases List.mem_append.mp h with h | h <;> split at h <;>
        first
        | exact absurd h List.not_mem_nil
        | (obtain ⟨_, hmem, rfl⟩ := List.mem_map.mp h; exact ⟨rfl, hmem⟩)
    obtain ⟨hlistens, howner⟩ := List.mem_filter.mp haudience.2
    rw [hlisteners, ← listenersAt_eq hb] at hlistens
    exact ⟨haudience.1, hlistens, by simpa using howner⟩

/-- Listeners stay what they are while others are told. -/
theorem Telling.listenersAt {calls : List Invocation} (h : Telling g pending calls last) (id : NodeId) :
    last.listenersAt id = g.listenersAt id := by
  induction h with
  | done => rfl
  | record _ _ ih => exact ih
  | @follow g _ _ _ _ c _ _ hasks _ _ ihinside ihothers =>
    rw [ihothers, ihinside, c.opening_eq g (isRefinement_of_asks hasks).1,
      listenersAt_refine c.listeners_change]

end ProgramGraph.Graph
