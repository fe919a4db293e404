import ProgramGraph.Proofs.Syntax.Frame
import ProgramGraph.Proofs.Syntax.Preorder
import ProgramGraph.Proofs.Walks.Underway

set_option autoImplicit false

/-!
# The nodes a walk visits

Any handler can keep a log of the nodes it is called for, which changes nothing else. So the nodes that
were visited, of which the invariants of walks speak, can be read off a walk. Where the handler leaves
the syntax tree alone, they are the nodes below the roots, in preorder.

## Main definitions

* `ProgramGraph.Handler.logged` — a handler that keeps a log.
* `ProgramGraph.Handler.Reads` — a handler that leaves the syntax tree alone.

## Main results

* `ProgramGraph.exists_walkAll_logged`, `ProgramGraph.walkAll_of_logged` — keeping a log changes nothing
  else.
* `ProgramGraph.Walk.Keeps.logged` — the log holds the nodes that were visited.
* `ProgramGraph.walkAll_of_reads` — the log of a walk that leaves the syntax tree alone.
-/

namespace ProgramGraph

variable {σ : Type} {handler : Handler σ}

/-- A handler that keeps a log of the nodes it is called for. -/
def Handler.logged (handler : Handler σ) : Handler (σ × List NodeId) :=
  fun table visit g (carried, log) => do
    let (g, carried) ← handler table visit g carried
    return (g, carried, log ++ [visit.node])

/-! ## Keeping a log -/

namespace Walk

/-- A walk under way with the log of what it visited. -/
def State.logging (s : State σ) (log : List NodeId) : State (σ × List NodeId) where
  todo := s.todo
  scopes := s.scopes
  recordTypes := s.recordTypes
  table := s.table
  graph := s.graph
  carried := (s.carried, log)

/-- A visit adds the node to the log. -/
theorem visit_logged (s : State σ) (log : List NodeId) (id : NodeId) (todo : List Step) :
    visit handler.logged (s.logging log) id todo =
      (visit handler s id todo).map fun s' => s'.logging (log ++ [id]) := by
  obtain ⟨_, scopes, types, table, graph, carried⟩ := s
  rw [visit_def, visit_def]
  simp only [State.logging, State.place, Handler.logged, bind, Except.bind]
  cases graph.node id with
  | error fault => rfl
  | ok node =>
    dsimp only
    cases handler (note table ⟨scopes, types⟩ id node) (visitOf ⟨scopes, types⟩ id node) graph carried with
    | error fault => rfl
    | ok after =>
      dsimp only [pure, Except.pure]
      cases after.1.children id <;> rfl

/-- A step adds what it visits to the log. -/
theorem exists_advance_logged (s : State σ) (log : List NodeId) :
    ∃ log', advance handler.logged (s.logging log) =
      (advance handler s).map fun s' => s'.logging log' := by
  unfold advance
  cases htodo : s.todo with
  | nil => exact ⟨log, by simp [State.logging, htodo, Except.map]⟩
  | cons step todo =>
    cases step with
    | enter id => exact ⟨log ++ [id], by simpa [State.logging, htodo] using visit_logged s log id todo⟩
    | leave scope recordType => exact ⟨log, by simp [State.logging, htodo, Except.map, close]⟩

/-- Keeping a log changes nothing else in a run.

**Proof sketch.** Induction on the steps: the log does not influence what is done. -/
theorem exists_run_logged (n : Nat) (s : State σ) (log : List NodeId) :
    ∃ log', run handler.logged n (s.logging log) =
      (run handler n s).map fun s' => s'.logging log' := by
  induction n generalizing s log with
  | zero =>
    refine ⟨log, ?_⟩
    unfold run
    change (if s.todo.isEmpty then _ else _) = _
    split <;> rfl
  | succ n ih =>
    unfold run
    change ∃ log', (if s.todo.isEmpty then _ else _) = _
    split
    · exact ⟨log, rfl⟩
    · obtain ⟨log', hstep⟩ := exists_advance_logged s log
      rw [hstep]
      cases hadvance : advance handler s with
      | error fault => exact ⟨log, rfl⟩
      | ok s' => exact ih s' log'

/-- **The log of a walk** with an invariant holds the nodes that were visited. -/
theorem Keeps.logged {bound : Nat} {I : List NodeId → List NodeId → State σ → Prop}
    (keeps : Keeps handler bound I) :
    Keeps handler.logged bound fun V rest s => ∃ s₀, s = s₀.logging V ∧ I V rest s₀ where
  enter {V rest s id todo} h htodo := by
    obtain ⟨s₀, rfl, h⟩ := h
    obtain ⟨node, parts, graph, carried, hvisit, hnext⟩ := keeps.enter h htodo
    refine ⟨node, parts, graph, (carried, V ++ [id]), ?_, _, rfl, hnext⟩
    rw [visit_logged, hvisit]
    rfl
  leave {V rest s scope recordType todo} h htodo := by
    obtain ⟨s₀, rfl, h⟩ := h
    exact ⟨_, rfl, keeps.leave h htodo⟩
  next {V root rest s} h htodo := by
    obtain ⟨s₀, rfl, h⟩ := h
    exact ⟨_, rfl, keeps.next h htodo⟩
  visits h := by
    obtain ⟨s₀, -, h⟩ := h
    exact keeps.visits h
  steps {V rest s} h := by
    obtain ⟨s₀, rfl, h⟩ := h
    exact keeps.steps h

end Walk

/-- Keeping a log changes nothing else in a walk. -/
theorem exists_walk_logged (handler : Handler σ) (root : NodeId) (table : ScopeTable) (g : Graph)
    (carried : σ) (log : List NodeId) :
    ∃ log', walk handler.logged root table g (carried, log) =
      (walk handler root table g carried).map fun (t, g, c) => (t, g, c, log') := by
  obtain ⟨log', hrun⟩ := Walk.exists_run_logged (Walk.stepBound g)
    { todo := [.enter root], table, graph := g, carried } log
  refine ⟨log', ?_⟩
  rw [Walk.State.logging] at hrun
  rw [walk, walk, hrun]
  cases Walk.run handler (Walk.stepBound g) _ <;> rfl

/-- **Keeping a log** changes nothing else. -/
theorem exists_walkAll_logged (handler : Handler σ) (table : ScopeTable) (g : Graph) (carried : σ)
    (log roots : List NodeId) :
    ∃ log', walkAll handler.logged table g (carried, log) roots =
      (walkAll handler table g carried roots).map fun (t, g, c) => (t, g, c, log') := by
  induction roots generalizing table g carried log with
  | nil => exact ⟨log, rfl⟩
  | cons root rest ih =>
    obtain ⟨log', hwalk⟩ := exists_walk_logged handler root table g carried log
    rw [walkAll, walkAll, hwalk]
    cases walk handler root table g carried with
    | error fault => exact ⟨log, rfl⟩
    | ok after => exact ih after.1 after.2.1 after.2.2 log'

/-- A walk without its log. -/
theorem walkAll_of_logged {table t : ScopeTable} {g g' : Graph} {carried c : σ} {log log' roots : List NodeId}
    (h : walkAll handler.logged table g (carried, log) roots = .ok (t, g', c, log')) :
    walkAll handler table g carried roots = .ok (t, g', c) := by
  obtain ⟨log'', hlogged⟩ := exists_walkAll_logged handler table g carried log roots
  rw [h] at hlogged
  cases hwalk : walkAll handler table g carried roots with
  | error fault => simp [hwalk, Except.map] at hlogged
  | ok after =>
    rw [hwalk] at hlogged
    simp only [Except.map, Except.ok.injEq, Prod.mk.injEq] at hlogged
    obtain ⟨rfl, rfl, rfl, -⟩ := hlogged
    rfl

/-- A walk from one root. -/
theorem walkAll_singleton (handler : Handler σ) (root : NodeId) (table : ScopeTable) (g : Graph)
    (carried : σ) : walkAll handler table g carried [root] = walk handler root table g carried := by
  rw [walkAll]
  cases walk handler root table g carried <;> rfl

/-! ## Walks that leave the tree alone -/

/-- A handler that fails at no node and leaves the syntax tree alone. -/
def Handler.Reads (handler : Handler σ) : Prop :=
  ∀ table visit g carried, visit.node < g.size →
    ∃ g' carried', handler table visit g carried = .ok (g', carried') ∧ g.SameTree g'

namespace Walk

/-- A walk that leaves the tree of a graph alone and follows the preorder below some roots. -/
structure Touring (g : Graph) (roots V rest : List NodeId) (s : State σ) : Prop where
  /-- The walk is under way. -/
  walk : Underway 0 V rest s
  /-- The tree stays. -/
  same : g.SameTree s.graph
  /-- What was visited begins the preorder. -/
  preorder : ∀ after, Preorder g.parts (entered s.todo ++ rest) after →
    Preorder g.parts roots (V ++ after)

/-- The invariant of a walk that leaves the tree alone.

**Proof sketch.** The handler leaves all parts in their places, so the preorder of the roots at the start is
still that of the graph at every visit. -/
theorem touring_keeps (reads : handler.Reads) (g : Graph) (roots : List NodeId) :
    Keeps handler g.size (Touring g roots) where
  enter {V rest s id todo} h htodo := by
    obtain ⟨-, node, hnode⟩ := h.walk.stands htodo
    obtain ⟨graph, carried, hhandler, hsame⟩ := reads (note s.table s.place id node)
      (visitOf s.place id node) s.graph s.carried (Graph.lt_size hnode)
    have wf' := hsame.wellFormed h.walk.wellFormed
    obtain ⟨node', hnode', -⟩ := hsame.exists_node hnode
    refine ⟨node, graph.parts id, graph, carried,
      visit_eq hnode hhandler (wf'.typed.children_eq hnode'), ?_, h.same.trans hsame,
      preorder_visited h.preorder htodo ((h.same.trans hsame).parts id)⟩
    exact h.walk.visit htodo (.of_sameTree 0 hsame) (fun w _ part hpart => by rwa [hsame.parts w]) wf'
      hnode carried
  leave {V rest s scope recordType todo} h htodo := by
    refine ⟨h.walk.leave htodo, h.same, ?_⟩
    have := h.preorder
    rwa [htodo] at this
  next {V root rest s} h htodo := by
    refine ⟨h.walk.next htodo, h.same, ?_⟩
    have := h.preorder
    rwa [htodo] at this
  visits {V rest s} h := by
    have := h.walk.length_le
    rwa [h.same.size] at this
  steps {V rest s} h := by
    have := le_stepBound s.graph
    rw [h.same.size] at this
    omega

end Walk

/-- **A walk that leaves the tree alone** ends, and visits the nodes below its roots in preorder. -/
theorem walkAll_of_reads {g : Graph} (wf : g.WellFormed []) (reads : handler.Reads) {roots : List NodeId}
    (hroots : ∀ root ∈ roots, root ∈ g.units) (hnodup : roots.Nodup) (table : ScopeTable) (carried : σ) :
    ∃ t g' c V, walkAll handler.logged table g (carried, []) roots = .ok (t, g', c, V) ∧
      Preorder g.parts roots V := by
  have hstart : Walk.Touring g roots [] roots { todo := [], table, graph := g, carried } := by
    refine ⟨⟨wf, ⟨rfl, rfl⟩, hnodup, fun _ h => absurd h List.not_mem_nil, hroots,
      fun _ h => absurd h List.not_mem_nil, fun id _ => ?_, fun _ h => absurd h List.not_mem_nil⟩,
      .refl g, fun after hafter => hafter⟩
    exact Or.inr (Or.inr (Or.inr (Nat.zero_le id)))
  obtain ⟨V, s, hwalk, htodo, s₀, rfl, hend⟩ :=
    (Walk.touring_keeps reads g roots).logged.walkAll ⟨_, rfl, hstart⟩ rfl
  refine ⟨_, _, _, V, hwalk, ?_⟩
  have hpreorder := hend.preorder [] (by
    rw [show s₀.todo = [] from htodo]
    exact .nil)
  rwa [List.append_nil] at hpreorder

end ProgramGraph
