import ProgramGraph.Proofs.Syntax.Preorder
import ProgramGraph.Proofs.Syntax.Typing
import ProgramGraph.Scope.Walk

set_option autoImplicit false

/-!
# Runs of a walk

A walk is followed by an invariant over what was visited so far, which roots are still to come and
what is under way. If a visit never fails while the invariant holds and keeps it, and no more nodes
than a bound are ever visited, then the walk ends with the invariant.

## Main definitions

* `ProgramGraph.Walk.entered` — the nodes that are still to be visited.
* `ProgramGraph.Walk.note` — what a visit enters into the table of scopes.
* `ProgramGraph.Walk.Keeps` — an invariant of a walk.

## Main results

* `ProgramGraph.Walk.visit_def`, `ProgramGraph.Walk.visit_eq`, `ProgramGraph.Walk.visit_eq_ok_iff` —
  what a visit does.
* `ProgramGraph.Walk.Keeps.walkAll` — a walk over several roots ends with its invariant.
* `ProgramGraph.Walk.le_stepBound` — there are steps enough for many times the nodes of a graph.
-/

namespace ProgramGraph.Walk

variable {σ : Type} {handler : Handler σ}

/-! ## What is still to be done -/

/-- The nodes that are still to be visited. -/
def entered (todo : List Step) : List NodeId :=
  todo.filterMap fun
    | .enter id => some id
    | .leave .. => none

/-- The number of nodes that are still to be closed. -/
def closings (todo : List Step) : Nat :=
  todo.countP fun
    | .enter _ => false
    | .leave .. => true

/-- Where nothing is to be done, no node is to be visited. -/
@[simp] theorem entered_nil : entered [] = [] := rfl

/-- A node that is to be entered is to be visited. -/
@[simp] theorem entered_enter (id : NodeId) (todo : List Step) :
    entered (.enter id :: todo) = id :: entered todo :=
  rfl

/-- Leaving a scope visits no node. -/
@[simp] theorem entered_leave (scope recordType : Bool) (todo : List Step) :
    entered (.leave scope recordType :: todo) = entered todo :=
  rfl

/-- What is to be visited after a node was visited: its parts first. -/
theorem entered_parts (ids : List NodeId) (todo : List Step) :
    entered (ids.map .enter ++ todo) = ids ++ entered todo := by
  induction ids with
  | nil => rfl
  | cons id rest ih => simp [ih]

/-- Parts add nothing to close. -/
theorem closings_parts (ids : List NodeId) (todo : List Step) :
    closings (ids.map .enter ++ todo) = closings todo := by
  induction ids with
  | nil => rfl
  | cons id rest ih =>
    rw [List.map_cons, List.cons_append]
    exact ih

/-! ## A visit -/

/-- What a visit enters into the table: a value declaration into the scope around it, and the scope
that the node opens. -/
def note (t : ScopeTable) (p : Place) (id : NodeId) (node : Node) : ScopeTable :=
  let declared := match node.tag.isValueDeclaration, p.scopes with
    | true, scope :: _ => t.declare scope id
    | _, _ => t
  match node.tag.opens? with
  | some kind => declared.enter id p.scopes.head? kind
  | none => declared

/-- The place at which a walk is. -/
def State.place (s : State σ) : Place := ⟨s.scopes, s.recordTypes⟩

/-- What the handler is told about a node at a place. -/
def visitOf (p : Place) (id : NodeId) (node : Node) : Visit where
  node := id
  scope := (p.enter id node).scopes.head?
  recordType := (p.enter id node).types.head?

/-- The state after a visit. -/
def visited (s : State σ) (id : NodeId) (node : Node) (parts : List NodeId) (todo : List Step)
    (graph : Graph) (carried : σ) : State σ where
  todo := parts.map .enter ++ .leave node.tag.opens?.isSome (node.tag = .record) :: todo
  scopes := (s.place.enter id node).scopes
  recordTypes := (s.place.enter id node).types
  table := note s.table s.place id node
  graph := graph
  carried := carried

/-- **A visit.** The node is noted, the handler is called, and the parts are what it left. -/
theorem visit_def (handler : Handler σ) (s : State σ) (id : NodeId) (todo : List Step) :
    visit handler s id todo = do
      let node ← s.graph.node id
      let (graph, carried) ←
        handler (note s.table s.place id node) (visitOf s.place id node) s.graph s.carried
      let parts ← graph.children id
      return visited s id node parts todo graph carried := by
  unfold visit visited note visitOf State.place Place.enter
  simp only [bind, Except.bind]
  cases s.graph.node id with
  | error fault => rfl
  | ok node =>
    dsimp only
    generalize node.tag.opens? = opens
    cases opens <;> rfl

/-- After a visit the walk follows the preorder with the parts of the node. -/
theorem preorder_visited {next : NodeId → List NodeId} {roots V rest parts : List NodeId} {s : State σ}
    {id : NodeId} {node : Node} {todo : List Step} {graph : Graph} {carried : σ}
    (h : ∀ after, Preorder next (entered s.todo ++ rest) after → Preorder next roots (V ++ after))
    (htodo : s.todo = .enter id :: todo) (hparts : parts = next id) (after : List NodeId)
    (hafter : Preorder next (entered (visited s id node parts todo graph carried).todo ++ rest) after) :
    Preorder next roots (V ++ [id] ++ after) := by
  rw [visited, entered_parts, entered_leave, List.append_assoc, hparts] at hafter
  obtain ⟨below, others, rfl, hbelow, hothers⟩ := Preorder.append_iff.mp hafter
  have hnext : Preorder next (entered s.todo ++ rest) (id :: (below ++ others)) := by
    rw [htodo]
    exact .cons hbelow hothers
  rw [List.append_assoc]
  exact h _ hnext

/-- A visit where nothing fails. -/
theorem visit_eq {s : State σ} {id : NodeId} {node : Node} {parts : List NodeId} {todo : List Step}
    {graph : Graph} {carried : σ} (hnode : s.graph.node? id = some node)
    (hhandler : handler (note s.table s.place id node) (visitOf s.place id node) s.graph s.carried =
      .ok (graph, carried)) (hparts : graph.children id = .ok parts) :
    visit handler s id todo = .ok (visited s id node parts todo graph carried) := by
  rw [visit_def, Graph.node_eq_ok.mpr hnode]
  simp only [bind, Except.bind, hhandler, hparts]
  rfl

/-- A visit calls the handler once. -/
theorem visit_eq_ok_iff {s s' : State σ} {id : NodeId} {todo : List Step} :
    visit handler s id todo = .ok s' ↔ ∃ node parts graph carried,
      s.graph.node id = .ok node ∧
        handler (note s.table s.place id node) (visitOf s.place id node) s.graph s.carried =
          .ok (graph, carried) ∧
          graph.children id = .ok parts ∧ visited s id node parts todo graph carried = s' := by
  simp only [visit_def, bind_eq_ok_iff, pure, Except.pure, Except.ok.injEq]
  constructor
  · rintro ⟨node, hnode, ⟨graph, carried⟩, hhandler, parts, hparts, heq⟩
    exact ⟨node, parts, graph, carried, hnode, hhandler, hparts, heq⟩
  · rintro ⟨node, parts, graph, carried, hnode, hhandler, hparts, heq⟩
    exact ⟨node, hnode, (graph, carried), hhandler, parts, hparts, heq⟩

/-! ## Invariants -/

/-- An invariant of a walk: it speaks of the nodes visited so far, of the roots still to come and of
the state, and is kept by every step. -/
structure Keeps (handler : Handler σ) (bound : Nat)
    (I : List NodeId → List NodeId → State σ → Prop) : Prop where
  /-- A visit does not fail. -/
  enter : ∀ {V rest s id todo}, I V rest s → s.todo = .enter id :: todo →
    ∃ node parts graph carried,
      visit handler s id todo = .ok (visited s id node parts todo graph carried) ∧
        I (V ++ [id]) rest (visited s id node parts todo graph carried)
  /-- What was opened is closed. -/
  leave : ∀ {V rest s scope recordType todo}, I V rest s → s.todo = .leave scope recordType :: todo →
    I V rest (close s scope recordType todo)
  /-- The next root is taken up. -/
  next : ∀ {V root rest s}, I V (root :: rest) s → s.todo = [] →
    I V rest { todo := [.enter root], table := s.table, graph := s.graph, carried := s.carried }
  /-- There are not more visits than a bound. -/
  visits : ∀ {V rest s}, I V rest s → V.length ≤ bound
  /-- There are enough steps. -/
  steps : ∀ {V rest s}, I V rest s → 2 * bound ≤ stepBound s.graph

namespace Keeps

variable {bound : Nat} {I : List NodeId → List NodeId → State σ → Prop} {V rest : List NodeId}
  {s : State σ}

/-- A run ends. Each step either visits a node or closes one, and each visit leaves one node to be
closed.

**Proof sketch.** Induction on the steps that are left. A step that enters a node takes two from the bound and
adds one node to be closed, a step that closes one takes one; so the sum of both is enough to go on. -/
theorem run (keeps : Keeps handler bound I) {n : Nat} (h : I V rest s)
    (hn : 2 * (bound - V.length) + closings s.todo ≤ n) :
    ∃ V' s', Walk.run handler n s = .ok s' ∧ s'.todo = [] ∧ I V' rest s' := by
  induction n generalizing V s with
  | zero =>
    cases htodo : s.todo with
    | nil => exact ⟨V, s, by simp [Walk.run, htodo], htodo, h⟩
    | cons step todo =>
      exfalso
      cases step with
      | enter id =>
        obtain ⟨_, _, _, _, -, hnext⟩ := keeps.enter h htodo
        have := keeps.visits hnext
        simp only [List.length_append, List.length_singleton] at this
        omega
      | leave scope recordType =>
        rw [htodo, closings, List.countP_cons] at hn
        simp at hn
  | succ n ih =>
    cases htodo : s.todo with
    | nil => exact ⟨V, s, by simp [Walk.run, htodo], htodo, h⟩
    | cons step todo =>
      cases step with
      | enter id =>
        obtain ⟨node, parts, graph, carried, hvisit, hnext⟩ := keeps.enter h htodo
        have hlength := keeps.visits hnext
        have hclosings : closings s.todo = closings todo := by rw [htodo]; rfl
        have hcount : closings (visited s id node parts todo graph carried).todo =
            closings todo + 1 := by
          rw [visited, closings_parts]
          simp [closings]
        simp only [List.length_append, List.length_singleton] at hlength
        obtain ⟨V', s', hrun, hend⟩ := ih hnext (by
          rw [hcount, List.length_append, List.length_singleton]
          omega)
        refine ⟨V', s', ?_, hend⟩
        rw [Walk.run, htodo, if_neg (by simp), advance, htodo]
        simp only [bind, Except.bind, hvisit]
        exact hrun
      | leave scope recordType =>
        have hnext := keeps.leave h htodo
        obtain ⟨V', s', hrun, hend⟩ := ih hnext (by
          rw [htodo] at hn
          simp only [close, closings, List.countP_cons, if_true] at hn ⊢
          omega)
        refine ⟨V', s', ?_, hend⟩
        rw [Walk.run, htodo, if_neg (by simp), advance, htodo]
        exact hrun

/-- **A walk ends,** and its invariant holds at the end. -/
theorem walkAll (keeps : Keeps handler bound I) {roots : List NodeId} (h : I V roots s)
    (htodo : s.todo = []) :
    ∃ V' s', ProgramGraph.walkAll handler s.table s.graph s.carried roots =
        .ok (s'.table, s'.graph, s'.carried) ∧ s'.todo = [] ∧ I V' [] s' := by
  induction roots generalizing V s with
  | nil => exact ⟨V, s, rfl, htodo, h⟩
  | cons root rest ih =>
    have hroot := keeps.next h htodo
    have hsteps := keeps.steps h
    obtain ⟨V', s', hrun, htodo', h'⟩ := keeps.run (n := stepBound s.graph) hroot (by
      simp only [closings, List.countP_cons, List.countP_nil]
      obtain ⟨_, _, _, _, -, hnext⟩ := keeps.enter hroot rfl
      have := keeps.visits hroot
      simp only [Bool.false_eq_true, if_false]
      omega)
    obtain ⟨V'', s'', hrest, hend⟩ := ih h' htodo'
    refine ⟨V'', s'', ?_, hend⟩
    rw [ProgramGraph.walkAll, walk, hrun]
    exact hrest

end Keeps

/-! ## Enough steps -/

/-- Every node has links enough. -/
theorem size_le_linkCount (g : Graph) : 2 * g.size ≤ linkCount g := by
  unfold linkCount Graph.size
  rw [← Array.length_toList]
  induction g.nodes.toList with
  | nil => simp
  | cons node rest ih =>
    simp only [List.map_cons, List.foldr_cons, List.length_cons]
    omega

/-- **Enough steps.** The number of steps is many times the number of nodes. -/
theorem le_stepBound (g : Graph) : 32 * g.size ≤ stepBound g := by
  have hlinks := size_le_linkCount g
  have hpos : 0 < linkCount g + 16 := by omega
  calc 32 * g.size ≤ (linkCount g + 16) * (linkCount g + 16) := by
        have : 16 * (2 * g.size) ≤ (linkCount g + 16) * (linkCount g + 16) :=
          Nat.mul_le_mul (by omega) (by omega)
        omega
    _ = (linkCount g + 16) ^ 2 := (Nat.pow_two _).symm
    _ ≤ (linkCount g + 16) ^ (g.size + 2) := Nat.pow_le_pow_right hpos (by omega)

end ProgramGraph.Walk
