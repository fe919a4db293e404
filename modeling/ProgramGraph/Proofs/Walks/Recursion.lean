import ProgramGraph.Proofs.Syntax.Listing
import ProgramGraph.Proofs.Walks.Run

set_option autoImplicit false

/-!
# Walking by recursion

A walk keeps a stack of what is still to be done and two stacks of what is open. It comes to the same as
going down the tree by recursion: a node is visited, its parts are read, as the handler left them, and
walked one after the other, and then comes what follows the node. What the handler is told about a
node depends on the way from the root down to it, its trail, alone. If the handler changes nothing,
the nodes that are visited are the parts of the root in preorder.

## Main definitions

* `ProgramGraph.Walk.Trail` — the way down to a node.
* `ProgramGraph.Walk.Call` — what a handler is given, and `ProgramGraph.Handler.recorded`, a handler
  that remembers its calls.
* `ProgramGraph.Walk.Descends` — the walk by recursion.
* `ProgramGraph.Handler.Still` — a handler that changes nothing, and `ProgramGraph.Handler.watching`,
  the handlers that are made so.

## Main results

* `ProgramGraph.Walk.Descends.run_eq`, `ProgramGraph.Walk.exists_descends` — the stacks are balanced: the
  steps from a node to what follows it are those of the recursion.
* `ProgramGraph.Walk.recorded_iff` — remembering the calls changes nothing else.
* `ProgramGraph.walk_descends` — a walk is the walk by recursion.

## Design

Each call costs two steps, one for the visit and one for what closes the node. So the steps can be
counted, and `walk`, which has a bound for them, ends if and only if the recursion ends with at most
half as many calls.
-/

namespace ProgramGraph

variable {σ : Type} {handler : Handler σ}

namespace Walk

/-! ## Trails -/

/-- The way from a root down to a node, the node first: all nodes on it as they were read. -/
abbrev Trail := List (NodeId × Node)

namespace Trail

/-- The innermost scope on a trail. -/
def scope? (trail : Trail) : Option NodeId :=
  (trail.find? fun last => last.2.tag.opens?.isSome).map Prod.fst

/-- The type that the name of the innermost record on a trail spells. -/
def recordType? (trail : Trail) : Option Descriptor :=
  (trail.find? fun last => last.2.tag = .record).map fun last => .parse last.2.name

/-- What the handler is told about a node under a trail. -/
def visit (above : Trail) (id : NodeId) (node : Node) : Visit where
  node := id
  scope := scope? ((id, node) :: above)
  recordType := recordType? ((id, node) :: above)

/-- The table with a node under a trail: a value declaration belongs to the innermost scope above it,
and a scope is entered with the innermost scope above it. -/
def enter (above : Trail) (t : ScopeTable) (id : NodeId) (node : Node) : ScopeTable :=
  let declared := match node.tag.isValueDeclaration, scope? above with
    | true, some scope => t.declare scope id
    | _, _ => t
  match node.tag.opens? with
  | some kind => declared.enter id (scope? above) kind
  | none => declared

/-- The place inside the last node of a trail. -/
def place : Trail → Place
  | [] => {}
  | (id, node) :: above => (place above).enter id node

/-- The scope on top of the open scopes is the innermost one on the trail. -/
theorem head?_scopes (trail : Trail) : trail.place.scopes.head? = trail.scope? := by
  induction trail with
  | nil => rfl
  | cons last above ih =>
    obtain ⟨id, node⟩ := last
    rw [place, scope?, List.find?_cons]
    cases hopens : node.tag.opens?.isSome with
    | true =>
      rw [Place.scopes_enter_of_opens? hopens]
      rfl
    | false =>
      rw [Place.enter_of_opens?_eq_none (by simpa using hopens)]
      exact ih

/-- The type on top of the types of the open records is that of the innermost record on the trail. -/
theorem head?_types (trail : Trail) : trail.place.types.head? = trail.recordType? := by
  induction trail with
  | nil => rfl
  | cons last above ih =>
    obtain ⟨id, node⟩ := last
    rw [place, recordType?, List.find?_cons, Place.enter]
    by_cases hrecord : node.tag = .record
    · simp [hrecord]
    · simp only [hrecord, if_false, decide_false]
      exact ih

/-- What the handler is told can be read off the stacks. -/
theorem visitOf_place (above : Trail) (id : NodeId) (node : Node) :
    visitOf above.place id node = above.visit id node := by
  have hscope := head?_scopes ((id, node) :: above)
  have htype := head?_types ((id, node) :: above)
  rw [visitOf, visit, ← hscope, ← htype]
  rfl

/-- What is entered into the table can be read off the stacks. -/
theorem note_place (above : Trail) (t : ScopeTable) (id : NodeId) (node : Node) :
    note t above.place id node = above.enter t id node := by
  rw [note, enter, ← head?_scopes]
  cases above.place.scopes <;> cases node.tag.isValueDeclaration <;> rfl

end Trail

/-! ## The walk by recursion -/

/-- What a handler is given. -/
structure Call (σ : Type) where
  /-- The table so far. -/
  table : ScopeTable
  /-- What it is told about the node. -/
  visit : Visit
  /-- The graph. -/
  graph : Graph
  /-- What it carries along. -/
  carried : σ

/-- The walk by recursion under a trail: how some nodes are walked one after the other, with the table,
the graph and what the handler carries before and after, and the calls of the handler in between. -/
inductive Descends (handler : Handler σ) :
    Trail → List NodeId → ScopeTable × Graph × σ → List (Call σ) → ScopeTable × Graph × σ → Prop where
  /-- No nodes. -/
  | nil {above : Trail} {m : ScopeTable × Graph × σ} : Descends handler above [] m [] m
  /-- The first node is visited. Then its parts are read and walked, and then the other nodes. -/
  | cons {above : Trail} {id : NodeId} {rest parts : List NodeId} {node : Node} {t : ScopeTable}
    {g g' : Graph} {c c' : σ} {below after : List (Call σ)} {m m' : ScopeTable × Graph × σ}
    (found : g.node id = .ok node)
    (called : handler (above.enter t id node) (above.visit id node) g c = .ok (g', c'))
    (read : g'.children id = .ok parts)
    (inside : Descends handler ((id, node) :: above) parts (above.enter t id node, g', c') below m)
    (behind : Descends handler above rest m after m') :
    Descends handler above (id :: rest) (t, g, c)
      (⟨above.enter t id node, above.visit id node, g, c⟩ :: (below ++ after)) m'

/-! ## Stacks and trails -/

/-- The state of a walk under a trail. -/
def Trail.state (above : Trail) (todo : List Step) (m : ScopeTable × Graph × σ) : State σ where
  todo := todo
  scopes := above.place.scopes
  recordTypes := above.place.types
  table := m.1
  graph := m.2.1
  carried := m.2.2

/-- What a walk leaves. -/
def State.outcome (s : State σ) : ScopeTable × Graph × σ := (s.table, s.graph, s.carried)

section Steps

variable {above : Trail} {id : NodeId} {node : Node} {todo : List Step} {s : State σ} {n : Nat}
  {m m' : ScopeTable × Graph × σ} {ids : List NodeId} {calls : List (Call σ)}

/-- The step that closes a node. -/
def closing (node : Node) : Step := .leave node.tag.opens?.isSome (node.tag = .record)

/-- **A visit under a trail.** The parts of the node come next, and then it is closed. -/
theorem visit_state_iff : visit handler (above.state (.enter id :: todo) m) id todo = .ok s ↔
    ∃ node parts g' c', m.2.1.node id = .ok node ∧
      handler (above.enter m.1 id node) (above.visit id node) m.2.1 m.2.2 = .ok (g', c') ∧
        g'.children id = .ok parts ∧
          Trail.state ((id, node) :: above) (parts.map .enter ++ closing node :: todo)
            (above.enter m.1 id node, g', c') = s := by
  have hplace : (above.state (.enter id :: todo) m).place = above.place := rfl
  have hvisited : ∀ node parts g' c', visited (above.state (.enter id :: todo) m) id node parts todo g' c' =
      Trail.state ((id, node) :: above) (parts.map .enter ++ closing node :: todo)
        (above.enter m.1 id node, g', c') := by
    intro node parts g' c'
    rw [visited, hplace, ← Trail.note_place]
    rfl
  simp only [visit_eq_ok_iff, hplace, hvisited, Trail.note_place, Trail.visitOf_place]
  rfl

/-- **Closing a node** leads back to the trail above it. -/
theorem run_closing : run handler (n + 1) (Trail.state ((id, node) :: above) (closing node :: todo) m) =
    run handler n (above.state todo m) := by
  have hclose : close (Trail.state ((id, node) :: above) (closing node :: todo) m)
      node.tag.opens?.isSome (node.tag = .record) todo = above.state todo m := by
    have hscopes := above.place.leave_scopes id node
    have htypes := above.place.leave_types id node
    simp only [close, Trail.state, Trail.place, hscopes, htypes]
  rw [← hclose]
  rfl

/-- Without steps nothing is done. -/
theorem run_zero {step : Step} : run handler 0 (above.state (step :: todo) m) = .error .circular :=
  rfl

/-- A step that visits a node. -/
theorem run_enter : run handler (n + 1) (above.state (.enter id :: todo) m) =
    visit handler (above.state (.enter id :: todo) m) id todo >>= run handler n :=
  rfl

/-- **The steps of the recursion.** The walk by recursion is what the steps come to that lead from some
nodes to what follows them. -/
theorem Descends.run_eq (h : Descends handler above ids m calls m') (todo : List Step) (n : Nat) :
    run handler (2 * calls.length + n) (above.state (ids.map .enter ++ todo) m) =
      run handler n (above.state todo m') := by
  induction h generalizing todo n with
  | nil => simp
  | @cons above id rest parts node t g g' c c' below after m m' found called read _ _ ihinside ihbehind =>
    have hsteps : 2 * (below.length + after.length + 1) + n =
        2 * below.length + (2 * after.length + n + 1) + 1 := by
      omega
    rw [List.length_cons, List.length_append, hsteps, List.map_cons, List.cons_append, run_enter,
      visit_state_iff.mpr ⟨node, parts, g', c', found, called, read, rfl⟩]
    exact (ihinside _ _).trans (run_closing.trans (ihbehind todo n))

/-- **Every run is one of the recursion.** If a run ends that begins with some nodes, the recursion ends
with these nodes, and what follows them is what is left of the run.

**Proof sketch.** By strong induction on the number of steps. The first step enters the first node. Then the
parts are taken up, one step closes the node, and the nodes beside it follow, each time with fewer steps left.
-/
theorem exists_descends (h : run handler n (above.state (ids.map .enter ++ todo) m) = .ok s) :
    ∃ calls m' k, Descends handler above ids m calls m' ∧ n = 2 * calls.length + k ∧
      run handler k (above.state todo m') = .ok s := by
  induction n using Nat.strongRecOn generalizing above ids todo m with
  | ind n ih =>
    cases ids with
    | nil => exact ⟨[], m, n, .nil, by simp, h⟩
    | cons id rest =>
      obtain ⟨t, g, c⟩ := m
      cases n with
      | zero => exact absurd h (by rw [List.map_cons, List.cons_append, run_zero]; simp)
      | succ n =>
        rw [List.map_cons, List.cons_append, run_enter] at h
        obtain ⟨next, hvisit, hnext⟩ := bind_eq_ok_iff.mp h
        obtain ⟨node, parts, g', c', found, called, read, rfl⟩ := visit_state_iff.mp hvisit
        obtain ⟨below, m₁, k, hinside, hk, hclose⟩ := ih n (Nat.lt_succ_self n) hnext
        cases k with
        | zero => exact absurd hclose (by rw [run_zero]; simp)
        | succ k =>
          rw [run_closing] at hclose
          obtain ⟨after, m₂, j, hbehind, hj, hrest⟩ := ih k (by omega) hclose
          refine ⟨_, m₂, j, .cons found called read hinside hbehind, ?_, hrest⟩
          rw [List.length_cons, List.length_append]
          omega

/-- **The end of a run.** A run from a node ends if and only if the recursion does, with half as many
calls at most as there are steps.

**Proof sketch.** A run that ends is one of the recursion, and nothing is left of it. Conversely the recursion
gives the first steps of a run, behind which nothing is left to be done, so that further steps change nothing.
-/
theorem run_eq_ok_iff : (run handler n (above.state [.enter id] m)).map State.outcome = .ok m' ↔
    ∃ calls, Descends handler above [id] m calls m' ∧ 2 * calls.length ≤ n := by
  have hdone : ∀ k m', run handler k (above.state [] m') = .ok (above.state [] m') := by
    intro k m'
    cases k <;> rfl
  constructor
  · intro h
    cases hrun : run handler n (above.state [.enter id] m) with
    | error fault => simp [hrun, Except.map] at h
    | ok s =>
      have hids : run handler n (above.state ([id].map .enter ++ []) m) = .ok s := by
        simpa using hrun
      obtain ⟨calls, m₁, k, hdescends, rfl, hrest⟩ := exists_descends hids
      rw [hdone] at hrest
      obtain rfl := Except.ok.inj hrest
      rw [hrun] at h
      obtain rfl := Except.ok.inj h
      exact ⟨calls, hdescends, Nat.le_add_right _ _⟩
  · rintro ⟨calls, hdescends, hle⟩
    obtain ⟨k, rfl⟩ := Nat.exists_eq_add_of_le hle
    have hrun := hdescends.run_eq [] k
    rw [List.map_singleton, List.singleton_append, hdone] at hrun
    rw [hrun]
    rfl

end Steps

end Walk

/-! ## Remembering the calls -/

/-- A handler that remembers what it is given. -/
def Handler.recorded (handler : Handler σ) : Handler (σ × List (Walk.Call σ)) :=
  fun table visit g (carried, calls) => do
    let (g', carried') ← handler table visit g carried
    return (g', carried', calls ++ [⟨table, visit, g, carried⟩])

namespace Walk

variable {above : Trail} {ids : List NodeId} {calls log : List (Call σ)} {n : Nat}

/-- Remembering a call changes nothing else. -/
theorem recorded_eq_ok_iff {t : ScopeTable} {visit : Visit} {g g' : Graph} {c c' : σ}
    {log' : List (Call σ)} : handler.recorded t visit g (c, log) = .ok (g', c', log') ↔
      handler t visit g c = .ok (g', c') ∧ log ++ [⟨t, visit, g, c⟩] = log' := by
  simp only [Handler.recorded, bind_eq_ok_iff, pure, Except.pure, Except.ok.injEq, Prod.mk.injEq]
  constructor
  · rintro ⟨⟨_, _⟩, hcalled, rfl, rfl, rfl⟩
    exact ⟨hcalled, rfl⟩
  · rintro ⟨hcalled, rfl⟩
    exact ⟨(g', c'), hcalled, rfl, rfl, rfl⟩

/-- What a walk leaves, with the calls that are remembered. -/
def remembering (m : ScopeTable × Graph × σ) (log : List (Call σ)) :
    ScopeTable × Graph × σ × List (Call σ) :=
  (m.1, m.2.1, m.2.2, log)

/-- The calls of the recursion are remembered. -/
theorem Descends.recorded {m m' : ScopeTable × Graph × σ} (h : Descends handler above ids m calls m')
    (log : List (Call σ)) : ∃ calls', Descends handler.recorded above ids (remembering m log) calls'
      (remembering m' (log ++ calls)) ∧ calls'.length = calls.length := by
  induction h generalizing log with
  | @nil above m =>
    rw [List.append_nil]
    exact ⟨[], .nil, rfl⟩
  | @cons above id rest parts node t g g' c c' below after m m' found called read _ _ ihinside ihbehind =>
    obtain ⟨below', hinside, hbelow⟩ :=
      ihinside (log ++ [⟨above.enter t id node, above.visit id node, g, c⟩])
    obtain ⟨after', hbehind, hafter⟩ := ihbehind
      (log ++ [⟨above.enter t id node, above.visit id node, g, c⟩] ++ below)
    have hdescends := Descends.cons found (recorded_eq_ok_iff.mpr ⟨called, rfl⟩) read hinside hbehind
    rw [List.append_assoc, List.append_assoc] at hdescends
    exact ⟨_, hdescends, by simp [hbelow, hafter]⟩

/-- What is remembered are the calls of the recursion. -/
theorem Descends.of_recorded {m m' : ScopeTable × Graph × σ × List (Call σ)}
    {calls' : List (Call (σ × List (Call σ)))} (h : Descends handler.recorded above ids m calls' m') :
    ∃ calls, Descends handler above ids (m.1, m.2.1, m.2.2.1) calls (m'.1, m'.2.1, m'.2.2.1) ∧
      m.2.2.2 ++ calls = m'.2.2.2 ∧ calls'.length = calls.length := by
  induction h with
  | nil => exact ⟨[], .nil, List.append_nil _, rfl⟩
  | @cons above id rest parts node t g g' c c' below' after' m m' found called read _ _ ihinside ihbehind =>
    obtain ⟨below, hinside, hbelow, hlength⟩ := ihinside
    obtain ⟨after, hbehind, hafter, hlength'⟩ := ihbehind
    obtain ⟨hcalled, hlog⟩ := recorded_eq_ok_iff.mp called
    refine ⟨_, .cons found hcalled read hinside hbehind, ?_, ?_⟩
    · rw [← hafter, ← hbelow, ← hlog]
      simp
    · simp [hlength, hlength']

/-- **Remembering the calls** of a walk: what is remembered are the calls of the recursion. -/
theorem recorded_iff {id : NodeId} {m m' : ScopeTable × Graph × σ} :
    (run handler.recorded n (above.state [.enter id] (remembering m []))).map State.outcome =
      .ok (remembering m' calls) ↔
        Descends handler above [id] m calls m' ∧ 2 * calls.length ≤ n := by
  rw [run_eq_ok_iff]
  constructor
  · rintro ⟨calls', h, hle⟩
    obtain ⟨calls₀, hdescends, hlog, hlength⟩ := h.of_recorded
    obtain rfl : calls₀ = calls := hlog
    exact ⟨hdescends, hlength ▸ hle⟩
  · rintro ⟨h, hle⟩
    obtain ⟨calls', hrecorded, hlength⟩ := h.recorded []
    exact ⟨calls', hrecorded, hlength ▸ hle⟩

end Walk

/-! ## Handlers that change nothing -/

/-- A handler that fails nowhere and changes nothing in the graph. -/
def Handler.Still (handler : Handler σ) : Prop :=
  ∀ table visit g carried, ∃ carried', handler table visit g carried = .ok (g, carried')

/-- A handler that only watches: what it carries along is all that it changes. -/
def Handler.watching (observe : ScopeTable → Visit → Graph → σ → σ) : Handler σ :=
  fun table visit g carried => .ok (g, observe table visit g carried)

namespace Walk

variable {above : Trail} {ids all : List NodeId} {calls : List (Call σ)} {g : Graph}

/-- Where nothing is changed, the recursion follows the preorder. -/
theorem Descends.preorder {m m' : ScopeTable × Graph × σ} (h : Descends handler above ids m calls m')
    (still : handler.Still) (hm : m.2.1 = g) : m'.2.1 = g ∧
      Preorder g.parts ids (calls.map fun call => call.visit.node) ∧
        ∀ id ∈ calls.map fun call => call.visit.node, g.children id = .ok (g.parts id) := by
  induction h with
  | nil => exact ⟨hm, .nil, fun _ hid => absurd hid List.not_mem_nil⟩
  | @cons above id rest parts node t g₁ g' c c' below after m m' found called read _ _ ihinside ihbehind =>
    obtain ⟨carried', hstill⟩ := still (above.enter t id node) (above.visit id node) g₁ c
    obtain ⟨rfl, -⟩ := Prod.mk.inj (Except.ok.inj (called.symm.trans hstill))
    obtain rfl : g' = g := hm
    obtain rfl := Graph.parts_of_children read
    obtain ⟨hg, hbelow, hreadBelow⟩ := ihinside rfl
    obtain ⟨hg', hafter, hreadAfter⟩ := ihbehind hg
    refine ⟨hg', ?_, ?_⟩
    · rw [List.map_cons, List.map_append]
      exact .cons hbelow hafter
    · rw [List.map_cons, List.map_append]
      exact List.forall_mem_cons.mpr ⟨read, List.forall_mem_append.mpr ⟨hreadBelow, hreadAfter⟩⟩

/-- Where nothing is changed, the preorder is followed by the recursion. -/
theorem exists_descends_of_preorder (still : handler.Still) (h : Preorder g.parts ids all)
    (hread : ∀ id ∈ all, g.children id = .ok (g.parts id)) (above : Trail) (t : ScopeTable) (c : σ) :
    ∃ calls t' c', Descends handler above ids (t, g, c) calls (t', g, c') ∧
      calls.map (fun call => call.visit.node) = all := by
  induction h generalizing above t c with
  | nil => exact ⟨[], t, c, .nil, rfl⟩
  | @cons id rest below after _ _ ihbelow ihafter =>
    obtain ⟨hid, hread⟩ := List.forall_mem_cons.mp hread
    obtain ⟨hreadBelow, hreadAfter⟩ := List.forall_mem_append.mp hread
    obtain ⟨node, hnode⟩ := Graph.exists_node (Graph.lt_size_of_children hid)
    obtain ⟨c₁, hcalled⟩ := still (above.enter t id node) (above.visit id node) g c
    obtain ⟨inside, t₂, c₂, hinside, rfl⟩ :=
      ihbelow hreadBelow ((id, node) :: above) (above.enter t id node) c₁
    obtain ⟨behind, t₃, c₃, hbehind, rfl⟩ := ihafter hreadAfter above t₂ c₂
    refine ⟨_, t₃, c₃, .cons (Graph.node_eq_ok.mpr hnode) hcalled hid hinside hbehind, ?_⟩
    rw [List.map_cons, List.map_append]
    rfl

/-- No node has more parts than there are links.

**Proof sketch.** An access has two parts at most, and all other nodes have those of their payloads. The
number of links counts both for every node. -/
theorem length_children_le {id : NodeId} {parts : List NodeId} (h : g.children id = .ok parts) :
    parts.length ≤ linkCount g := by
  obtain ⟨node, hnode⟩ := Graph.exists_node (Graph.lt_size_of_children h)
  have hlength : (g.partsOf node.payload).length ≤ node.payload.parts.length + 2 := by
    cases node.payload with
    | memberAccess base member =>
      refine Nat.le_trans (List.length_filter_le _ _) ?_
      cases member <;> simp [Payload.parts]
    | _ => exact Nat.le_add_right _ 2
  have hmem : node ∈ g.nodes.toList := Graph.mem_nodes_iff.mpr ⟨id, hnode⟩
  have hsum : ∀ (nodes : List Node), node ∈ nodes → node.payload.parts.length + 2 ≤
      (nodes.map fun node => node.payload.parts.length + 2).foldr (· + ·) 0 := by
    intro nodes hmem
    induction nodes with
    | nil => exact absurd hmem List.not_mem_nil
    | cons first rest ih =>
      rw [List.map_cons, List.foldr_cons]
      rcases List.mem_cons.mp hmem with rfl | hmem
      · omega
      · have := ih hmem
        omega
  rw [← Graph.parts_of_children h, Graph.parts_eq hnode]
  exact Nat.le_trans hlength (hsum _ hmem)

/-- **Enough steps** for everything that can be listed. -/
theorem le_stepBound_of_subnodes {root : NodeId} (h : g.subnodes root = .ok all) :
    2 * all.length ≤ stepBound g := by
  have hlength := Graph.length_le_of_preorder (fun _ _ => length_children_le) h
  have hpow : (linkCount g + 1) ^ (g.size + 1) ≤ (linkCount g + 16) ^ (g.size + 1) :=
    Nat.pow_le_pow_left (by omega) _
  calc 2 * all.length ≤ 2 * (linkCount g + 16) ^ (g.size + 1) :=
        Nat.mul_le_mul_left 2 (Nat.le_trans hlength hpow)
    _ ≤ (linkCount g + 16) * (linkCount g + 16) ^ (g.size + 1) := Nat.mul_le_mul_right _ (by omega)
    _ = (linkCount g + 16) ^ (g.size + 2) := by rw [Nat.pow_succ _ (g.size + 1), Nat.mul_comm]

end Walk

/-- The outcome of a walk is that of its run. -/
theorem walk_eq_map_run (handler : Handler σ) (root : NodeId) (table : ScopeTable) (g : Graph) (carried : σ) :
    walk handler root table g carried = (Walk.run handler (Walk.stepBound g)
      (Walk.Trail.state [] [.enter root] (table, g, carried))).map Walk.State.outcome := by
  rw [walk]
  change (Walk.run handler (Walk.stepBound g) (Walk.Trail.state [] [.enter root] (table, g, carried)) >>=
    fun s => pure s.outcome) = _
  cases Walk.run handler (Walk.stepBound g) (Walk.Trail.state [] [.enter root] (table, g, carried)) <;> rfl

open Walk in
/-- **A walk is the walk by recursion.** Whatever the handler does to the graph, the steps of a walk come
to an end if and only if the recursion does, with the same calls of the handler in the same order, and
with the same table, graph and carried value. A walk with its bound for the steps ends if and only if
the recursion does with at most half as many calls. If the handler changes nothing, it ends if and only if
the parts of the root can be listed, and the nodes that are visited are these parts in this order.

**Proof sketch.** A descent is turned into steps and back by induction, on the descent in one direction and on
the number of steps in the other: the stack of the machine is the list of siblings at each level, with a mark
at which a scope is left. Every call takes two steps, one to enter and one to leave. A handler that changes
nothing descends along the preorder of the parts, whose length the bound of the steps covers. -/
theorem walk_descends (handler : Handler σ) (root : NodeId) (table : ScopeTable) (g : Graph)
    (carried : σ) :
    (∀ calls t' g' c',
      (∃ n s, run handler.recorded n { todo := [.enter root], table, graph := g, carried := (carried, []) } =
          .ok s ∧ s.table = t' ∧ s.graph = g' ∧ s.carried = (c', calls)) ↔
        Descends handler [] [root] (table, g, carried) calls (t', g', c')) ∧
    (∀ t' g' c', walk handler root table g carried = .ok (t', g', c') ↔
      ∃ calls, Descends handler [] [root] (table, g, carried) calls (t', g', c') ∧
        2 * calls.length ≤ stepBound g) ∧
    (handler.Still → ∀ all, g.subnodes root = .ok all ↔
      ∃ t' c' calls, walk handler.recorded root table g (carried, []) = .ok (t', g, c', calls) ∧
        calls.map (fun call => call.visit.node) = all) := by
  refine ⟨fun calls t' g' c' => ?_, fun t' g' c' => ?_, fun still all => ⟨fun hall => ?_, ?_⟩⟩
  · constructor
    · rintro ⟨n, s, hrun, rfl, rfl, hcarried⟩
      have hout : (run handler.recorded n
          (Trail.state [] [.enter root] (remembering (table, g, carried) []))).map State.outcome =
            .ok (remembering (s.table, s.graph, c') calls) := by
        refine (congrArg (Except.map State.outcome) hrun).trans ?_
        simp only [Except.map, State.outcome, hcarried, remembering]
      exact (recorded_iff.mp hout).1
    · intro h
      have hout := recorded_iff.mpr ⟨h, Nat.le_refl (2 * calls.length)⟩
      cases hrun : run handler.recorded (2 * calls.length)
          (Trail.state [] [.enter root] (remembering (table, g, carried) [])) with
      | error fault => simp [hrun, Except.map] at hout
      | ok s =>
        rw [hrun] at hout
        obtain ⟨htable, hout⟩ := Prod.mk.inj (Except.ok.inj hout)
        obtain ⟨hgraph, hcarried⟩ := Prod.mk.inj hout
        exact ⟨_, s, hrun, htable, hgraph, hcarried⟩
  · rw [walk_eq_map_run, run_eq_ok_iff]
  · obtain ⟨h, hread⟩ := Graph.subnodes_eq_ok_iff.mp hall
    obtain ⟨calls, t', c', hdescends, rfl⟩ := exists_descends_of_preorder still h hread [] table carried
    have hsteps := le_stepBound_of_subnodes hall
    rw [List.length_map] at hsteps
    exact ⟨t', c', calls, (walk_eq_map_run ..).trans (recorded_iff.mpr ⟨hdescends, hsteps⟩), rfl⟩
  · rintro ⟨t', c', calls, hwalk, rfl⟩
    have hout : (run handler.recorded (stepBound g)
        (Trail.state [] [.enter root] (remembering (table, g, carried) []))).map State.outcome =
          .ok (remembering (t', g, c') calls) :=
      (walk_eq_map_run ..).symm.trans hwalk
    have hdescends := (recorded_iff.mp hout).1
    exact Graph.subnodes_eq_ok_iff.mpr (hdescends.preorder still rfl).2

end ProgramGraph
