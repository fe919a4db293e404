import ProgramGraph.Proofs.Beliefs.Nesting

set_option autoImplicit false

/-!
# What a pin leaves behind

A pin replaces the type of a node and clears its set before anybody is told. The followers are told of
it while the pin is still under way, and what they observe then may come back to the node around a
circle. Without such a circle the pin stays. It stays on a circle as well if no follower through which
the circle leads back makes anything of the new type; else the node may end up with another type and
with types observed of it.

## Main definitions

* `ProgramGraph.Graph.Informs` — a node tells another one of its changes.
* `ProgramGraph.Graph.Leads` — the changes of a node reach another one.
* `ProgramGraph.Graph.Harmless` — the delivery of a notice leaves some nodes alone.

## Main results

* `ProgramGraph.Graph.Settles.belief?_eq` — deliveries of harmless notices leave these nodes alone.
* `ProgramGraph.Graph.pin_stays` — what is believed about a node after a pin.
* `ProgramGraph.Graph.pin_stays_overtaken` — on a circle the pinned type may be overtaken.
-/

namespace ProgramGraph.Graph

variable {g last : Graph} {src target x id : NodeId} {b : Belief} {o : Observation} {notice : Notice}
  {pending : List Notice} {n : Nat} {f : Belief → Belief} {D : NodeId → Prop}

/-- A node tells another one of its changes: the other one follows it. A node tells itself nothing. -/
def Informs (g : Graph) (src target : NodeId) : Prop := g.Feeds src target ∧ target ≠ src

/-- Changes of a node reach another one, from follower to follower. -/
def Leads (g : Graph) : NodeId → NodeId → Prop := Relation.ReflTransGen g.Informs

/-- The delivery of a notice leaves alone all but some nodes: who is told is one of these, or makes
nothing of it, and neither will when these have changed. -/
def Harmless (D : NodeId → Prop) (g : Graph) (notice : Notice) : Prop :=
  ∀ target, notice.listener.reaction = .follow target →
    D target ∨ ¬ D notice.source ∧ ∀ b, g.belief? target = some b → g.effect notice b = b

/-! ## Harmless deliveries -/

/-- A refinement lets everybody tell whom they told. -/
theorem informs_refine (hlisteners : ∀ b, (f b).listeners = b.listeners) :
    (g.refine x f).1.Informs src target ↔ g.Informs src target :=
  and_congr_left fun _ => feeds_refine hlisteners

/-- A change that changes nothing is told to nobody. -/
theorem refine_of_fixed (hb : ∀ b, g.belief? x = some b → f b = b) :
    (∀ id, (g.refine x f).1.belief? id = g.belief? id) ∧ (g.refine x f).2 = [] := by
  cases hx : g.belief? x with
  | none =>
    rw [refine, hx]
    exact ⟨fun _ => rfl, rfl⟩
  | some b =>
    have hfixed := hb b hx
    refine ⟨fun id => ?_, ?_⟩
    · rw [belief?_refine]
      split
      · next heq => rw [← heq, hx, Option.map_some, hfixed]
      · rfl
    · rw [refine_eq hx, hfixed]
      simp [Belief.announceRefined]

/-- What a notice does to its target depends on the node that it comes from. -/
theorem effect_congr {g' : Graph} (h : g'.belief? notice.source = g.belief? notice.source) :
    g'.effect notice = g.effect notice := by
  funext b
  unfold effect typeOf observedAt
  rw [h]

/-- Notices stay harmless while nothing but these nodes changes. -/
theorem Harmless.congr (h : Harmless D g notice) {g' : Graph}
    (hsame : ∀ id, ¬ D id → g'.belief? id = g.belief? id) : Harmless D g' notice := by
  intro target htarget
  by_cases hD : D target
  · exact Or.inl hD
  · obtain ⟨hsource, hfixed⟩ := (h target htarget).resolve_left hD
    refine Or.inr ⟨hsource, fun b hb => ?_⟩
    rw [effect_congr (hsame _ hsource)]
    exact hfixed b ((hsame target hD).symm.trans hb)

/-- **A harmless delivery** changes nothing but these nodes, and gives rise to harmless notices.

**Proof sketch.** A notice that is delivered changes a belief only where changes lead back, or changes
nothing; and what it sets off is announced from there. -/
theorem Harmless.deliver (h : Harmless D g notice)
    (hclosed : ∀ src target, D src → g.Informs src target → D target) :
    (∀ id, ¬ D id → (g.deliver notice).1.belief? id = g.belief? id) ∧
      (∀ other ∈ (g.deliver notice).2, Harmless D (g.deliver notice).1 other) ∧
      ∀ src target, (g.deliver notice).1.Informs src target ↔ g.Informs src target := by
  cases hreaction : notice.listener.reaction with
  | record owner =>
    have hdeliver : g.deliver notice = (g.noted notice, []) := by
      refine deliver_of_asks_eq_none ?_
      unfold asks
      rw [hreaction]
    rw [hdeliver]
    exact ⟨fun _ _ => rfl, fun _ hother => absurd hother List.not_mem_nil, fun _ _ => Iff.rfl⟩
  | follow target =>
    have hinforms : ∀ src other,
        (g.refine target (g.effect notice)).1.Informs src other ↔ g.Informs src other :=
      fun _ _ => informs_refine (g.listeners_effect notice)
    rw [deliver_eq g hreaction]
    rcases h target hreaction with hD | ⟨-, hfixed⟩
    · refine ⟨fun id hid => ?_, fun other hother target' htarget' => Or.inl ?_, hinforms⟩
      · rw [belief?_refine, if_neg fun heq : target = id => hid (heq ▸ hD)]
      · -- those who listen to one of the nodes are among them, or act for the node itself
        obtain ⟨-, hlistens, howner⟩ := mem_refine (g.listeners_effect notice) hother
        refine hclosed target target' hD ⟨⟨other.listener, hlistens, htarget'⟩, fun heq => howner ?_⟩
        rw [Listener.owner, htarget', heq]
    · obtain ⟨hsame, hnone⟩ := refine_of_fixed hfixed
      refine ⟨fun id _ => hsame id, fun other hother => ?_, hinforms⟩
      rw [hnone] at hother
      exact absurd hother List.not_mem_nil

/-- **Harmless deliveries,** with all their consequences, change nothing but nodes that tell only each
other. -/
theorem Settles.belief?_eq (h : Settles g pending n last)
    (hclosed : ∀ src target, D src → g.Informs src target → D target)
    (hpending : ∀ notice ∈ pending, Harmless D g notice) (hid : ¬ D id) :
    last.belief? id = g.belief? id := by
  induction h with
  | done => rfl
  | @tell g next last notice consequences rest n hdeliver _ ih =>
    obtain ⟨hsame, hnew, hinforms⟩ := (hpending notice List.mem_cons_self).deliver hclosed
    rw [hdeliver] at hsame hnew hinforms
    refine (ih (fun src target hsrc h => hclosed src target hsrc ((hinforms src target).mp h))
      fun other hother => ?_).trans (hsame id hid)
    rcases List.mem_append.mp hother with hother | hother
    · exact hnew other hother
    · exact (hpending other (List.mem_cons_of_mem _ hother)).congr hsame

/-! ## Pins -/

/-- Nothing is added to a set by an empty one. -/
theorem widen_nil (b : Belief) : b.widen [] = b := by
  unfold Belief.widen
  split <;> rfl

/-- Whom a pin gives notice. -/
theorem mem_opening_pin (hb : g.belief? id = some b) (h : notice ∈ ((Call.pin id o).opening g).2) :
    notice.source = id ∧ notice.listener ∈ b.listeners ∧ notice.listener.owner ≠ some id ∧
      ((∃ old, notice.former = .type old) → b.type.type ≠ o.type) := by
  simp only [Call.opening, hb] at h
  rcases List.mem_append.mp h with h | h <;> split at h
  · exact absurd h List.not_mem_nil
  · next hne =>
    obtain ⟨l, hl, rfl⟩ := List.mem_map.mp h
    obtain ⟨hlistens, howner⟩ := List.mem_filter.mp hl
    exact ⟨rfl, hlistens, by simpa using howner, fun _ => hne⟩
  · exact absurd h List.not_mem_nil
  · obtain ⟨l, hl, rfl⟩ := List.mem_map.mp h
    obtain ⟨hlistens, howner⟩ := List.mem_filter.mp hl
    refine ⟨rfl, hlistens, by simpa using howner, ?_⟩
    rintro ⟨_, hold⟩
    cases hold

/-- A pin lets everybody tell whom they told. -/
theorem informs_setBelief_pin (hb : g.belief? id = some b) :
    (g.setBelief id (b.pin o)).Informs src target ↔ g.Informs src target := by
  unfold Informs Feeds
  rw [listenersAt_setBelief hb]
  split
  · next heq => rw [← heq, listenersAt_eq hb]; rfl
  · rfl

/-- **The notices of a pin are harmless** outside the nodes from which changes do not lead back, if the
type was the same before, or nobody from whom changes lead back makes anything of it.

**Proof sketch.** A node from which changes lead back to the pinned one is told two things. Of a new type it
makes nothing, by assumption, and of what was observed there is nothing left to be told. All other nodes may
change. -/
theorem harmless_opening_pin (hb : g.belief? id = some b)
    (hquiet : b.type.type = o.type ∨ ∀ y c, g.Informs id y → g.Leads y id → g.belief? y = some c →
      c.ignores o = true) (h : notice ∈ ((Call.pin id o).opening g).2) :
    Harmless (fun x => ¬ g.Leads x id) (g.setBelief id (b.pin o)) notice := by
  obtain ⟨hsource, hlistens, howner, hdiffers⟩ := mem_opening_pin hb h
  have hpinned : (g.setBelief id (b.pin o)).belief? id = some (b.pin o) := by
    rw [belief?_setBelief hb, if_pos rfl]
  intro y hy
  by_cases hback : g.Leads y id
  · refine Or.inr ⟨not_not.mpr (hsource ▸ .refl), fun c hc => ?_⟩
    have hne : y ≠ id := by
      rintro rfl
      exact howner (by rw [Listener.owner, hy])
    rw [belief?_setBelief hb, if_neg (Ne.symm hne)] at hc
    unfold effect
    cases hformer : notice.former with
    | type old =>
      -- the follower is told of the new type, and ignores it
      have hignores := (hquiet.resolve_left (hdiffers ⟨old, hformer⟩)) y c
        ⟨⟨notice.listener, by rwa [listenersAt_eq hb], hy⟩, hne⟩ hback hc
      simp only [hsource, typeOf_eq hpinned]
      exact if_pos hignores
    | observed old =>
      -- the set that it is handed is empty
      simp only [hsource, observedAt_eq hpinned]
      exact widen_nil c
  · exact Or.inl hback

/-- **What is believed about a node after a pin.** The node has the listeners that it had. Its type is the
one that it was pinned to, or the join of types observed of it since. The pin stays, with nothing
observed, if the type was the same before, or if every follower of the node from which changes lead back
to the node ignores the type; in particular if the node is on no circle of followers, or if it is pinned
to the unknown type.

**Proof sketch.** Listeners are not touched by deliveries, and beliefs rise from the pinned one on, which
gives the first two parts. For the last one consider the nodes from which changes do not lead back to the
pinned one. Nothing that is delivered among these reaches the node; and the notices of the pin itself are
ignored by all others, or carry the empty set. -/
theorem pin_stays (typed : g.belief? id = some b) (o : Observation) :
    ∃ b', (g.pin id o).belief? id = some b' ∧ b'.listeners = b.listeners ∧
      (b'.type = o ∨ ∃ ts ⊆ b'.observed.types, ts ≠ [] ∧ Descriptor.common? ts = some b'.type.type) ∧
      ((b.type.type = o.type ∨ ∀ y c, g.Informs id y → g.Leads y id → g.belief? y = some c →
          c.ignores o = true) → b'.type = o ∧ b'.observed = ∅) := by
  have hpinned : (g.setBelief id (b.pin o)).belief? id = some (b.pin o) := by
    rw [belief?_setBelief typed, if_pos rfl]
  obtain ⟨-, n, -, hsettles⟩ := call_settles g (.pin id o)
  have hopening : ((Call.pin id o).opening g).1 = g.setBelief id (b.pin o) := by
    simp only [Call.opening, typed]
  rw [hopening] at hsettles
  have hgraphs : (g.setBelief id (b.pin o)).Rises ((Call.pin id o).run g) :=
    Reaches.rises hsettles.reaches
  obtain ⟨b', hb', hrises⟩ := hgraphs.exists_later hpinned
  refine ⟨b', hb', ?_, ?_, fun hquiet => ?_⟩
  · obtain ⟨calls, htelling⟩ := hsettles.exists_telling
    have hlisteners := htelling.listenersAt id
    rwa [listenersAt_eq hb', listenersAt_eq hpinned] at hlisteners
  · rcases hrises.type with hsame | ⟨ts, -, hupper, ⟨u, hu, -⟩, hjoin⟩
    · exact Or.inl hsame
    · exact Or.inr ⟨ts, hupper, List.ne_nil_of_mem hu, hjoin⟩
  · -- the nodes from which changes do not lead back tell only each other
    have hclosed : ∀ src target, ¬ g.Leads src id → (g.setBelief id (b.pin o)).Informs src target →
        ¬ g.Leads target id := fun src target hsrc hinforms hback =>
      hsrc (.head ((informs_setBelief_pin typed).mp hinforms) hback)
    have hstays := hsettles.belief?_eq hclosed
      (fun notice hnotice => harmless_opening_pin typed hquiet hnotice) (not_not.mpr .refl)
    obtain rfl := Option.some.inj (hb'.symm.trans (hstays.trans hpinned))
    exact ⟨rfl, rfl⟩

/-- The type that the variables are seen with has another qualifying word. -/
def volatileFoo : Observation := { type := { name := "Foo", modifier := "volatile" } }

/-- **A pin to the unknown type** stays on a circle: the follower keeps what it observed, and does not
hand it back. -/
theorem pin_stays_unknown : ∃ g b, followingEachOther.foldl Call.run twoVariables = g ∧
    g.belief? 0 = some b ∧ b.type.type = { name := "Foo", modifier := "const" } ∧
      ∃ b', (g.pin 0 .unknown).belief? 0 = some b' ∧ b'.type = .unknown ∧ b'.observed = ∅ := by
  have hstart : ((followingEachOther.foldl Call.run twoVariables).belief? 0).map (fun b => b.type.type) =
      some { name := "Foo", modifier := "const" } := by
    decide +kernel
  obtain ⟨b, hb, htype⟩ := Option.map_eq_some_iff.mp hstart
  obtain ⟨b', hb', -, -, hstays⟩ := pin_stays hb .unknown
  exact ⟨_, b, rfl, hb, htype, b', hb', hstays (Or.inr fun _ _ _ _ _ => rfl)⟩

/-- **A pin is overtaken** on a circle: the follower joins the pinned type with what it observed before,
and hands the join and all that it observed back to the pinned node. -/
theorem pin_stays_overtaken : ∃ g, followingEachOther.foldl Call.run twoVariables = g ∧
    (g.belief? 0).isSome ∧ ((g.pin 0 volatileFoo).typeOf 0).type = { name := "Foo" } ∧
      ((g.pin 0 volatileFoo).observedAt 0).types =
        [{ name := "Foo", modifier := "const" }, { name := "Foo", modifier := "volatile" },
          { name := "Foo" }] := by
  refine ⟨_, rfl, ?_⟩
  decide +kernel

end ProgramGraph.Graph
