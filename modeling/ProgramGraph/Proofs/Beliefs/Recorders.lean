import Mathlib.Data.Finset.Dedup
import Mathlib.Data.List.Count
import ProgramGraph.Proofs.Beliefs.Nesting

set_option autoImplicit false

/-!
# Recorders miss nothing

A recorder makes an entry each time it is told that the type of a node changed, or the set of types
observed on it. While an operation is going on, operations inside it may refine the same node again,
before the recorder is told of the first change; so the entries come in nested order and may be late.
Still there are exactly as many as there were changes, and what the recorder read last is what the node
has in the end.

## Main definitions

* `ProgramGraph.Aspect` — what a listener is told of, and `ProgramGraph.Reading`, what it reads.
* `ProgramGraph.Graph.callbacks` — the entries of a listener about one aspect of a node.
* `ProgramGraph.Graph.UpToDate` — what was read last is still so.
* `ProgramGraph.Graph.Alters` — the type of a node changed, or its set grew.
* `ProgramGraph.Graph.Records` — a recorder that listens to a node.

## Main results

* `ProgramGraph.Graph.Reaches.distinctKeys` — listeners of one node have keys of their own.
* `ProgramGraph.Graph.Telling.exists_callbacks` — as many entries as notices and changes.
* `ProgramGraph.Graph.Telling.upToDate` — whoever is up to date, or about to be told, is up to date in the
  end.
* `ProgramGraph.Graph.recorders_keep_up` — the same for whole operations,
  `ProgramGraph.Graph.Reaches.keep_up` — at every moment of a history.
-/

namespace ProgramGraph

/-- What a listener is told of. -/
inductive Aspect where
  /-- The type of a node. -/
  | type
  /-- The set of types observed on it. -/
  | observed
deriving DecidableEq

/-- What a listener reads off a node. -/
inductive Reading where
  | type (t : Descriptor)
  | observed (ts : Finset Descriptor)
deriving DecidableEq

/-- What a notice is about. -/
def Former.aspect : Former → Aspect
  | .type _ => .type
  | .observed _ => .observed

/-- What an entry is about. -/
def Change.aspect : Change → Aspect
  | .type .. => .type
  | .observed .. => .observed

/-- What was read when an entry was made. -/
def Change.reading : Change → Reading
  | .type _ now => .type now
  | .observed _ now => .observed now.toFinset

namespace Graph

variable {g g' last : Graph} {id x : NodeId} {b : Belief} {f : Belief → Belief} {l : Listener}
  {notice : Notice} {pending : List Notice} {calls : List Invocation} {c : Call} {a : Aspect}

/-- What there is to be read off a node. -/
def reading (g : Graph) (id : NodeId) : Aspect → Reading
  | .type => .type (g.typeOf id).type
  | .observed => .observed (g.observedAt id).types.toFinset

/-- The entries of the listener with a key about one aspect of a node, oldest first. -/
def callbacks (g : Graph) (key : Nat) (id : NodeId) (a : Aspect) : List Event :=
  g.journal.toList.filter fun e => e.listener = key ∧ e.source = id ∧ e.change.aspect = a

/-- What a listener read last of one aspect of a node is what the node has. -/
def UpToDate (g : Graph) (key : Nat) (id : NodeId) (a : Aspect) : Prop :=
  (g.callbacks key id a).getLast?.map (fun e => e.change.reading) = some (g.reading id a)

/-- Whether a listener is up to date is decided by its last entry. -/
instance (g : Graph) (key : Nat) (id : NodeId) (a : Aspect) : Decidable (g.UpToDate key id a) :=
  inferInstanceAs (Decidable (_ = _))

/-- From one graph to another the type of a node changes, or its set gets strictly larger. -/
def Alters (g g' : Graph) (id : NodeId) : Aspect → Prop
  | .type => (g.typeOf id).type ≠ (g'.typeOf id).type
  | .observed => (g.observedAt id).size < (g'.observedAt id).size

/-- Whether a node was altered is decided by comparing types or sizes. -/
instance (g g' : Graph) (id : NodeId) : (a : Aspect) → Decidable (g.Alters g' id a)
  | .type => inferInstanceAs (Decidable (_ ≠ _))
  | .observed => inferInstanceAs (Decidable (_ < _))

/-- An operation that is about a node alters it by itself, before anybody is told. -/
def Invocation.Alters (i : Invocation) (id : NodeId) (a : Aspect) : Prop :=
  i.call.node = id ∧ i.graph.Alters (i.call.opening i.graph).1 id a

/-- Whether an operation alters a node is decided by the graph it begins with. -/
instance (i : Invocation) (id : NodeId) (a : Aspect) : Decidable (i.Alters id a) :=
  inferInstanceAs (Decidable (_ ∧ _))

/-- A recorder listens to a node, on behalf of nobody or of another node, and the listeners of the node
have keys of their own. -/
structure Records (g : Graph) (l : Listener) (id : NodeId) : Prop where
  /-- It listens. -/
  listens : l ∈ g.listenersAt id
  /-- It makes entries, and does not act for the node itself. -/
  reaction : ∃ owner, l.reaction = .record owner ∧ owner ≠ some id
  /-- Keys are distinct. -/
  distinct : ((g.listenersAt id).map Listener.key).Nodup

/-! ## Keys -/

/-- A new listener does not take a key that is taken. -/
theorem nodup_keys_join (h : (b.listeners.map Listener.key).Nodup) (l : Listener) :
    ((b.join l).listeners.map Listener.key).Nodup := by
  unfold Belief.join
  split
  · exact h
  · next hnew =>
    rw [List.map_append, List.nodup_append]
    refine ⟨h, List.nodup_singleton _, ?_⟩
    rintro key hkey _ hl rfl
    obtain ⟨other, hother, rfl⟩ := List.mem_map.mp hkey
    exact hnew (List.any_eq_true.mpr ⟨other, hother, by simpa using hl⟩)

/-- At each node listeners have keys of their own. -/
def DistinctKeys (g : Graph) : Prop := ∀ id, ((g.listenersAt id).map Listener.key).Nodup

/-- One belief is replaced by one whose listeners have keys of their own. -/
theorem DistinctKeys.setBelief (h : g.DistinctKeys) (hb : g.belief? x = some b) {next : Belief}
    (hnext : (next.listeners.map Listener.key).Nodup) : (g.setBelief x next).DistinctKeys := by
  intro id
  rw [listenersAt_setBelief hb]
  split
  · exact hnext
  · exact h id

/-- Some of the listeners have keys of their own. -/
theorem DistinctKeys.keepListeners (h : g.DistinctKeys) (id : NodeId) (p : Listener → Bool) :
    (g.keepListeners id p).DistinctKeys := by
  unfold Graph.keepListeners
  cases hb : g.belief? id with
  | none => exact h
  | some b =>
    have hold := h id
    rw [listenersAt_eq hb] at hold
    exact h.setBelief hb (hold.sublist (List.filter_sublist.map _))

/-- A refinement leaves the listeners as they are. -/
theorem DistinctKeys.refine (h : g.DistinctKeys) (hf : ∀ b, (f b).listeners = b.listeners) :
    (g.refine x f).1.DistinctKeys := by
  intro id
  rw [listenersAt_refine hf]
  exact h id

/-- What a call does by itself keeps keys distinct, also if it pins a type or brings a listener. -/
theorem DistinctKeys.opening (h : g.DistinctKeys) (c : Call) : (c.opening g).1.DistinctKeys := by
  have hbelief : ∀ {id b}, g.belief? id = some b → (b.listeners.map Listener.key).Nodup := by
    intro id b hb
    rw [← listenersAt_eq hb]
    exact h id
  cases c with
  | observe id o => exact h.refine fun b => b.listeners_observe o
  | widen id os => exact h.refine fun b => b.listeners_widen os
  | pin id o =>
    simp only [Call.opening]
    cases hb : g.belief? id with
    | none => exact h
    | some b =>
      have hkeys := hbelief hb
      exact h.setBelief hb hkeys
  | subscribe id l =>
    simp only [Call.opening]
    cases hb : g.belief? id with
    | none => exact h
    | some b => exact h.setBelief hb (nodup_keys_join (hbelief hb) l)
  | rebroadcast id =>
    simp only [Call.opening]
    cases g.belief? id <;> exact h

/-- Telling a listener keeps keys distinct. -/
theorem DistinctKeys.deliver (h : g.DistinctKeys) (notice : Notice) :
    (g.deliver notice).1.DistinctKeys := by
  cases hasks : g.asks notice with
  | none => rwa [deliver_of_asks_eq_none hasks]
  | some c =>
    rw [deliver_of_asks hasks]
    exact h.opening c

/-- **One step** of a history keeps keys distinct, also if types are pinned. -/
theorem Moves.distinctKeys {kind : Call → Prop} {s s' : Graph × List Notice} (h : Moves kind s s') :
    s.1.DistinctKeys → s'.1.DistinctKeys :=
  h.relates (R := fun s s' => s.1.DistinctKeys → s'.1.DistinctKeys) (fun _ c _ hs => hs.opening c)
    (fun _ id p hs => hs.keepListeners id p) fun _ notice _ hs => hs.deliver notice

/-- **Keys stay distinct** in every history. -/
theorem Reaches.distinctKeys {kind : Call → Prop} {s s' : Graph × List Notice} (h : Reaches kind s s')
    (hs : s.1.DistinctKeys) : s'.1.DistinctKeys := by
  induction h with
  | refl => exact hs
  | tail _ hstep ih => exact hstep.distinctKeys ih

/-- Where nobody listens, keys are distinct. -/
theorem Fresh.distinctKeys (h : g.Fresh) : g.DistinctKeys := by
  intro id
  unfold listenersAt
  cases hb : g.belief? id with
  | none => exact List.nodup_nil
  | some b =>
    rw [h id b hb]
    exact List.nodup_nil

/-! ## Notices -/

/-- A notice to a listener about one aspect of a node. -/
def Concerns (l : Listener) (id : NodeId) (a : Aspect) (notice : Notice) : Prop :=
  notice.listener = l ∧ notice.source = id ∧ notice.former.aspect = a

/-- Which notices concern a listener is decided by comparing. -/
instance (l : Listener) (id : NodeId) (a : Aspect) : DecidablePred (Concerns l id a) :=
  fun _ => inferInstanceAs (Decidable (_ ∧ _))

/-- Notices about a node under the key of a listener go to that listener. -/
def Addressed (l : Listener) (id : NodeId) (pending : List Notice) : Prop :=
  ∀ notice ∈ pending, notice.source = id → notice.listener.key = l.key → notice.listener = l

/-- **A change is announced once** to each listener, in one notice about its aspect. -/
theorem countP_announce (hl : l ∈ b.listeners) (howner : l.owner ≠ some id) (hnodup : b.listeners.Nodup)
    (former : Former) (a : Aspect) :
    (b.announce id former).countP (Concerns l id a) = if former.aspect = a then 1 else 0 := by
  have hmem : l ∈ b.audience id := List.mem_filter.mpr ⟨hl, by simpa using howner⟩
  have hone : (b.audience id).count l = 1 := List.count_eq_one_of_mem (hnodup.filter _) hmem
  unfold Belief.announce
  rw [List.countP_map]
  split
  · next ha =>
    rw [← hone, List.count]
    refine List.countP_congr fun other _ => ?_
    simp [Concerns, ha]
  · next ha =>
    rw [List.countP_eq_zero]
    intro other _
    simp [Concerns, ha]

/-- A listener is told of a refinement once for each aspect that it alters.

**Proof sketch.** At another node nobody is told of this one. At the node itself the refinement announces each
aspect to all listeners if it alters it, and the keys of these are distinct, so this one is told once. -/
theorem countP_refine (hrecords : g.Records l id) (hlisteners : ∀ b, (f b).listeners = b.listeners) :
    (g.refine x f).2.countP (Concerns l id a) =
      if x = id ∧ g.Alters (g.refine x f).1 id a then 1 else 0 := by
  obtain ⟨hl, ⟨owner, hreaction, howner⟩, hdistinct⟩ := hrecords
  cases hb : g.belief? x with
  | none =>
    rw [if_neg, refine, hb]
    · rfl
    · rintro ⟨rfl, -⟩
      rw [listenersAt, hb] at hl
      exact List.not_mem_nil hl
  | some b =>
    rw [refine_eq hb]
    by_cases hx : x = id
    · subst hx
      rw [listenersAt_eq hb] at hl hdistinct
      have hone : ∀ former : Former, ((f b).announce x former).countP (Concerns l x a) =
          if former.aspect = a then 1 else 0 := fun former =>
        countP_announce (hlisteners b ▸ hl) (by simpa [Listener.owner, hreaction] using howner)
          (hlisteners b ▸ hdistinct.of_map) former a
      have htype : ((g.setBelief x (f b)).typeOf x).type = (f b).type.type := by
        rw [typeOf, belief?_setBelief hb, if_pos rfl]
      have hset : (g.setBelief x (f b)).observedAt x = (f b).observed := by
        rw [observedAt_setBelief hb, if_pos rfl]
      unfold Belief.announceRefined
      rw [List.countP_append]
      cases a with
      | type =>
        simp only [Graph.Alters, htype, typeOf_eq hb, true_and]
        split <;> split <;> simp_all [Former.aspect]
      | observed =>
        simp only [Graph.Alters, hset, observedAt_eq hb, true_and]
        split <;> split <;> simp_all [Former.aspect]
    · rw [if_neg fun h => hx h.1, ← refine_eq hb, List.countP_eq_zero]
      intro notice hnotice hconcerns
      exact hx ((mem_refine hlisteners hnotice).1.symm.trans (of_decide_eq_true hconcerns).2.1)

/-- What a refinement does not alter reads the same. -/
theorem reading_refine (hrises : ∀ b : Belief, b.Rises (f b))
    (h : ¬ (x = id ∧ g.Alters (g.refine x f).1 id a)) :
    (g.refine x f).1.reading id a = g.reading id a := by
  have hbelief := g.belief?_refine x f id
  by_cases hx : x = id
  · have hsame : ¬ g.Alters (g.refine x f).1 id a := fun halters => h ⟨hx, halters⟩
    cases a with
    | type => exact congrArg Reading.type (not_not.mp hsame).symm
    | observed =>
      refine congrArg Reading.observed (List.toFinset_eq_of_perm _ _ ?_)
      have hsubset := (g.rises_refine x hrises).observedAt id
      have hsize : ((g.refine x f).1.observedAt id).types.length ≤ (g.observedAt id).types.length := by
        rw [TypeSet.length_types, TypeSet.length_types]
        exact Nat.le_of_not_lt hsame
      have hsubperm := List.subperm_of_subset (g.observedAt id).distinct hsubset
      exact (hsubperm.perm_of_length_le hsize).symm
  · rw [if_neg hx] at hbelief
    cases a <;> simp only [reading, typeOf, observedAt, hbelief]

/-- The notices of a refinement that concern a node go to its listeners. -/
theorem addressed_refine (hrecords : g.Records l id) (hlisteners : ∀ b, (f b).listeners = b.listeners) :
    Addressed l id (g.refine x f).2 := by
  intro notice hnotice hsource hkey
  obtain ⟨hx, hlistens, -⟩ := mem_refine hlisteners hnotice
  rw [← hx, hsource] at hlistens
  exact List.inj_on_of_nodup_map hrecords.distinct hlistens hrecords.listens hkey

/-! ## Entries -/

/-- An entry is added to those that it belongs to. -/
theorem callbacks_noted (g : Graph) (notice : Notice) (key : Nat) (id : NodeId) (a : Aspect) :
    (g.noted notice).callbacks key id a = g.callbacks key id a ++
      if notice.listener.key = key ∧ notice.source = id ∧ notice.former.aspect = a then
        [g.eventOf notice] else [] := by
  have haspect : (g.eventOf notice).change.aspect = notice.former.aspect := by
    unfold eventOf
    cases notice.former <;> rfl
  unfold callbacks noted
  rw [Array.toList_push, List.filter_append]
  congr 1
  rw [List.filter_cons, List.filter_nil]
  simp only [haspect, decide_eq_true_eq]
  rfl

/-- The opening of a refinement makes no entries. -/
theorem callbacks_opening (hc : c.IsRefinement) (key : Nat) (id : NodeId) (a : Aspect) :
    (c.opening g).1.callbacks key id a = g.callbacks key id a := by
  rw [callbacks, c.opening_eq g hc, journal_refine, callbacks]

/-- An entry holds what there is to be read. -/
theorem reading_eventOf (g : Graph) (notice : Notice) :
    (g.eventOf notice).change.reading = g.reading notice.source notice.former.aspect := by
  unfold eventOf
  cases notice.former <;> rfl

/-- Recorders stay. -/
theorem Records.of_listenersAt (h : g.Records l id) (hsame : g'.listenersAt id = g.listenersAt id) :
    g'.Records l id :=
  ⟨hsame ▸ h.listens, h.reaction, hsame ▸ h.distinct⟩

/-- A notice to a follower is none to a recorder. -/
theorem not_concerns_of_asks (hrecords : g.Records l id) (h : g.asks notice = some c) :
    ¬ Concerns l id a notice := by
  rintro ⟨rfl, -⟩
  obtain ⟨owner, hreaction, -⟩ := hrecords.reaction
  rw [asks, hreaction] at h
  cases h

section Telling

variable (hrecords : g.Records l id)
include hrecords

/-- What the opening of a refinement owes to a recorder: one notice for each aspect that it alters. -/
theorem countP_opening (hc : c.IsRefinement) :
    (c.opening g).2.countP (Concerns l id a) = if Invocation.Alters ⟨g, c⟩ id a then 1 else 0 := by
  have hcount := countP_refine (x := c.node) (a := a) hrecords c.listeners_change
  rw [← c.opening_eq g hc] at hcount
  exact hcount

/-- The opening of a refinement keeps recorders. -/
theorem Records.opening (hc : c.IsRefinement) :
    (c.opening g).1.Records l id ∧ Addressed l id (c.opening g).2 := by
  rw [c.opening_eq g hc]
  exact ⟨hrecords.of_listenersAt (listenersAt_refine c.listeners_change ..),
    addressed_refine hrecords c.listeners_change⟩

/-- A recorder that is up to date stays so in the opening of a refinement, or is owed a notice. -/
theorem upToDate_opening (hc : c.IsRefinement) (h : g.UpToDate l.key id a) :
    (c.opening g).1.UpToDate l.key id a ∨ ∃ notice ∈ (c.opening g).2, Concerns l id a notice := by
  have hcount := countP_opening (a := a) hrecords hc
  by_cases halters : Invocation.Alters ⟨g, c⟩ id a
  · right
    rw [if_pos halters] at hcount
    obtain ⟨notice, hnotice, hconcerns⟩ := List.countP_pos_iff.mp (hcount ▸ Nat.one_pos)
    exact ⟨notice, hnotice, of_decide_eq_true hconcerns⟩
  · left
    have hsame : ¬ (c.node = id ∧ g.Alters (g.refine c.node c.change).1 id a) := by
      rw [← c.opening_eq g hc]
      exact halters
    unfold UpToDate
    rw [callbacks_opening hc, c.opening_eq g hc, reading_refine c.rises_change hsame]
    exact h

/-- **As many entries as changes.** When listeners are told, a recorder makes one entry for each notice
to it, and one for each operation that alters its node.

**Proof sketch.** Induction on what is told. A notice to a recorder makes one entry, and it is counted if it
concerns the node. A notice to a follower sets off an operation, with all of its own notices, before the
others are told; what this alters is announced once (`countP_opening`). -/
theorem Telling.exists_callbacks (h : Telling g pending calls last) (haddressed : Addressed l id pending) :
    ∃ new, last.callbacks l.key id a = g.callbacks l.key id a ++ new ∧
      new.length = pending.countP (Concerns l id a) + calls.countP fun i => i.Alters id a := by
  induction h with
  | done g => exact ⟨[], by rw [List.append_nil], rfl⟩
  | @record g last notice rest calls hasks _ ih =>
    have hrest : Addressed l id rest := fun other hother => haddressed other (List.mem_cons_of_mem _ hother)
    have hiff : notice.listener.key = l.key ∧ notice.source = id ∧ notice.former.aspect = a ↔
        Concerns l id a notice :=
      ⟨fun ⟨hkey, hsource, ha⟩ => ⟨haddressed notice (List.mem_cons_self ..) hsource hkey, hsource, ha⟩,
        fun ⟨hl, hsource, ha⟩ => ⟨congrArg Listener.key hl, hsource, ha⟩⟩
    obtain ⟨new, hnew, hlength⟩ := ih (hrecords.of_listenersAt rfl) hrest
    rw [callbacks_noted, List.append_assoc] at hnew
    refine ⟨_, hnew, ?_⟩
    rw [List.length_append, hlength, List.countP_cons]
    by_cases hconcerns : Concerns l id a notice
    · simp only [if_pos (hiff.mpr hconcerns), hconcerns, decide_true, if_true, List.length_singleton]
      omega
    · simp only [if_neg fun h => hconcerns (hiff.mp h), hconcerns, decide_false, Bool.false_eq_true,
        if_false, List.length_nil]
      omega
  | @follow g next last notice rest c inner calls hasks inside _ ihinside ihothers =>
    have hc := (isRefinement_of_asks hasks).1
    have hrest : Addressed l id rest := fun other hother => haddressed other (List.mem_cons_of_mem _ hother)
    obtain ⟨hopened, hopening⟩ := hrecords.opening hc
    have hnot : ¬ Concerns l id a notice := not_concerns_of_asks hrecords hasks
    obtain ⟨new, hnew, hlength⟩ := ihinside hopened hopening
    obtain ⟨more, hmore, hlength'⟩ := ihothers (hopened.of_listenersAt (inside.listenersAt id)) hrest
    refine ⟨new ++ more, ?_, ?_⟩
    · rw [hmore, hnew, callbacks_opening hc, List.append_assoc]
    · rw [List.length_append, hlength, hlength', countP_opening hrecords hc, List.countP_cons,
        List.countP_append, List.countP_cons]
      simp only [hnot, decide_false, Bool.false_eq_true, if_false, decide_eq_true_eq]
      omega

/-- **Nobody is left behind.** When listeners are told, a recorder that is up to date or about to be told
is up to date in the end.

**Proof sketch.** Induction on what is told. Where an entry is written for this recorder, it is up to date
with it. Any other notice changes the node only by a refinement, which owes the recorder a notice of its own,
and this is among those that are told before the next one is. -/
theorem Telling.upToDate (h : Telling g pending calls last) (haddressed : Addressed l id pending)
    (hstart : g.UpToDate l.key id a ∨ ∃ notice ∈ pending, Concerns l id a notice) :
    last.UpToDate l.key id a := by
  induction h with
  | done g => exact hstart.resolve_right fun ⟨_, hnotice, _⟩ => absurd hnotice List.not_mem_nil
  | @record g last notice rest calls hasks _ ih =>
    have hrest : Addressed l id rest := fun other hother => haddressed other (List.mem_cons_of_mem _ hother)
    refine ih (hrecords.of_listenersAt rfl) hrest ?_
    unfold UpToDate
    rw [callbacks_noted]
    split
    · next hthis =>
      -- the entry is made now
      obtain ⟨-, hsource, ha⟩ := hthis
      left
      rw [List.getLast?_append, List.getLast?_singleton, Option.some_or, Option.map_some, reading_eventOf,
        hsource, ha]
      rfl
    · next hother =>
      rw [List.append_nil]
      refine hstart.imp_right ?_
      rintro ⟨owed, howed, hconcerns⟩
      rcases List.mem_cons.mp howed with rfl | howed
      · exact absurd ⟨congrArg Listener.key hconcerns.1, hconcerns.2⟩ hother
      · exact ⟨owed, howed, hconcerns⟩
  | @follow g next last notice rest c inner calls hasks inside _ ihinside ihothers =>
    have hc := (isRefinement_of_asks hasks).1
    have hrest : Addressed l id rest := fun other hother => haddressed other (List.mem_cons_of_mem _ hother)
    obtain ⟨hopened, hopening⟩ := hrecords.opening hc
    have hnext := hopened.of_listenersAt (inside.listenersAt id)
    refine ihothers hnext hrest ?_
    rcases hstart with huptodate | ⟨owed, howed, hconcerns⟩
    · exact Or.inl (ihinside hopened hopening (upToDate_opening hrecords hc huptodate))
    · -- the notice that is delivered goes to somebody else
      rcases List.mem_cons.mp howed with rfl | howed
      · exact absurd hconcerns (not_concerns_of_asks hrecords hasks)
      · exact Or.inr ⟨owed, howed, hconcerns⟩

end Telling

/-! ## Whole operations -/

/-- **An operation and a recorder:** it makes as many entries as there are changes, and is up to date
afterwards if it was so before. -/
theorem Performs.keep_up (h : Performs g c calls last) (hc : c.IsRefinement) (hrecords : g.Records l id)
    (a : Aspect) :
    (∃ new, last.callbacks l.key id a = g.callbacks l.key id a ++ new ∧
      new.length = calls.countP fun i => i.Alters id a) ∧
    (g.UpToDate l.key id a → last.UpToDate l.key id a) := by
  obtain ⟨hopened, hopening⟩ := hrecords.opening hc
  cases h with
  | intro inside =>
    refine ⟨?_, fun h => inside.upToDate hopened hopening (upToDate_opening hrecords hc h)⟩
    obtain ⟨new, hnew, hlength⟩ := inside.exists_callbacks (a := a) hopened hopening
    rw [callbacks_opening hc] at hnew
    refine ⟨new, hnew, ?_⟩
    rw [hlength, countP_opening hrecords hc, List.countP_cons, Nat.add_comm]
    simp only [decide_eq_true_eq]

/-- **Recorders are told of strict changes, once each, and are never left stale.** An observation or a
widening contains certain operations, itself the first of them. Each recorder of a node makes exactly as
many entries about the type of the node as there are operations among them that change the type by
themselves, and exactly as many about its set as there are operations that make the set strictly larger.
And what it read last is what the node has in the end, if that was so before.

**Proof sketch.** Notices are delivered one at a time, each with all its consequences, so the entries of a
recorder are counted along the nesting of the operations: a notice to it is an entry, and every operation that
alters the node by itself puts one notice to it in front of the others. Since it is never overtaken by a
notice to somebody else, what it is told last is what the node has. -/
theorem recorders_keep_up (g : Graph) {c : Call} (hc : c.IsRefinement) :
    ∃ calls, (∀ calls' last, Performs g c calls' last ↔ calls' = calls ∧ last = c.run g) ∧
      ∀ l id, g.Records l id → ∀ a,
        (∃ new, (c.run g).callbacks l.key id a = g.callbacks l.key id a ++ new ∧
          new.length = calls.countP fun i => i.Alters id a) ∧
        (g.UpToDate l.key id a → (c.run g).UpToDate l.key id a) := by
  obtain ⟨calls, hperforms⟩ := exists_performs g c
  refine ⟨calls, fun calls' last => ⟨fun h => hperforms.unique h, ?_⟩, fun l id hrecords a => ?_⟩
  · rintro ⟨rfl, rfl⟩
    exact hperforms
  · exact hperforms.keep_up hc hrecords a

/-- The variables are seen with a primitive type each and come to follow each other, and a recorder
listens to the first one. -/
def tellingEachOther : List Call :=
  [.observe 0 { type := { name := "char" } }, .observe 1 { type := { name := "int" } },
    .subscribe 0 ⟨0, .follow 1⟩, .subscribe 1 ⟨1, .follow 0⟩, .subscribe 0 ⟨2, .record none⟩]

/-- **Changed twice in one operation.** An observation on the first variable makes its set larger, and
again when the other one hands its own set back; the recorder is told of both and knows the set. -/
theorem recorders_keep_up_twice : ∃ g calls, tellingEachOther.foldl Call.run twoVariables = g ∧
    g.Records ⟨2, .record none⟩ 0 ∧ g.UpToDate 2 0 .observed ∧
      Performs g (.observe 0 { type := { name := "Foo" } }) calls
        (g.observe 0 { type := { name := "Foo" } }) ∧
        (calls.countP fun i => i.Alters 0 .observed) = 2 ∧
          (g.observe 0 { type := { name := "Foo" } }).UpToDate 2 0 .observed := by
  have hfacts : (⟨2, .record none⟩ ∈ (tellingEachOther.foldl Call.run twoVariables).listenersAt 0 ∧
        (((tellingEachOther.foldl Call.run twoVariables).listenersAt 0).map Listener.key).Nodup) ∧
      (tellingEachOther.foldl Call.run twoVariables).UpToDate 2 0 .observed ∧
      ((tellingEachOther.foldl Call.run twoVariables).callbacks 2 0 .observed).length = 1 ∧
      (((tellingEachOther.foldl Call.run twoVariables).observe 0
        { type := { name := "Foo" } }).callbacks 2 0 .observed).length = 3 := by
    decide +kernel
  obtain ⟨⟨hlistens, hdistinct⟩, huptodate, hbefore, hafter⟩ := hfacts
  have hrecords : (tellingEachOther.foldl Call.run twoVariables).Records ⟨2, .record none⟩ 0 :=
    ⟨hlistens, ⟨none, rfl, by simp⟩, hdistinct⟩
  generalize tellingEachOther.foldl Call.run twoVariables = g at huptodate hbefore hafter hrecords
  obtain ⟨calls, hperforms, hrecorder⟩ :=
    recorders_keep_up g (c := .observe 0 { type := { name := "Foo" } }) trivial
  obtain ⟨⟨new, hnew, hlength⟩, hkeeps⟩ := hrecorder _ 0 hrecords .observed
  refine ⟨g, calls, rfl, hrecords, huptodate, (hperforms _ _).mpr ⟨rfl, rfl⟩, ?_, hkeeps huptodate⟩
  have hcount := congrArg List.length hnew
  rw [List.length_append, hbefore, hlength] at hcount
  change ((g.observe 0 { type := { name := "Foo" } }).callbacks 2 0 .observed).length = _ at hcount
  omega

/-- **Recorders keep up at every moment of a history** that began when nobody listened. Whatever was done
since then, listeners of one node have keys of their own, so whoever listens in order to make entries, on
behalf of nobody or of another node, makes exactly as many as there are changes, and is not left stale. -/
theorem Reaches.keep_up {kind : Call → Prop} {start : Graph} (history : Reaches kind (start, []) (g, []))
    (fresh : start.Fresh) (hc : c.IsRefinement) :
    ∃ calls, Performs g c calls (c.run g) ∧
      ∀ l id owner, l ∈ g.listenersAt id → l.reaction = .record owner → owner ≠ some id → ∀ a,
        (∃ new, (c.run g).callbacks l.key id a = g.callbacks l.key id a ++ new ∧
          new.length = calls.countP fun i => i.Alters id a) ∧
        (g.UpToDate l.key id a → (c.run g).UpToDate l.key id a) := by
  obtain ⟨calls, hperforms⟩ := exists_performs g c
  refine ⟨calls, hperforms, fun l id owner hlistens hreaction howner a => ?_⟩
  have hkeys : g.DistinctKeys := history.distinctKeys fresh.distinctKeys
  exact hperforms.keep_up hc ⟨hlistens, ⟨owner, hreaction, howner⟩, hkeys id⟩ a

end Graph

end ProgramGraph
