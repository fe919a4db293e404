import ProgramGraph.Proofs.Beliefs.Rising

set_option autoImplicit false

/-!
# Primitive types stay

Where nothing but primitive types was observed and nothing else is believed, a type that is known is
never given up, whatever primitive types are observed and however they are passed on from follower to
follower. What a node observes is held against its type, and what is added to its set against its set,
so the two need not agree; but a node whose type is still open only ever joins primitive types, and the
join of these is primitive or unknown.

## Main definitions

* `ProgramGraph.Descriptor.IsOpenOrPrimitive` — a type that is primitive if it is known at all.
* `ProgramGraph.Belief.IsPrimitive`, `ProgramGraph.Graph.IsPrimitive` — only primitive types are believed.
* `ProgramGraph.Graph.Fixes` — known types stay, and only primitive types are believed after.
* `ProgramGraph.Graph.Call.Primitive` — an operation that is given primitive types only.

## Main results

* `ProgramGraph.Descriptor.isOpenOrPrimitive_common?` — the join of primitive types.
* `ProgramGraph.Belief.IsPrimitive.observe`, `ProgramGraph.Belief.IsPrimitive.widen` — single beliefs.
* `ProgramGraph.Graph.IsPrimitive.moves` — one step of a history.
* `ProgramGraph.Graph.known_types_stay` — whole histories.
-/

namespace ProgramGraph

/-! ## Primitive types -/

namespace Descriptor

/-- A type that is primitive if it is known at all. -/
def IsOpenOrPrimitive (t : Descriptor) : Prop := t.isUnknown = false → t.isPrimitive = true

/-- **The join of primitive types** is primitive or unknown: it is one of them, or what they are without
their qualifying words. -/
theorem isOpenOrPrimitive_common? {ts : List Descriptor} {t : Descriptor}
    (hts : ∀ u ∈ ts, u.isPrimitive = true) (h : common? ts = some t) : t.IsOpenOrPrimitive := by
  intro hknown
  obtain ⟨u, hu⟩ := exists_mem_of_common? h
  rcases common?_spec h with hsame | ⟨hshape, -⟩ | ⟨rfl, -⟩
  · exact hsame u hu ▸ hts u hu
  · -- a qualifying word is no matter to whether a type is primitive
    have hplain : u.unqualified.isPrimitive = true := hts u hu
    exact hshape u hu ▸ hplain
  · cases hknown

end Descriptor

/-! ## Single beliefs -/

namespace Belief

variable {b : Belief}

/-- Only primitive types were observed, and the type is primitive if it is known. -/
structure IsPrimitive (b : Belief) : Prop where
  /-- What was observed is primitive. -/
  observed : ∀ t ∈ b.observed.types, t.isPrimitive = true
  /-- The type is primitive if it is known. -/
  type : b.type.type.IsOpenOrPrimitive

/-- **A primitive observation** is ignored where the type is known; elsewhere it joins primitive
types. -/
theorem IsPrimitive.observe (h : b.IsPrimitive) {o : Observation} (ho : o.type.IsOpenOrPrimitive) :
    (b.observe o).IsPrimitive ∧ (b.type.type.isUnknown = false → (b.observe o).type = b.type) := by
  by_cases hignores : b.ignores o = true
  · rw [Belief.observe, if_pos hignores]
    exact ⟨h, fun _ => rfl⟩
  · have heq := observe_of_not_ignores hignores
    simp only [ignores, Bool.or_eq_true, not_or, Bool.not_eq_true] at hignores
    obtain ⟨hknown, htaken⟩ := hignores
    have hmem : ∀ t ∈ (b.observed.insert o).types, t.isPrimitive = true := by
      intro t ht
      rcases TypeSet.mem_types_insert.mp ht with ht | rfl
      · exact h.observed t ht
      · exact ho hknown
    obtain ⟨j, hj, hjoin⟩ := b.observed.exists_join?_insert o
    refine ⟨heq ▸ ⟨hmem, ?_⟩, fun htype => ?_⟩
    · simpa only [hj, Option.getD_some] using Descriptor.isOpenOrPrimitive_common? hmem hjoin
    · -- a known type is primitive, so the observation would have been ignored
      rw [htype, h.type htype, ho hknown] at htaken
      cases htaken

/-- **Widening by primitive types** touches no type. -/
theorem IsPrimitive.widen (h : b.IsPrimitive) {os : List Observation}
    (hos : ∀ o ∈ os, o.type.isPrimitive = true) :
    (b.widen os).IsPrimitive ∧ (b.widen os).type = b.type := by
  unfold Belief.widen
  split
  · exact ⟨h, rfl⟩
  · refine ⟨⟨fun t ht => ?_, h.type⟩, rfl⟩
    rcases TypeSet.mem_types_insertAll.mp ht with ht | ⟨o, ho, rfl⟩
    · exact h.observed t ht
    · exact hos o ho

/-- A new listener is no matter of belief. -/
theorem join_believes (b : Belief) (l : Listener) :
    (b.join l).type = b.type ∧ (b.join l).observed = b.observed := by
  unfold Belief.join
  split <;> exact ⟨rfl, rfl⟩

end Belief

/-! ## Graphs -/

namespace Graph

variable {g g' g'' : Graph} {id : NodeId} {b : Belief}

/-- Only primitive types are believed and were observed, of all nodes. -/
def IsPrimitive (g : Graph) : Prop := ∀ id b, g.belief? id = some b → b.IsPrimitive

/-- Known types stay, and only primitive types are believed after. -/
structure Fixes (g g' : Graph) : Prop where
  /-- Only primitive types are believed after. -/
  primitive : g'.IsPrimitive
  /-- Known types stay. -/
  typeOf : ∀ id, (g.typeOf id).type.isUnknown = false → g'.typeOf id = g.typeOf id

/-- A graph in which nothing happens. -/
theorem IsPrimitive.fixes (h : g.IsPrimitive) : g.Fixes g := ⟨h, fun _ _ => rfl⟩

/-- Known types stay, step by step. -/
theorem Fixes.trans (h : g.Fixes g') (h' : g'.Fixes g'') : g.Fixes g'' := by
  refine ⟨h'.primitive, fun id hknown => ?_⟩
  have hsame := h.typeOf id hknown
  exact (h'.typeOf id (hsame ▸ hknown)).trans hsame

/-- The type of a node is primitive if it is known. -/
theorem IsPrimitive.typeOf (h : g.IsPrimitive) (id : NodeId) : (g.typeOf id).type.IsOpenOrPrimitive := by
  cases hb : g.belief? id with
  | none =>
    rw [Graph.typeOf, hb]
    intro hknown
    cases hknown
  | some b =>
    rw [typeOf_eq hb]
    exact (h id b hb).type

/-- What was observed of a node is primitive. -/
theorem IsPrimitive.observedAt (h : g.IsPrimitive) (id : NodeId) :
    ∀ o ∈ (g.observedAt id).observations, o.type.isPrimitive = true := by
  intro o ho
  unfold Graph.observedAt at ho
  cases hb : g.belief? id with
  | none =>
    rw [hb] at ho
    exact absurd ho List.not_mem_nil
  | some b =>
    rw [hb] at ho
    exact (h id b hb).observed o.type (List.mem_map_of_mem ho)

/-- **One belief is replaced** by another one that is primitive and keeps the type if it was known. -/
theorem IsPrimitive.setBelief (h : g.IsPrimitive) (hb : g.belief? id = some b) {next : Belief}
    (hnext : next.IsPrimitive) (htype : b.type.type.isUnknown = false → next.type = b.type) :
    g.Fixes (g.setBelief id next) := by
  refine ⟨fun other c hc => ?_, fun other hknown => ?_⟩
  · rw [belief?_setBelief hb] at hc
    split at hc
    · exact Option.some.inj hc ▸ hnext
    · exact h other c hc
  · have hset := belief?_setBelief hb next other
    split at hset
    · next heq =>
      subst heq
      rw [typeOf_eq hb] at hknown ⊢
      rw [typeOf_eq hset]
      exact htype hknown
    · rw [Graph.typeOf, hset, ← Graph.typeOf]

/-- **One refinement** that does so to every primitive belief. -/
theorem IsPrimitive.refine (h : g.IsPrimitive) (id : NodeId) {f : Belief → Belief}
    (hf : ∀ b : Belief, b.IsPrimitive →
      (f b).IsPrimitive ∧ (b.type.type.isUnknown = false → (f b).type = b.type)) :
    g.Fixes (g.refine id f).1 := by
  unfold Graph.refine
  cases hb : g.belief? id with
  | none => exact h.fixes
  | some b =>
    obtain ⟨hprimitive, htype⟩ := hf b (h id b hb)
    exact h.setBelief hb hprimitive htype

/-- **Other listeners** are no matter of belief. -/
theorem IsPrimitive.setListeners (h : g.IsPrimitive) (hb : g.belief? id = some b) {next : Belief}
    (htype : next.type = b.type) (hobserved : next.observed = b.observed) :
    g.Fixes (g.setBelief id next) := by
  obtain ⟨hset, hopen⟩ := h id b hb
  exact h.setBelief hb ⟨hobserved ▸ hset, htype ▸ hopen⟩ fun _ => htype

/-- When listeners are removed, known types stay. -/
theorem IsPrimitive.keepListeners (h : g.IsPrimitive) (id : NodeId) (p : Listener → Bool) :
    g.Fixes (g.keepListeners id p) := by
  unfold Graph.keepListeners
  cases hb : g.belief? id with
  | none => exact h.fixes
  | some b => exact h.setListeners hb rfl rfl

/-! ### Histories -/

/-- An operation that pins no type and is given primitive types only. -/
def Call.Primitive : Call → Prop
  | .observe _ o => o.type.isPrimitive = true
  | .widen _ os => ∀ o ∈ os, o.type.isPrimitive = true
  | .pin .. => False
  | .subscribe .. | .rebroadcast .. => True

variable {s s' : Graph × List Notice}

/-- **The opening of an operation** that is given primitive types only. -/
theorem IsPrimitive.opening (h : g.IsPrimitive) {c : Call} (hc : c.Primitive) :
    g.Fixes (c.opening g).1 := by
  cases c with
  | observe id o => exact h.refine id fun b hb => hb.observe fun _ => hc
  | widen id os =>
    exact h.refine id fun b hb => ⟨(hb.widen hc).1, fun _ => (hb.widen hc).2⟩
  | pin id o => exact hc.elim
  | subscribe id l =>
    simp only [Call.opening]
    cases hb : g.belief? id with
    | none => exact h.fixes
    | some b => exact h.setListeners hb (b.join_believes l).1 (b.join_believes l).2
  | rebroadcast id =>
    simp only [Call.opening]
    cases g.belief? id <;> exact h.fixes

/-- **Telling a listener:** what it hears is what is believed about the node, so it is primitive. -/
theorem IsPrimitive.deliver (h : g.IsPrimitive) (notice : Notice) : g.Fixes (g.deliver notice).1 := by
  unfold Graph.deliver
  split
  · exact h.refine _ fun b hb => hb.observe (h.typeOf notice.source)
  · have hobserved := h.observedAt notice.source
    exact h.refine _ fun b hb => ⟨(hb.widen hobserved).1, fun _ => (hb.widen hobserved).2⟩
  · exact ⟨fun id b hb => h id b hb, fun _ _ => rfl⟩

/-- **One step** of a history. -/
theorem IsPrimitive.moves (hs : s.1.IsPrimitive) (h : Moves Call.Primitive s s') : s.1.Fixes s'.1 :=
  h.relates (R := fun s s' => s.1.IsPrimitive → s.1.Fixes s'.1) (fun _ _ hc hs => hs.opening hc)
    (fun _ id p hs => hs.keepListeners id p) (fun _ notice _ hs => hs.deliver notice) hs

/-- **A history.** -/
theorem IsPrimitive.reaches (hs : s.1.IsPrimitive) (h : Reaches Call.Primitive s s') :
    s.1.Fixes s'.1 := by
  induction h with
  | refl => exact hs.fixes
  | tail _ hstep ih => exact ih.trans (ih.primitive.moves hstep)

/-- **Primitive types stay.** Let only primitive types be believed and have been observed in a graph, and
let operations be given no others. Then this remains so at every moment of the history, also between
two deliveries, and a type that is known at some moment is the type at every later one. Operations that
are carried out one after the other are such a history.

**Proof sketch.** Induction along a history. At a moment with primitive types only, what is delivered or asked
for is primitive as well, so the graph stays primitive; and a belief that knows a primitive type ignores
further ones. Hence a single step changes no known type, and a whole history does not either. -/
theorem known_types_stay {g₀ : Graph} (primitive : g₀.IsPrimitive) :
    (∀ s s', Reaches Call.Primitive (g₀, []) s → Reaches Call.Primitive s s' →
      s.1.IsPrimitive ∧
        ∀ id, (s.1.typeOf id).type.isUnknown = false → s'.1.typeOf id = s.1.typeOf id) ∧
      ∀ (g : Graph) (calls : List Call), (∀ c ∈ calls, c.Primitive) →
        Reaches Call.Primitive (g, []) (calls.foldl Call.run g, []) := by
  refine ⟨fun s s' h h' => ?_, fun g _ hcalls => reaches_foldl g hcalls⟩
  have hs := (IsPrimitive.reaches (s := (g₀, [])) primitive h).primitive
  exact ⟨hs, (hs.reaches h').typeOf⟩

/-- The variables follow each other. One is seen with a qualified primitive type; then the other one is
seen with another primitive type, and both are told to take over more of them. -/
def primitiveCalls : List Call × List Call :=
  ([.subscribe 0 ⟨0, .follow 1⟩, .subscribe 1 ⟨1, .follow 0⟩,
      .observe 0 { type := { name := "int", modifier := "const" } }],
    [.observe 1 { type := { name := "char" } },
      .widen 0 [{ type := { name := "int" } }, { type := { name := "long" } }], .rebroadcast 1])

/-- **Around a circle** the type that was observed first stays with both variables. -/
theorem known_types_stay_circle : twoVariables.IsPrimitive ∧ (∀ c ∈ primitiveCalls.1, c.Primitive) ∧
    (∀ c ∈ primitiveCalls.2, c.Primitive) ∧
    ∃ g g', primitiveCalls.1.foldl Call.run twoVariables = g ∧ primitiveCalls.2.foldl Call.run g = g' ∧
      (g.typeOf 1).type = { name := "int", modifier := "const" } ∧ g'.typeOf 1 = g.typeOf 1 := by
  have hprimitive : twoVariables.IsPrimitive := by
    intro id b hb
    match id with
    | 0 | 1 =>
      obtain rfl := Option.some.inj hb
      exact ⟨fun t ht => absurd ht List.not_mem_nil, fun hknown => by cases hknown⟩
    | _ + 2 => cases hb
  have hfirst : ∀ c ∈ primitiveCalls.1, c.Primitive := by
    simp [primitiveCalls, Call.Primitive, Descriptor.isPrimitive, Descriptor.hasAdjustment,
      Descriptor.primitiveNames]
  have hmore : ∀ c ∈ primitiveCalls.2, c.Primitive := by
    simp [primitiveCalls, Call.Primitive, Descriptor.isPrimitive, Descriptor.hasAdjustment,
      Descriptor.primitiveNames]
  have htype : ((primitiveCalls.1.foldl Call.run twoVariables).typeOf 1).type =
      { name := "int", modifier := "const" } := by
    decide +kernel
  obtain ⟨hstay, hcalls⟩ := known_types_stay hprimitive
  have hlater := (hstay _ _ (hcalls twoVariables _ hfirst) (hcalls _ _ hmore)).2 1
  generalize primitiveCalls.1.foldl Call.run twoVariables = g at htype hlater
  exact ⟨hprimitive, hfirst, hmore, g, _, rfl, rfl, htype, hlater (by rw [htype]; rfl)⟩

end Graph

end ProgramGraph
