import ProgramGraph.Proofs.Resolution.Tracking
import ProgramGraph.Proofs.Sessions.History

set_option autoImplicit false

/-!
# References follow their declarations

A reference that was written without a type hears of the types of the declaration it means. As long as
it never means another one, it has the same type as the declaration at every moment of a history,
unless the declaration lost its type: the unknown type is not passed on, so where discordant types are
observed on a declaration, references to it keep the type they had.

## Main definitions

* `ProgramGraph.Graph.Bare` — a reference that means nothing, and on which nothing was observed.

## Main results

* `ProgramGraph.Graph.bare_or_typed` — references that are written without a type are bare.
* `ProgramGraph.Resolver.Run.tracks` — a whole run keeps a reference at its declaration.
* `ProgramGraph.Graph.reference_follows` — histories in which a reference means one declaration.
-/

namespace ProgramGraph

/-! ## Runs -/

namespace Resolver

variable {g : Graph} {t₀ : ScopeTable} {index : Index} {V₀ V : List NodeId} {r r' : Resolver}
  {reference d : NodeId} {n : Nat} {before : List NodeId} {p : Place} {node : Node} {t : ScopeTable}

/-- **The visit of a reference** that means the declaration afterwards, or nothing.

**Proof sketch.** Up to the linking only beliefs of others changed, and the reference went on tracking.
Linking then points it at the declaration, or at nothing. -/
theorem Visited.tracks (h : Visited n t₀ before p reference node t r r') (wired : r.graph.Wired)
    (inStep : r.graph.InStep) (tracks : r.graph.Tracks reference d)
    (hmeans : ∀ x, r'.graph.targetOf reference = some x → x = d)
    (hd : r'.graph.tag? d ≠ some .reference) : r'.graph.Tracks reference d := by
  have hvisited : (Walk.visitOf p reference node).node = reference := rfl
  cases h.resolves with
  | access hpayload =>
    rw [hvisited] at hpayload
    exact absurd ((Graph.tag?_of_payload? hpayload).symm.trans tracks.kind) (by simp [Payload.tag])
  | other htag => exact absurd tracks.kind htag
  | @reference name isStatic old target r₁ _ f hpayload _ hreaches _ hlink hlinks hwritten =>
    rw [hvisited] at hpayload hlink hlinks hwritten
    have hchanges := hreaches.step.changes
    have hpayload₁ := hreaches.step.usages reference _ List.not_mem_nil hpayload (Or.inl rfl)
    have hgraph : r'.graph = r₁.graph.pointed reference old target := by
      have heq := (Sound.link_eq (r := r₁.count f) hpayload₁).symm.trans hlink
      cases heq
      rfl
    have wired₁ := wired.changes hchanges
    have wired' := wired₁.changes hlinks.step.changes
    have htag : ∀ id, r'.graph.tag? id = r₁.graph.tag? id := fun id => by rw [hgraph, Graph.tag?_pointed]
    rw [Graph.targetOf_eq hwritten] at hmeans
    have hvalue : r₁.graph.All Tag.isValueDeclaration target.toList := by
      intro x hx
      obtain ⟨tag, hkind, hvalue⟩ := wired'.targets reference x
        ((Graph.targetOf_eq hwritten).trans (Option.mem_toList.mp hx))
      exact ⟨tag, (htag x).symm.trans hkind, hvalue⟩
    have hd₁ : r₁.graph.tag? d ≠ some .reference := htag d ▸ hd
    rw [hgraph]
    exact (tracks.changes wired inStep hchanges List.not_mem_nil hd₁).pointed wired₁
      (inStep.changes wired hchanges) hd₁ hpayload₁ hvalue hmeans

/-- **A whole run** keeps a reference at a declaration that it means afterwards, if it means
anything. -/
theorem Run.tracks (run : Run g t₀ index V₀ V r) (orderly : g.Orderly) (tracks : g.Tracks reference d)
    (hmeans : ∀ x, r.graph.targetOf reference = some x → x = d)
    (hd : r.graph.tag? d ≠ some .reference) : r.graph.Tracks reference d := by
  obtain ⟨hwf, wired, inStep⟩ := orderly
  by_cases hvisited : reference ∈ V
  · obtain ⟨before, p, node, t, r₁, r₂, after, hruns, hsound, hbefore, hvisit, hafter, hnot, -⟩ :=
      run.runs.split run.start hvisited
    have wired₁ := wired.changes hbefore.changes
    have inStep₁ := inStep.changes wired hbefore.changes
    have hnow := hvisit.reaches.step.changes
    have hd₂ : r₂.graph.tag? d ≠ some .reference := fun heq => hd (hafter.graph.tag? heq)
    have hd₁ : r₁.graph.tag? d ≠ some .reference := fun heq =>
      hd₂ (hvisit.reaches.step.graph.tag? heq)
    have tracks₁ := tracks.changes wired inStep hbefore.changes hvisit.notMem hd₁
    have tracks₂ := hvisit.tracks wired₁ inStep₁ tracks₁ (fun x hx => hmeans x
      ((hafter.changes.targetOf hnot).trans hx)) hd₂
    exact tracks₂.changes (wired₁.changes hnow) (inStep₁.changes wired₁ hnow) hafter.changes hnot hd
  · exact tracks.changes wired inStep (run.runs.reaches run.start).2.changes hvisited hd

end Resolver

/-! ## Histories -/

namespace Graph

variable {g g' : Graph} {past : List Graph} {r d : NodeId}

/-- A reference as it is when it was written without a type: it means nothing, and nothing was
observed on it. -/
structure Bare (g : Graph) (r : NodeId) : Prop where
  /-- It is a reference. -/
  kind : g.tag? r = some .reference
  /-- It means nothing. -/
  unlinked : g.targetOf r = none
  /-- Nothing was observed on it. -/
  unseen : (g.observedAt r).types = []

/-- **References without a type.** A reference that a document brings is bare, or else it was written
with a type.

**Proof sketch.** A reference that is new has a belief that stems from one observation: either an unknown type
was observed, which is dropped, or a known one, which then is all that was observed. It means nothing yet. -/
theorem bare_or_typed (wf : g.WellFormed []) (document : Document) (path : String)
    (hnew : g.tag? r = none) (hr : (document.build path g).2.tag? r = some .reference) :
    (document.build path g).2.Bare r ∨
      ((document.build path g).2.observedAt r).types =
        [((document.build path g).2.typeOf r).type] := by
  have hbuilds := document.build_ok path (.refl wf)
  generalize (document.build path g).2 = g' at hbuilds hr ⊢
  have hquiet := hbuilds.quiet
  obtain ⟨b, hb⟩ := Option.isSome_iff_exists.mp
    ((hquiet.typed r _ hr rfl).resolve_left fun hold => by rw [hnew] at hold; cases hold)
  have hraw : b.IsRaw := by
    rcases hquiet.fresh r b hb with hold | ⟨-, hraw⟩
    · obtain ⟨tag, htag⟩ := exists_tag_of_belief? hold
      rw [hnew] at htag
      cases htag
    · exact hraw
  rw [observedAt_eq hb, typeOf_eq hb]
  refine hraw.types_cases.imp_left fun hnone => ⟨hr, ?_, observedAt_eq hb ▸ hnone.1⟩
  rw [hquiet.targets]
  cases htarget : g.targetOf r with
  | none => rfl
  | some x =>
    rw [tag?_of_targetOf htarget] at hnew
    cases hnew

/-- A bare reference tracks everything. -/
theorem Bare.tracks (h : g.Bare r) (d : NodeId) : g.Tracks r d := by
  refine ⟨h.kind, fun x hx => ?_, fun u hu => ?_, fun hlinked => ?_⟩
  · exact absurd (h.unlinked.symm.trans hx) (by simp)
  · rw [h.unseen] at hu
    exact absurd hu List.not_mem_nil
  · exact absurd (h.unlinked.symm.trans hlinked) (by simp)

/-- **One step** of a history keeps a reference at a declaration that it means afterwards, if it means
anything. -/
theorem Advances.tracks (h : g.Advances g') (orderly : g.Orderly) (tracks : g.Tracks r d)
    (hmeans : ∀ x, g'.targetOf r = some x → x = d) (hd : g'.tag? d ≠ some .reference) :
    g'.Tracks r d := by
  cases h with
  | parse document path =>
    exact tracks.quiet orderly.wired (document.build_ok path (.refl orderly.wellFormed)).quiet
  | resolve hresolve =>
    obtain ⟨last, t₀, index, V₀, V, rfl, run⟩ := exists_run orderly.wellFormed hresolve
    exact run.tracks orderly tracks hmeans hd

/-- Kinds stay. -/
theorem Advances.tag? (h : g.Advances g') (orderly : g.Orderly) {tag : Tag} {id : NodeId}
    (htag : g.tag? id = some tag) : g'.tag? id = some tag := by
  cases h with
  | parse document path =>
    exact (document.build_ok path (.refl orderly.wellFormed)).quiet.tags id tag htag
  | resolve hresolve =>
    obtain ⟨last, t₀, index, V₀, V, rfl, run⟩ := exists_run orderly.wellFormed hresolve
    exact (run.runs.reaches run.start).2.graph.tag? htag

/-- **A reference that means one declaration only** tracks it at every moment of a history, once it
was bare. -/
theorem History.tracks (h : History (g :: past)) (hbare : ∃ g₀ ∈ g :: past, g₀.Bare r)
    (hmeans : ∀ now ∈ g :: past, ∀ x, now.targetOf r = some x → x = d)
    (hd : g.tag? d ≠ some .reference) : g.Tracks r d := by
  generalize hgraphs : g :: past = graphs at h hbare hmeans
  induction h generalizing g past with
  | start =>
    cases hgraphs
    obtain ⟨g₀, hg₀, hbare⟩ := hbare
    exact List.mem_singleton.mp hg₀ ▸ hbare.tracks d
  | next before hnext ih =>
    cases hgraphs
    obtain ⟨g₀, hg₀, hbare⟩ := hbare
    rcases List.mem_cons.mp hg₀ with rfl | hg₀
    · exact hbare.tracks d
    · refine hnext.tracks before.orderly ?_ (hmeans _ (List.mem_cons_self ..)) hd
      exact ih (fun heq => hd (hnext.tag? before.orderly heq)) rfl ⟨g₀, hg₀, hbare⟩ fun now hnow =>
        hmeans now (List.mem_cons_of_mem _ hnow)

/-- **A reference follows its declaration.** Documents are added to a graph and its usages are
resolved, in any order. A reference was written without a type, it means a declaration now, and it
never meant another one. Then it was told of nothing but types observed on the declaration and joins
of them. It has the same type as the declaration, unless discordant types were observed on the
declaration, which is of the unknown type then.

**Proof sketch.** Induction along the history. The reference is bare, and hears of nothing, until it is linked
for the first time. Then it listens to the declaration, and whatever is observed there is handed on to it
(`Tracks`). It hears of no other node, since it never means another one; and it has the type of the
declaration, or the declaration fell back to the unknown type, of which nobody is told. -/
theorem reference_follows (h : History (g :: past)) (hbare : ∃ g₀ ∈ g :: past, g₀.Bare r)
    (hlinked : g.targetOf r = some d)
    (honly : ∀ before ∈ past, ∀ x, before.targetOf r = some x → x = d) :
    (g.observedAt r).Echoes (g.observedAt d) ∧
      ((g.typeOf r).type = (g.typeOf d).type ∨
        Descriptor.Discordant (g.observedAt d).types ∧ (g.typeOf d).type = .unknown) := by
  obtain ⟨-, wired, inStep⟩ := h.orderly
  have hd := wired.tag?_target hlinked
  have hmeans : ∀ now ∈ g :: past, ∀ x, now.targetOf r = some x → x = d := by
    intro now hnow x hx
    rcases List.mem_cons.mp hnow with rfl | hnow
    · exact Option.some.inj (hx.symm.trans hlinked)
    · exact honly now hnow x hx
  have tracks := h.tracks hbare hmeans hd
  exact ⟨tracks.echoes, tracks.typeOf_eq_or wired inStep hlinked⟩

end Graph

open Document

/-- A record in which a method uses a field by name. -/
def recordWithUsage : Document :=
  { declarations := [.record "A" "class" [] [.field "x" none [] none,
      .function "m" none none false [] (some [.expression (.ref "x" none false none)])]] }

/-- A function that uses the field with a type. -/
def usageWithType : Document :=
  { declarations := [.function "main" none none false [] (some
      [.expression (.member (.ref "a" (some "A") false none) "x" (some "Foo") none none)])] }

/-- The reference in the method follows the field, though a type is observed on the field only in
another document, after the reference was resolved. -/
theorem reference_follows_later : ∃ g₁ g₂ g₃ g₄, (recordWithUsage.build "a.json" {}).2 = g₁ ∧
    (usageWithType.build "b.json" g₂).2 = g₃ ∧ Graph.History [g₄, g₃, g₂, g₁, {}] ∧ g₁.Bare 6 ∧
      g₂.targetOf 6 = some 3 ∧ (g₂.typeOf 6).type = .unknown ∧ g₄.targetOf 6 = some 3 ∧
        (g₄.typeOf 3).type = .parse "Foo" ∧ (g₄.typeOf 6).type = .parse "Foo" := by
  generalize hfirst : (recordWithUsage.build "a.json" {}).2 = g₁
  have hbare : g₁.Bare 6 := by
    subst hfirst
    exact ⟨by decide +kernel, by decide +kernel, by decide +kernel⟩
  have history : Graph.History [g₁, {}] := hfirst ▸ .next .start (.parse ..)
  obtain ⟨r₂, _, _, _, _, hresolve, -⟩ := Graph.resolveUsages_ok history.orderly.wellFormed
  have history₂ := history.next (.resolve hresolve)
  have history₃ := history₂.next (.parse usageWithType "b.json")
  obtain ⟨r₄, _, _, _, _, hresolve', -⟩ := Graph.resolveUsages_ok history₃.orderly.wellFormed
  have history₄ := history₃.next (.resolve hresolve')
  have heval : ((recordWithUsage.build "a.json" {}).2.resolveUsages.bind fun p =>
      (usageWithType.build "b.json" p.1).2.resolveUsages.map fun q => decide (
        p.1.targetOf 6 = some 3 ∧ (p.1.typeOf 6).type = .unknown ∧
          (usageWithType.build "b.json" p.1).2.targetOf 6 = some 3 ∧ q.1.targetOf 6 = some 3 ∧
            (q.1.typeOf 3).type = .parse "Foo")) = .ok true := by
    decide +kernel
  rw [hfirst, hresolve] at heval
  simp only [Except.bind, hresolve', Except.map, Except.ok.injEq, decide_eq_true_eq] at heval
  obtain ⟨hlinked, hunknown, hlinked', hlast, htype⟩ := heval
  generalize hsecond : (usageWithType.build "b.json" r₂.graph).2 = g₃ at history₄ hlinked'
  refine ⟨g₁, r₂.graph, g₃, r₄.graph, rfl, hsecond, history₄, hbare, hlinked, hunknown, hlast, htype, ?_⟩
  have hmeans : ∀ before ∈ [g₃, r₂.graph, g₁, {}], ∀ x, before.targetOf 6 = some x → x = 3 := by
    intro before hbefore x hx
    simp only [List.mem_cons, List.not_mem_nil, or_false] at hbefore
    rcases hbefore with rfl | rfl | rfl | rfl
    · exact Option.some.inj (hx.symm.trans hlinked')
    · exact Option.some.inj (hx.symm.trans hlinked)
    · exact absurd (hbare.unlinked.symm.trans hx) (by simp)
    · cases hx
  rcases (Graph.reference_follows history₄ ⟨g₁, by simp, hbare⟩ hlast hmeans).2 with hsame | ⟨-, hlost⟩
  · exact hsame.trans htype
  · rw [htype] at hlost
    exact absurd hlost (by decide +kernel)

/-- A field of one type that is used as one of another type. -/
def conflictingUsage : Document :=
  { declarations := [.record "A" "class" [] [.field "x" (some "Foo") [] none,
      .function "m" none none false [] (some [.expression (.ref "x" none false none)])],
    .function "main" none none false [] (some
      [.expression (.member (.ref "a" (some "A") false none) "x" (some "Bar") none none)])] }

/-- **A reference does not follow into the unknown.** The reference in the method was resolved while the
field was of its written type. The field loses it when it is used with another type. -/
theorem reference_follows_conflict : ∃ g, Graph.History
    [g, (conflictingUsage.build "a.json" {}).2, {}] ∧
      (conflictingUsage.build "a.json" {}).2.Bare 6 ∧ g.targetOf 6 = some 3 ∧
        (g.typeOf 3).type = .unknown ∧ (g.typeOf 6).type = .parse "Foo" := by
  have history : Graph.History [(conflictingUsage.build "a.json" {}).2, {}] := .next .start (.parse ..)
  obtain ⟨r, _, _, _, _, hresolve, -⟩ := Graph.resolveUsages_ok history.orderly.wellFormed
  have heval : ((conflictingUsage.build "a.json" {}).2.resolveUsages.map fun p => decide (
      p.1.targetOf 6 = some 3 ∧ (p.1.typeOf 3).type = .unknown ∧
        (p.1.typeOf 6).type = .parse "Foo")) = .ok true := by
    decide +kernel
  rw [hresolve] at heval
  simp only [Except.map, Except.ok.injEq, decide_eq_true_eq] at heval
  exact ⟨r.graph, history.next (.resolve hresolve),
    ⟨by decide +kernel, by decide +kernel, by decide +kernel⟩, heval⟩

/-- A name that means a field of one supertype, until one is made up for the other supertype. -/
def overtakenUsage : Document :=
  { declarations := [.record "B" "class" [] [], .record "C" "class" [] [.field "x" (some "Foo") [] none],
    .record "A" "class" ["B", "C"] [.function "m" none none false [] (some
      [.expression (.ref "x" none false none)])],
    .function "main" none none false [] (some
      [.expression (.member (.ref "b" (some "B") false none) "x" (some "Bar") none none)])] }

/-- **A reference does not forget.** A second resolution points the reference in the method at another
field. It keeps the type of the first one, which does not go with that of the second one. -/
theorem reference_follows_overtaken : ∃ g g', Graph.History
    [g', g, (overtakenUsage.build "a.json" {}).2, {}] ∧
      (overtakenUsage.build "a.json" {}).2.Bare 12 ∧ g.targetOf 12 = some 6 ∧
        (g.typeOf 12).type = .parse "Foo" ∧ g'.targetOf 12 = some 19 ∧
          (g'.typeOf 19).type = .parse "Bar" ∧ (g'.typeOf 12).type = .unknown := by
  have history : Graph.History [(overtakenUsage.build "a.json" {}).2, {}] := .next .start (.parse ..)
  obtain ⟨r, _, _, _, _, hresolve, -⟩ := Graph.resolveUsages_ok history.orderly.wellFormed
  have history₁ := history.next (.resolve hresolve)
  obtain ⟨r', _, _, _, _, hresolve', -⟩ := Graph.resolveUsages_ok history₁.orderly.wellFormed
  have heval : ((overtakenUsage.build "a.json" {}).2.resolveUsages.bind fun p =>
      p.1.resolveUsages.map fun q => decide (p.1.targetOf 12 = some 6 ∧
        (p.1.typeOf 12).type = .parse "Foo" ∧ q.1.targetOf 12 = some 19 ∧
          (q.1.typeOf 19).type = .parse "Bar" ∧ (q.1.typeOf 12).type = .unknown)) = .ok true := by
    decide +kernel
  rw [hresolve] at heval
  simp only [Except.bind, hresolve', Except.map, Except.ok.injEq, decide_eq_true_eq] at heval
  exact ⟨r.graph, r'.graph, history₁.next (.resolve hresolve'),
    ⟨by decide +kernel, by decide +kernel, by decide +kernel⟩, heval⟩

end ProgramGraph
