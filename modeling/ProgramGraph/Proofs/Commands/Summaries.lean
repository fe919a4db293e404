import ProgramGraph.Proofs.Commands.Intakes
import ProgramGraph.Proofs.Passes.Pipelines
import ProgramGraph.Proofs.Sessions.Integrity

set_option autoImplicit false

/-!
# What is summed up

The registered passes resolve usages, so they retain the units of a graph, and add at most the unit for
made-up declarations. What is summed up after them has one unit for each document, and one more if that
unit was made.

## Main definitions

* `ProgramGraph.Command.Yields` — what passes make of a graph, and what is shown of it.

## Main results

* `ProgramGraph.Pipeline.Accepts.retains` — passes retain the graph.
* `ProgramGraph.Command.summarize_eq_ok_iff` — when there is a summary.
* `ProgramGraph.Command.Yields.units` — the units of a graph that is summed up.
-/

namespace ProgramGraph

/-! ## Passes -/

namespace Pipeline

variable {ω : Type} {g g' : Graph} {w w' : ω} {s s' : Graph × ω} {passes : Pipeline ω}
  {reports : List Report}

/-- The registered passes resolve usages. -/
theorem eq_resolver_of_mem {names : List String} (h : ofNames names = .ok passes) :
    ∀ pass ∈ passes, pass = .resolver := by
  rw [ofNames, mapM_eq_ok_iff] at h
  induction h with
  | nil => exact fun _ hpass => absurd hpass List.not_mem_nil
  | @cons name pass names passes hname _ ih =>
    rw [Pass.ofName_eq] at hname
    split_ifs at hname
    exact List.forall_mem_cons.mpr ⟨(Except.ok.inj hname).symm, ih⟩

/-- A run in which no pass fails accepts all of them. -/
theorem exists_accepts (h : run passes g w = .ok (g', w', .ok reports)) :
    ∃ w'', Accepts (g, w) passes reports (g', w'') := by
  obtain ⟨n, result, hfares⟩ := exists_fares passes (g, w)
  have hrun := hfares.run_eq
  rw [h] at hrun
  cases hfares with
  | completes accepted =>
    simp only [Except.map, Except.ok.injEq, Prod.mk.injEq] at hrun
    obtain ⟨rfl, -, rfl⟩ := hrun
    exact ⟨_, accepted⟩
  | fails => simp [Except.map] at hrun
  | faults => simp [Except.map] at hrun

/-- **Passes that resolve usages** retain the graph.

**Proof sketch.** Induction on the passes. Each is a resolution, which is a run and retains the graph, and
retaining is transitive. -/
theorem Accepts.retains {n : Nat} (h : Accepts s passes reports s')
    (hall : ∀ pass ∈ passes, pass = .resolver) (wf : s.1.WellFormed []) (hn : n ≤ s.1.size) :
    s.1.Retains n s'.1 := by
  induction h with
  | nil s => exact .refl n s.1
  | @cons s s' g w pass passes report reports first _ ih =>
    obtain rfl := hall pass List.mem_cons_self
    have hresolve : ∃ index, s.1.resolveUsages = .ok (g, index) := by
      simp only [Pass.resolver, bind_eq_ok_iff] at first
      obtain ⟨⟨g₁, index⟩, hindex, heq⟩ := first
      cases heq
      exact ⟨index, hindex⟩
    obtain ⟨index, hindex⟩ := hresolve
    obtain ⟨r, t₀, index₀, V₀, V, rfl, hrun⟩ := Graph.exists_run wf hindex
    obtain ⟨vs, hdoes⟩ := hrun.runs.does
    have hfirst := (hrun.anchored.does hn hdoes).1
    exact hfirst.trans (ih (fun other hother => hall other (List.mem_cons_of_mem _ hother))
      hrun.sound.wellFormed (Nat.le_trans hn hfirst.size))

end Pipeline

namespace Command

/-! ## Summaries -/

/-- What passes make of a graph, and what is shown of it. -/
structure Yields (passes : List String) (g g' : Graph) (summary : Summary) : Prop where
  /-- Nothing but nodes was written to before. -/
  faultless : g.fault = none
  /-- The passes run, and report. -/
  runs : ∃ pipeline : Pipeline Unit, Pipeline.ofNames passes = .ok pipeline ∧
    pipeline.run g () = .ok (g', (), .ok summary.reports)
  /-- The graph is counted afterwards. -/
  statistics : g'.statistics = .ok summary.statistics
  /-- So are its links. -/
  links : g'.links = .ok summary.links

variable {passes : List String} {g g' : Graph} {summary : Summary}
  {documents : List (String × Document)}

/-- Another error makes no difference to success. -/
theorem mapError_eq_ok_iff {ε ε' α : Type} {x : Except ε α} {f : ε → ε'} {a : α} :
    x.mapError f = .ok a ↔ x = .ok a := by
  cases x <;> simp [Except.mapError]

/-- **There is a summary** if the passes are known and run, and what is left can be counted. -/
theorem summarize_eq_ok_iff : summarize passes g = .ok summary ↔ ∃ g', Yields passes g g' summary := by
  simp only [summarize, bind_eq_ok_iff, mapError_eq_ok_iff, Graph.checked_eq_ok_iff, pure, Except.pure,
    Except.ok.injEq]
  constructor
  · rintro ⟨g₁, ⟨hfault, hsame⟩, pipeline, hpipeline, ⟨g', _, outcome⟩, hrun, reports, rfl, statistics,
      hstatistics, links, hlinks, rfl⟩
    exact ⟨g', ⟨hfault, ⟨pipeline, hpipeline, hsame ▸ hrun⟩, hstatistics, hlinks⟩⟩
  · rintro ⟨g', hfault, ⟨pipeline, hpipeline, hrun⟩, hstatistics, hlinks⟩
    exact ⟨g, ⟨hfault, rfl⟩, pipeline, hpipeline, (g', (), .ok summary.reports), hrun, summary.reports, rfl,
      summary.statistics, hstatistics, summary.links, hlinks, rfl⟩

namespace Yields

/-- What is summed up retains the graph that the passes began with. -/
theorem retains (h : Yields passes g g' summary) (wf : g.WellFormed []) : g.Retains g.size g' := by
  obtain ⟨pipeline, hpipeline, hrun⟩ := h.runs
  obtain ⟨w, haccepts⟩ := Pipeline.exists_accepts hrun
  exact haccepts.retains (Pipeline.eq_resolver_of_mem hpipeline) wf (Nat.le_refl _)

/-- **The units that are summed up:** one for each document, and behind them the one for made-up
declarations, if it was made. -/
theorem units (h : Yields passes (Graph.ofDocuments documents) g' summary) :
    ∃ own, List.Forall₂ g'.IsUnitOf documents own ∧ own.Nodup ∧
      g'.units = own ++ g'.placeholderUnit?.toList := by
  have wf := (Graph.sprouting_ofDocuments documents).wellFormed
  have hretains := h.retains wf
  refine ⟨(Graph.ofDocuments documents).units, ?_, ?_, ?_⟩
  · exact (Graph.units_ofDocuments documents).imp fun _ _ hunit => hunit.retains hretains
  · exact (List.nodup_append.mp wf.tree.roots).1
  · rcases hretains.units with ⟨hunits, hsame⟩ | ⟨unit, -, hmade, -, hunits⟩
    · rw [hsame, Graph.placeholderUnit?_ofDocuments, hunits, Option.toList_none, List.append_nil]
    · rw [hmade, hunits, Option.toList_some]

/-- The number of units. -/
theorem count (h : Yields passes (Graph.ofDocuments documents) g' summary) :
    summary.statistics.units = documents.length + g'.placeholderUnit?.toList.length := by
  obtain ⟨own, hown, -, hunits⟩ := h.units
  have hcount : summary.statistics.units = g'.units.length := by
    have hstatistics := h.statistics
    simp only [Graph.statistics, bind_eq_ok_iff, pure, Except.pure, Except.ok.injEq] at hstatistics
    obtain ⟨resolved, -, heq⟩ := hstatistics
    rw [← heq]
  rw [hcount, hunits, List.length_append, hown.length_eq]

end Yields

end Command

end ProgramGraph
