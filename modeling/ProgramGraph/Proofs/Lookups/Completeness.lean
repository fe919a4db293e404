import ProgramGraph.Proofs.Lookups.Lexical
import ProgramGraph.Proofs.Rerun.Lookup

set_option autoImplicit false

/-!
# References that are linked

After one resolution a reference inside a record is linked, unless its name is static. A reference that
is in no record is linked if and only if a scope around it declares its name, before or after the
reference, and then to the first declaration of its name in the innermost of these scopes: nothing is
made up in such scopes, so what is declared in them in the end is what was declared at the start.

## Main results

* `ProgramGraph.Resolver.Run.exists_target` — references in records.
* `ProgramGraph.Resolver.Run.target_eq` — references in no record.
* `ProgramGraph.Graph.resolveUsages_complete` — which references are linked.

## Design

A reference in a record falls back on the type that the record declares. That some record is indexed
under this type does not need the record to be the first one of its name, or the name to be that of a
type: whatever the name is read as, it is read the same way by the index and by the fallback.
-/

namespace ProgramGraph

namespace Graph

variable {g g' : Graph} {p : Place} {id scope : NodeId} {name : String} {tag : Tag}

/-- A record around a node declares a type around it. -/
theorem Stands.exists_type (h : g.Stands p id) (hscope : scope ∈ p.scopes)
    (hrecord : g.tag? scope = some .record) : ∃ type, p.types.head? = some type := by
  induction h with
  | unit _ => exact absurd hscope List.not_mem_nil
  | @part p whole part node _ found _ ih =>
    by_cases hwhole : node.tag = .record
    · exact ⟨.parse node.name, by rw [Place.enter, if_pos hwhole]; rfl⟩
    · have htypes : (p.enter whole node).types = p.types := by rw [Place.enter, if_neg hwhole]
      rw [htypes]
      refine ih ?_
      by_cases hopens : node.tag.opens?.isSome
      · rw [Place.scopes_enter_of_opens? hopens] at hscope
        refine (List.mem_cons.mp hscope).resolve_left ?_
        rintro rfl
        exact hwhole (Option.some.inj ((tag?_eq found).symm.trans hrecord))
      · rwa [Place.enter_of_opens?_eq_none (by simpa using hopens)] at hscope

/-- Where no record is around a node, no type is. -/
theorem Stands.types_eq_nil (h : g.Stands p id)
    (hnone : ∀ scope ∈ p.scopes, g.tag? scope ≠ some .record) : p.types.head? = none := by
  cases htype : p.types.head? with
  | none => rfl
  | some type =>
    obtain ⟨around, haround, hspells⟩ := h.exists_record htype
    obtain ⟨node, hnode, hrecord, -⟩ := spells_iff.mp hspells
    exact absurd ((tag?_eq hnode).trans (congrArg some hrecord)) (hnone around haround)

/-- **The declarations of a scope** that is no record stay as they are: fields of records are all that
is made up in scopes. -/
theorem Grows.declaredIn_eq (h : g.Grows g.size g') (raw : g.Raw) (wf : g.WellFormed [])
    (wf' : g'.WellFormed []) (htag : g.tag? scope = some tag) (hk : tag.isExpression = false)
    (hrecord : tag ≠ .record) : g'.declaredIn scope = g.declaredIn scope := by
  rw [← h.filter_declaredIn raw wf wf' htag hk, eq_comm, List.filter_eq_self]
  intro d hd
  rw [decide_eq_true_eq]
  by_contra hge
  have hfield := h.mem_fieldsOf_of_le raw wf wf' htag hk hd (Nat.not_lt.mp hge)
  have hkept := (h.tag? htag).symm.trans (tag?_of_mem_fieldsOf hfield)
  exact hrecord (Option.some.inj hkept)

end Graph

/-- Searching lists one after the other stops in the first list in which something is found. -/
theorem find?_flatMap_split {α β : Type} {f : α → List β} {test : β → Bool} {inner outer : List α}
    {a : α} {b : β} (hinner : ∀ x ∈ inner, ∀ y ∈ f x, test y = false)
    (hfound : (f a).find? test = some b) :
    ((inner ++ a :: outer).flatMap f).find? test = some b := by
  have hnone : (inner.flatMap f).find? test = none := by
    rw [List.find?_eq_none]
    intro y hy
    obtain ⟨x, hx, hmem⟩ := List.mem_flatMap.mp hy
    simp [hinner x hx y hmem]
  rw [List.flatMap_append, List.flatMap_cons, List.find?_append, List.find?_append, hnone, hfound]
  rfl

namespace Resolver.Run

variable {g : Graph} {t₀ t : ScopeTable} {index : Index} {V₀ V : List NodeId}
  {r r₁ r₂ : Resolver} {id scope : NodeId} {p : Place} {name : String} {isStatic : Bool}
  {target : Option NodeId}

section

variable (run : Run g t₀ index V₀ V r) (hg : g.Sprouting []) (hp : g.Stands p id)
  (moment : Reference g t₀ index r name isStatic target p t r₁ r₂)

include run hp moment

/-- **A reference in a record** is linked if its name is not static. -/
theorem exists_target (hstatic : isStatic = false) (hscope : scope ∈ p.scopes)
    (hrecord : g.tag? scope = some .record) : ∃ d, target = some d := by
  cases moment.finds with
  | lexical hseen => exact ⟨_, rfl⟩
  | member hmissing htype hstatic' hown hfinds => exact ⟨_, rfl⟩
  | nothing hmissing hno =>
    obtain ⟨type, htype⟩ := hp.exists_type hscope hrecord
    obtain ⟨around, haround, hspells⟩ := hp.exists_record htype
    obtain ⟨q, -, hq, -, -⟩ := hp.exists_opens haround
    obtain ⟨own, hown⟩ : ∃ own, index.record? type = some own := by
      rw [← Option.isSome_iff_exists, run.indexed.lists.records, List.find?_isSome]
      exact ⟨around, run.indexed.complete q around hq, hspells⟩
    obtain ⟨done, hbefore⟩ := moment.before
    rcases hno type htype with hstatic' | hnone
    · exact absurd (hstatic.symm.trans hstatic') (by simp)
    · exact absurd ((hbefore.records type own hown).symm.trans hnone) (by simp)

include hg

/-- What is held of a scope that is no record are the declarations of the scope. -/
theorem declarations_eq (hscope : scope ∈ p.scopes) (hrecord : g.tag? scope ≠ some .record) :
    t.declarations scope = r.graph.declaredIn scope := by
  obtain ⟨q, tag, -, htag, hopens⟩ := hp.exists_opens hscope
  have hk := Tag.isExpression_of_opens? hopens
  have hgrows := (run.runs.reaches run.start).2.graph
  obtain ⟨new, hnew, hmade⟩ := run.exists_declarations hg hp moment hscope
  rw [hnew, hgrows.declaredIn_eq hg.raw run.start.wellFormed run.sound.wellFormed htag hk
    fun heq => hrecord (htag.trans (congrArg some heq))]
  rcases List.eq_nil_or_concat new with rfl | ⟨before, d, rfl⟩
  · exact List.append_nil _
  · have hfield := (hmade d (by simp)).1
    have hkept := (hgrows.tag? htag).symm.trans (Graph.tag?_of_mem_fieldsOf hfield)
    exact absurd (htag.trans hkept) hrecord

/-- **A reference in no record** means the first declaration of its name in the scopes around it. -/
theorem target_eq (hnone : ∀ scope ∈ p.scopes, g.tag? scope ≠ some .record) :
    target = (p.scopes.flatMap r.graph.declaredIn).find? (r.graph.isNamed name) := by
  have hdeclared : p.scopes.flatMap t.declarations = p.scopes.flatMap r.graph.declaredIn :=
    List.flatMap_congr fun scope hscope =>
      run.declarations_eq hg hp moment hscope (hnone scope hscope)
  rw [← hdeclared, ← run.find?_seen moment]
  cases moment.finds with
  | lexical hseen => exact hseen.symm
  | member hmissing htype _ _ _ => exact absurd (htype.symm.trans (hp.types_eq_nil hnone)) (by simp)
  | nothing hmissing _ => exact hmissing.symm

end

end Resolver.Run

/-- **Which references are linked.** Whatever documents a graph was built from, after one resolution
every reference that is still part of the syntax tree is linked if it lies in a record and its name is
not static. If it lies in no record, it is linked if and only if some scope around it declares its
name, and then to the first declaration of its name in the innermost such scope.

**Proof sketch.** A reference in the syntax tree is visited, and at this moment its scopes are those around
it. In a record a name that is not found lexically gets a made-up field, unless it is static. In no record the
table shows just what the scopes declare, since made-up fields are entered in records only; so the lookup is
the first declaration of the innermost scope that has one. -/
theorem Graph.resolveUsages_complete (documents : List (String × Document)) :
    ∃ g index, (ofDocuments documents).resolveUsages = .ok (g, index) ∧
      ∀ usage p name target isStatic, g.payload? usage = some (.reference target isStatic) →
        g.Stands p usage → g.name? usage = some name →
          ((∃ scope ∈ p.scopes, g.tag? scope = some .record) → isStatic = false →
            ∃ d, target = some d) ∧
          ((∀ scope ∈ p.scopes, g.tag? scope ≠ some .record) →
            ((∃ d, target = some d) ↔
              ∃ scope ∈ p.scopes, ∃ d ∈ g.declaredIn scope, g.name? d = some name) ∧
            ∀ inner scope outer d, p.scopes = inner ++ scope :: outer →
              (∀ s ∈ inner, ∀ d ∈ g.declaredIn s, g.name? d ≠ some name) →
                (g.declaredIn scope).find? (g.isNamed name) = some d → target = some d) := by
  have hg := sprouting_ofDocuments documents
  obtain ⟨r, t₀, index, V₀, V, hresolve, run⟩ := resolveUsages_ok hg.wellFormed
  refine ⟨r.graph, r.index, hresolve, fun usage p name target isStatic hpayload hp hname => ?_⟩
  have hgrows := (run.runs.reaches run.start).2.graph
  obtain ⟨hp₀, t, r₁, r₂, moment⟩ := run.reference_of_stands hp hpayload hname
  -- the records around the reference are records from the start
  have hback : ∀ scope ∈ p.scopes, (ofDocuments documents).tag? scope = r.graph.tag? scope := by
    intro scope hscope
    obtain ⟨-, tag, -, htag, -⟩ := hp₀.exists_opens hscope
    exact htag.trans (hgrows.tag? htag).symm
  refine ⟨?_, fun hnone => ?_⟩
  · rintro ⟨scope, hscope, hrecord⟩ hstatic
    exact run.exists_target hp₀ moment hstatic hscope ((hback scope hscope).trans hrecord)
  · have htarget := run.target_eq hg hp₀ moment fun scope hscope =>
      (hback scope hscope).symm ▸ hnone scope hscope
    refine ⟨?_, fun inner scope outer d hsplit hinner hfirst => ?_⟩
    · rw [htarget, ← Option.isSome_iff_exists, List.find?_isSome]
      simp only [List.mem_flatMap, isNamed_iff]
      exact ⟨fun ⟨d, ⟨scope, hscope, hd⟩, h⟩ => ⟨scope, hscope, d, hd, h⟩,
        fun ⟨scope, hscope, d, hd, h⟩ => ⟨d, ⟨scope, hscope, hd⟩, h⟩⟩
    · rw [htarget, hsplit]
      refine find?_flatMap_split (fun s hs d hd => ?_) hfirst
      rw [← Bool.not_eq_true, isNamed_iff]
      exact hinner s hs d hd

end ProgramGraph
