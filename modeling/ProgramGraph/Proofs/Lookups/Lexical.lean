import ProgramGraph.Proofs.Lookups.Real

set_option autoImplicit false

/-!
# Lexical lookups

A reference means the first real declaration of its name in the innermost scope around it that has
one, unless a field of that name was made up, for a member access elsewhere, in a record that lies
farther in. Such a field is declared in the scope of its record like all other fields, so it gets
before the declarations of the scopes around the record; and a static name, which is not looked up
among the fields of a type, can mean it too.

## Main definitions

* `ProgramGraph.Graph.Haunts` — a made-up field of a record in a list of scopes.

## Main results

* `ProgramGraph.Resolver.Run.find?_of_realIn`, `ProgramGraph.Resolver.Run.haunts_of_find?` — what is
  found in the scopes around a reference.
* `ProgramGraph.Graph.resolveUsages_lexical` — what references mean.
* `ProgramGraph.resolveUsages_lexical_haunted` — a reference that means a made-up field though there is
  a real declaration of its name, and a static one that means a made-up field.
-/

namespace ProgramGraph

/-- A declaration is a made-up field of a name, of a record in a list of scopes. -/
def Graph.Haunts (g : Graph) (name : String) (scopes : List NodeId) (d : NodeId) : Prop :=
  ∃ record ∈ scopes, d ∈ g.fieldsOf record ∧ g.name? d = some name ∧ g.IsMadeUp d

namespace Resolver.Run

variable {g : Graph} {t₀ t : ScopeTable} {index : Index} {V₀ V scopes : List NodeId}
  {r r₁ r₂ : Resolver} {id scope d : NodeId} {p : Place} {name : String} {isStatic : Bool}
  {target : Option NodeId}

section

variable (run : Run g t₀ index V₀ V r) (hg : g.Sprouting []) (hp : g.Stands p id)
  (moment : Reference g t₀ index r name isStatic target p t r₁ r₂)

include run hg hp moment

/-- What is held of a scope around a reference at its moment: the declarations that the scope had at
the start, and behind them made-up fields of a record. -/
theorem exists_declarations (hscope : scope ∈ p.scopes) :
    ∃ new, t.declarations scope = g.declaredIn scope ++ new ∧
      ∀ d ∈ new, d ∈ r.graph.fieldsOf scope ∧ r.graph.IsMadeUp d := by
  obtain ⟨q, tag, hq, htag, hopens⟩ := hp.exists_opens hscope
  have hk := Tag.isExpression_of_opens? hopens
  have hgrows := (run.runs.reaches run.start).2.graph
  obtain ⟨new, hnew, hmade⟩ := moment.more scope
  rw [run.indexed.holds.complete q scope tag hq htag hopens] at hnew
  refine ⟨new, hnew, fun d hd => ?_⟩
  obtain ⟨hle, hfield, q', hq', hhead⟩ := hmade d hd
  obtain ⟨done, hafter⟩ := moment.after
  have hlater := moment.during.graph.trans hafter.graph
  have hfield' := hlater.tag? hfield
  obtain ⟨scope', scopes, hscopes, hmem⟩ := run.sound.wellFormed.mem_declaredIn
    (.single hfield' rfl) (hlater.stands_of_tag? hq' hfield (by decide))
  rw [hscopes, List.head?_cons, Option.some.injEq] at hhead
  subst hhead
  exact ⟨hgrows.mem_fieldsOf_of_le hg.raw run.start.wellFormed run.sound.wellFormed htag hk hmem hle,
    hgrows.isMadeUp hle (Graph.lt_size_of_tag? hfield')⟩

omit moment in
/-- The first real declaration of a scope, seen from the start. -/
theorem realIn_eq (hscope : scope ∈ p.scopes) :
    r.graph.realIn name scope = (g.declaredIn scope).find? (r.graph.isNamed name) := by
  obtain ⟨q, tag, hq, htag, hopens⟩ := hp.exists_opens hscope
  have hk := Tag.isExpression_of_opens? hopens
  have hgrows := (run.runs.reaches run.start).2.graph
  obtain ⟨node, hnode, -⟩ := Graph.exists_node_of_tag? htag
  rw [hgrows.realIn_eq hg.raw run.start.wellFormed run.sound.wellFormed htag hk]
  refine (hgrows.find?_isNamed (fun d hd => ?_) name).symm
  exact (run.start.wellFormed.stands_of_mem_declaredIn hq hnode hd).1.lt_size
    (List.mem_singleton.mpr rfl)

/-- **A scope with a real declaration** of the name. It is found before anything made up. -/
theorem find?_of_realIn (hscope : scope ∈ p.scopes) (hreal : r.graph.realIn name scope = some d) :
    (t.declarations scope).find? (r.graph.isNamed name) = some d := by
  obtain ⟨new, hnew, -⟩ := run.exists_declarations hg hp moment hscope
  rw [run.realIn_eq hg hp hscope] at hreal
  rw [hnew, List.find?_append, hreal]
  rfl

/-- **Scopes without a real declaration** of the name. What is found in them is made up. -/
theorem haunts_of_find? (hscopes : scopes ⊆ p.scopes)
    (hnone : ∀ scope ∈ scopes, r.graph.realIn name scope = none)
    (hfound : (scopes.flatMap t.declarations).find? (r.graph.isNamed name) = some d) :
    r.graph.Haunts name scopes d := by
  have hname := Graph.isNamed_iff.mp (List.find?_some hfound)
  obtain ⟨scope, hscope, hd⟩ := List.mem_flatMap.mp (List.mem_of_find?_eq_some hfound)
  obtain ⟨new, hnew, hmade⟩ := run.exists_declarations hg hp moment (hscopes hscope)
  rw [hnew] at hd
  rcases List.mem_append.mp hd with hold | hd
  · have hmissing := hnone scope hscope
    rw [run.realIn_eq hg hp (hscopes hscope), List.find?_eq_none] at hmissing
    exact absurd (Graph.isNamed_iff.mpr hname) (hmissing d hold)
  · exact ⟨scope, hscope, (hmade d hd).1, hname, (hmade d hd).2⟩

omit hg hp in
/-- The names of what is held stay. -/
theorem find?_seen : (p.scopes.flatMap t.declarations).find? (r₁.graph.isNamed name) =
    (p.scopes.flatMap t.declarations).find? (r.graph.isNamed name) := by
  obtain ⟨done, hbefore⟩ := moment.before
  obtain ⟨done', hafter⟩ := moment.after
  refine ((moment.during.graph.trans hafter.graph).find?_isNamed (fun d hd => ?_) name).symm
  obtain ⟨scope, -, hd⟩ := List.mem_flatMap.mp hd
  exact (moment.more.mem_declarations run.indexed.holds run.start.wellFormed hbefore.graph
    hd).1.lt_size (List.mem_singleton.mpr rfl)

/-- **What a reference means** if there is a real declaration of its name.

**Proof sketch.** The first declaration of the name in the table is looked for, scope by scope. In the inner
scopes none is real, so one that is found there haunts the reference. In the scope itself the first one is the
real one. -/
theorem target_of_realIn {inner outer : List NodeId} (hsplit : p.scopes = inner ++ scope :: outer)
    (hnone : ∀ s ∈ inner, r.graph.realIn name s = none)
    (hreal : r.graph.realIn name scope = some d) :
    target = some d ∨ ∃ field, target = some field ∧ r.graph.Haunts name inner field := by
  have hinner : inner ⊆ p.scopes := hsplit ▸ List.subset_append_left _ _
  have hscope : scope ∈ p.scopes := hsplit ▸ List.mem_append_right _ List.mem_cons_self
  obtain ⟨x, hseen, hx⟩ : ∃ x,
      (p.scopes.flatMap t.declarations).find? (r.graph.isNamed name) = some x ∧
        (x = d ∨ r.graph.Haunts name inner x) := by
    rw [hsplit, List.flatMap_append, List.flatMap_cons, List.find?_append, List.find?_append]
    cases hfound : (inner.flatMap t.declarations).find? (r.graph.isNamed name) with
    | some x => exact ⟨x, rfl, Or.inr (run.haunts_of_find? hg hp moment hinner hnone hfound)⟩
    | none => exact ⟨d, by rw [run.find?_of_realIn hg hp moment hscope hreal]; rfl, Or.inl rfl⟩
  rw [← run.find?_seen moment] at hseen
  have htarget : target = some x := by
    cases moment.finds with
    | lexical hfound => exact hfound.symm.trans hseen
    | member hmissing => exact absurd (hmissing.symm.trans hseen) (by simp)
    | nothing hmissing => exact absurd (hmissing.symm.trans hseen) (by simp)
  rcases hx with rfl | hx
  · exact Or.inl htarget
  · exact Or.inr ⟨x, htarget, hx⟩

/-- **What a static reference means** if there is no real declaration of its name. -/
theorem target_of_static (hstatic : isStatic = true)
    (hnone : ∀ s ∈ p.scopes, r.graph.realIn name s = none) :
    target = none ∨ ∃ field, target = some field ∧ r.graph.Haunts name p.scopes field := by
  cases moment.finds with
  | lexical hfound =>
    rw [run.find?_seen moment] at hfound
    exact Or.inr ⟨_, rfl, run.haunts_of_find? hg hp moment (List.Subset.refl _) hnone hfound⟩
  | member _ _ hstatic' => exact absurd (hstatic.symm.trans hstatic') (by simp)
  | nothing => exact Or.inl rfl

end

end Resolver.Run

/-- **Lexical lookups.** Whatever documents a graph was built from, after one resolution a reference
means the first real declaration of its name in the innermost scope around it that has one, or else a
field of that name that was made up in a record inside that scope. If there is no real declaration, a
static reference means nothing, or a field that was made up in a record around it.

**Proof sketch.** At its visit a reference means the first declaration of its name in the scopes around it, as
the table shows them. The table has what the documents declared in these scopes, and besides only fields that
were made up in records inside the scope that is asked for, or in it. So the first real declaration is found,
unless such a field stands before it; and a static reference is looked up in the table only. -/
theorem Graph.resolveUsages_lexical (documents : List (String × Document)) :
    ∃ g index, (ofDocuments documents).resolveUsages = .ok (g, index) ∧
      ∀ usage p name target isStatic, g.payload? usage = some (.reference target isStatic) →
        g.Stands p usage → g.name? usage = some name →
          (∀ inner scope outer d, p.scopes = inner ++ scope :: outer →
            (∀ s ∈ inner, g.realIn name s = none) → g.realIn name scope = some d →
              target = some d ∨ ∃ field, target = some field ∧ g.Haunts name inner field) ∧
          (isStatic = true → (∀ s ∈ p.scopes, g.realIn name s = none) →
            target = none ∨ ∃ field, target = some field ∧ g.Haunts name p.scopes field) := by
  have hg := sprouting_ofDocuments documents
  obtain ⟨r, t₀, index, V₀, V, hresolve, run⟩ := resolveUsages_ok hg.wellFormed
  refine ⟨r.graph, r.index, hresolve, fun usage p name target isStatic hpayload hp hname => ?_⟩
  obtain ⟨hp₀, t, r₁, r₂, moment⟩ := run.reference_of_stands hp hpayload hname
  exact ⟨fun inner scope outer d => run.target_of_realIn hg hp₀ moment,
    run.target_of_static hg hp₀ moment⟩

open Document in
/-- Two members of a record are made up before the record is reached, in which both names are used. One
of them is declared in the unit, the other one is static and declared nowhere. -/
def hauntedNames : List (String × Document) :=
  [("a.json", { declarations :=
    [.function "main" none none false [] (some
        [.expression (.member (.ref "x" (some "Item") false none) "count" none none none),
         .expression (.member (.ref "x" (some "Item") false none) "total" none none none)]),
     .record "Item" "class" [] [.function "size" none none false [] (some
        [.expression (.ref "count" none false none), .expression (.ref "total" none true none)])],
     .var "count" (some "int") none] })]

/-- The parts of a scope stand in it. -/
theorem Graph.Stands.inside {g : Graph} {p : Place} {id part : NodeId} {tag : Tag}
    (h : g.Stands p id) (htag : g.tag? id = some tag) (hopens : tag.opens?.isSome)
    (hpart : part ∈ g.parts id) : ∃ q, g.Stands q part ∧ q.scopes = id :: p.scopes := by
  obtain ⟨node, hnode, rfl⟩ := exists_node_of_tag? htag
  exact ⟨_, h.part hnode hpart, Place.scopes_enter_of_opens? hopens⟩

/-- **Made-up fields shadow real declarations.** A reference in a record means a made-up field of the
record though a variable of its name is declared in the unit, and a static reference means a made-up
field though nothing of its name is declared. -/
theorem resolveUsages_lexical_haunted : ∃ g index p q,
    (Graph.ofDocuments hauntedNames).resolveUsages = .ok (g, index) ∧ g.tag? 10 = some .record ∧
      (g.Stands p 13 ∧ p.scopes = [12, 11, 10, 0] ∧ g.name? 13 = some "count" ∧
        (∀ s ∈ [12, 11, 10], g.realIn "count" s = none) ∧ g.realIn "count" 0 = some 16 ∧
          g.payload? 13 = some (.reference (some 17) false)) ∧
        g.Stands q 14 ∧ q.scopes = [12, 11, 10, 0] ∧ g.name? 14 = some "total" ∧
          (∀ s ∈ [12, 11, 10, 0], g.realIn "total" s = none) ∧
            g.payload? 14 = some (.reference (some 18) true) := by
  obtain ⟨r, _, _, _, _, hresolve, -⟩ :=
    Graph.resolveUsages_ok (Graph.sprouting_ofDocuments hauntedNames).wellFormed
  have htree : ((Graph.ofDocuments hauntedNames).resolveUsages.map fun s => decide (
      (0 ∈ s.1.units ∧ s.1.tag? 0 = some .unit ∧ s.1.tag? 10 = some .record ∧
        s.1.tag? 11 = some .function ∧ s.1.tag? 12 = some .block) ∧
      10 ∈ s.1.parts 0 ∧ 11 ∈ s.1.parts 10 ∧ 12 ∈ s.1.parts 11 ∧ 13 ∈ s.1.parts 12 ∧
        14 ∈ s.1.parts 12)) = .ok true := by
    decide +kernel
  have hcount : ((Graph.ofDocuments hauntedNames).resolveUsages.map fun s => decide (
      s.1.name? 13 = some "count" ∧ (∀ id ∈ ([12, 11, 10] : List NodeId), s.1.realIn "count" id = none) ∧
        s.1.realIn "count" 0 = some 16 ∧ s.1.payload? 13 = some (.reference (some 17) false))) =
          .ok true := by
    decide +kernel
  have htotal : ((Graph.ofDocuments hauntedNames).resolveUsages.map fun s => decide (
      s.1.name? 14 = some "total" ∧ (∀ id ∈ ([12, 11, 10, 0] : List NodeId), s.1.realIn "total" id = none) ∧
        s.1.payload? 14 = some (.reference (some 18) true))) = .ok true := by
    decide +kernel
  rw [hresolve] at htree hcount htotal
  simp only [Except.map, Except.ok.injEq, decide_eq_true_eq] at htree hcount htotal
  obtain ⟨⟨hunit, h0, h10, h11, h12⟩, hrecord, hfunction, hblock, hfirst, hsecond⟩ := htree
  obtain ⟨p₁, hp₁, hscopes₁⟩ := (Graph.Stands.unit hunit).inside h0 rfl hrecord
  obtain ⟨p₂, hp₂, hscopes₂⟩ := hp₁.inside h10 rfl hfunction
  obtain ⟨p₃, hp₃, hscopes₃⟩ := hp₂.inside h11 rfl hblock
  obtain ⟨p, hp, hscopes⟩ := hp₃.inside h12 rfl hfirst
  obtain ⟨q, hq, hscopes'⟩ := hp₃.inside h12 rfl hsecond
  rw [hscopes₃, hscopes₂, hscopes₁] at hscopes hscopes'
  exact ⟨r.graph, r.index, p, q, hresolve, h10, ⟨hp, hscopes, hcount⟩, hq, hscopes', htotal⟩

end ProgramGraph
