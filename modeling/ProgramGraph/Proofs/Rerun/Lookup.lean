import ProgramGraph.Proofs.Rerun.Reindexing

set_option autoImplicit false

/-!
# Looking names up again

A second resolution looks the name of a reference up in the same scopes and records as the first
one. It meets all declarations again that could be found before, and made-up fields besides. It can
miss what the first one found in one case only: a made-up record may no longer be indexed under the
type it was made up for.

## Main definitions

* `ProgramGraph.Graph.Orphaned` — a reference means a field of a record that is not indexed again.
* `ProgramGraph.Graph.OutOfScopes`, `ProgramGraph.Graph.OutOfTypes` — where a declaration is not.
* `ProgramGraph.Graph.Overshadowed` — a made-up field would be found for a reference.
* `ProgramGraph.Resolver.Rerun` — two resolutions in a row.

## Main results

* `ProgramGraph.find?_flatMap_again`, `ProgramGraph.findSome?_again` — searching lists again.
* `ProgramGraph.Resolver.Rerun.declarations_again` — what was held of a scope is held again.
* `ProgramGraph.Resolver.Rerun.mem_fieldsOf_of_mem_declarations` — what is new are made-up fields.
-/

namespace ProgramGraph

/-! ## First finds -/

section Finds

variable {scopes : List NodeId} {D E : NodeId → List NodeId} {P : NodeId → Bool}
  {target : Option NodeId} {ids : List NodeId} {d : NodeId}

/-- What is found first is found first without the others. -/
theorem find?_filter_of_find? (old : NodeId → Bool) (h : ids.find? P = some d)
    (hold : old d = true) : (ids.filter old).find? P = some d := by
  obtain ⟨hP, before, after, rfl, hbefore⟩ := List.find?_eq_some_iff_append.mp h
  refine List.find?_eq_some_iff_append.mpr ⟨hP, before.filter old, after.filter old, ?_, ?_⟩
  · rw [List.filter_append, List.filter_cons_of_pos hold]
  · exact fun id hid => hbefore id (List.mem_filter.mp hid).1

/-- **Searching lists again** in which some elements are new. Before, the old elements of each list
came first. If no other new element gets before what was found, the same is found again, or nothing
was and is found.

**Proof sketch.** Induction on the lists. If the first list has a hit, then this is new and what was found by
hypothesis, or old, and then it was the first hit before too, as the old elements came first in the same
order. -/
theorem find?_flatMap_again (old : NodeId → Bool)
    (hD : ∀ s ∈ scopes, ∃ new, D s = (E s).filter old ++ new ∧ new ⊆ E s)
    (hnew : ∀ inner s outer, scopes = inner ++ s :: outer → (∀ s' ∈ inner, (E s').find? P = none) →
      ∀ d ∈ E s, P d = true → old d = false → target = some d)
    (hfound : ∀ d, (scopes.flatMap D).find? P = some d → target = some d) :
    (scopes.flatMap E).find? P = target ∨
      (scopes.flatMap E).find? P = none ∧ (scopes.flatMap D).find? P = none := by
  induction scopes with
  | nil => exact Or.inr ⟨rfl, rfl⟩
  | cons s rest ih =>
    obtain ⟨new, hs, hsubset⟩ := hD s (List.mem_cons_self ..)
    rw [List.flatMap_cons, List.flatMap_cons, List.find?_append, List.find?_append] at *
    cases hfirst : (E s).find? P with
    | some x =>
      left
      have hP := List.find?_some hfirst
      cases hx : old x with
      | false =>
        exact (hnew [] s rest rfl (by simp) x (List.mem_of_find?_eq_some hfirst) hP hx).symm
      | true =>
        refine (hfound x ?_).symm
        rw [hs, List.find?_append, find?_filter_of_find? old hfirst hx]
        rfl
    | none =>
      have hnone : (D s).find? P = none := by
        rw [List.find?_eq_none] at hfirst ⊢
        intro d hd
        rw [hs] at hd
        rcases List.mem_append.mp hd with hd | hd
        · exact hfirst d (List.mem_filter.mp hd).1
        · exact hfirst d (hsubset hd)
      rw [hnone] at hfound ⊢
      refine ih (fun s hs => hD s (List.mem_cons_of_mem _ hs))
        (fun inner s' outer hsplit hinner => ?_) hfound
      refine hnew (s :: inner) s' outer (by rw [hsplit, List.cons_append]) ?_
      exact List.forall_mem_cons.mpr ⟨hfirst, hinner⟩

/-- **Searching types again.** What was found first is found first if it is found where it was, and
nothing else gets before it.

**Proof sketch.** Induction on the types. Before the hit nothing else is found, by hypothesis, and at the hit
the same is. -/
theorem findSome?_again {types : List Descriptor} {f f' : Descriptor → Option NodeId}
    (h : types.findSome? f = some d) (hkept : ∀ type ∈ types, f type = some d → f' type = some d)
    (hback : ∀ inner type outer, types = inner ++ type :: outer →
      (∀ earlier ∈ inner, f' earlier = none) → ∀ x, f' type = some x → x = d ∨ f type = some x) :
    types.findSome? f' = some d := by
  induction types with
  | nil => exact absurd h (by simp)
  | cons type rest ih =>
    rw [List.findSome?_cons] at h ⊢
    have hfirst := hback [] type rest rfl (by simp)
    cases hf : f type with
    | some x =>
      rw [hf] at h
      obtain rfl := Option.some.inj h
      rw [hkept type (List.mem_cons_self ..) hf]
    | none =>
      rw [hf] at h
      cases hf' : f' type with
      | some x =>
        rcases hfirst x hf' with rfl | hfound
        · rfl
        · rw [hf] at hfound
          exact absurd hfound (by simp)
      | none =>
        refine ih h (fun type htype => hkept type (List.mem_cons_of_mem _ htype))
          fun inner type' outer hsplit hinner => ?_
        refine hback (type :: inner) type' outer (by rw [hsplit, List.cons_append]) ?_
        exact List.forall_mem_cons.mpr ⟨hf', hinner⟩

end Finds

/-! ## References that may change -/

namespace Graph

/-- A reference means a field that is no longer found: it belongs to the record that stood for a
supertype of the record around the reference, but a new index has another record for this type, or
none. -/
def Orphaned (g : Graph) (index again : Index) (usage : NodeId) (target : Option NodeId) : Prop :=
  ∃ p type declared record field, g.Stands p usage ∧ p.types.head? = some type ∧
    declared ∈ index.superTypesOf type ∧ index.record? declared = some record ∧
      target = some field ∧ field ∈ g.fieldsOf record ∧ again.record? declared ≠ some record

/-- None of the scopes has a declaration in it. -/
def OutOfScopes (g : Graph) (scopes : List NodeId) (target : Option NodeId) : Prop :=
  ∀ scope ∈ scopes, ∀ d ∈ g.declaredIn scope, target ≠ some d

/-- None of the records that declare some types has a declaration as a field. -/
def OutOfTypes (g : Graph) (index : Index) (types : List Descriptor) (target : Option NodeId) : Prop :=
  ∀ type ∈ types, ∀ record, index.record? type = some record →
    ∀ d ∈ g.fieldsOf record, target ≠ some d

/-- A made-up field of the name of a reference gets before what it means. It lies in a record around
the reference, and what the reference means is declared in no scope inside this record; or else,
what the reference means is declared in no scope around it, the reference is not static, and the
field lies in the record for the type around it, or for one of the supertypes, before any record
that has what the reference means. -/
def Overshadowed (g : Graph) (index : Index) (usage : NodeId) (isStatic : Bool)
    (target : Option NodeId) : Prop :=
  ∃ p name record field, g.Stands p usage ∧ g.name? usage = some name ∧
    field ∈ g.fieldsOf record ∧ g.name? field = some name ∧ g.IsMadeUp field ∧
      target ≠ some field ∧
        ((∃ inner outer, p.scopes = inner ++ record :: outer ∧ g.OutOfScopes inner target) ∨
          isStatic = false ∧ g.OutOfScopes p.scopes target ∧
            ∃ type inner declared outer, p.types.head? = some type ∧
              type :: index.superTypesOf type = inner ++ declared :: outer ∧
                index.record? declared = some record ∧ g.OutOfTypes index inner target)

/-- A field of a raw graph that is found by name was found in the raw graph. -/
theorem Grows.fieldOf_back {g g' : Graph} (h : g.Grows g.size g') (typed : g.WellTyped)
    {record field : NodeId} {name : String} (hrecord : g.tag? record = some .record)
    (hfield : g'.fieldOf name record = some field) (hlt : field < g.size) :
    g.fieldOf name record = some field := by
  have hold : ∀ other ∈ g.fieldsOf record, other < g.size := fun _ => typed.all_fieldsOf.lt_size
  have hfound := find?_filter_of_find? (· < g.size) hfield (by simpa using hlt)
  rwa [h.filter_fieldsOf typed hrecord, h.find?_isNamed hold] at hfound

end Graph

/-! ## Two resolutions in a row -/

namespace Resolver

/-- Where the field of a member is there, it stands in for the member and no node is made. -/
theorem Sound.graph_standIn {r r' : Resolver} {owner : Descriptor} {name : String}
    {field field' : NodeId} {o : Observation} (h : r.Sound)
    (hown : r.ownField name owner = some field) (hstand : r.standIn owner name o = .ok (field', r')) :
    r'.graph = r.graph := by
  obtain ⟨record, hrecord, hfieldOf⟩ := exists_record hown
  have hread := h.wellFormed.typed.fieldNamed_eq (Graph.lt_size_of_tag? (h.records _ _ hrecord)) name
  unfold Resolver.standIn Resolver.recordFor at hstand
  rw [hrecord] at hstand
  simp only [hread, hfieldOf, bind, Except.bind] at hstand
  cases hdummy : r.index.dummies.get? (owner, name) with
  | some other =>
    rw [hdummy] at hstand
    obtain ⟨-, rfl⟩ := Prod.mk.inj (Except.ok.inj hstand)
    rfl
  | none =>
    rw [hdummy] at hstand
    obtain ⟨-, rfl⟩ := Prod.mk.inj (Except.ok.inj hstand)
    rfl

/-- A resolution of a raw graph, and a second one of the graph it leaves. -/
structure Rerun (g : Graph) (t₀ t₁ : ScopeTable) (index index' : Index) (V₀ V V₁ W : List NodeId)
    (r r' : Resolver) : Prop where
  /-- The graph is raw, and everything stands somewhere in it. -/
  sprouting : g.Sprouting []
  /-- The first resolution. -/
  first : Run g t₀ index V₀ V r
  /-- The second resolution. -/
  second : Run r.graph t₁ index' V₁ W r'

/-- A moment of the second resolution: the table and the resolver. -/
structure Rerun.Moment (index' : Index) (t₁ : ScopeTable) (r : Resolver) (t : ScopeTable)
    (r₁ : Resolver) : Prop where
  /-- The index is right. -/
  sound : r₁.Sound
  /-- The second resolution up to the moment. -/
  before : ∃ done, Step r.graph.size done ⟨r.graph, index'⟩ r₁
  /-- The table holds the declarations that were indexed, and made-up ones behind them. -/
  more : t₁.Extends r.graph.size t r₁.graph

namespace Rerun

variable {g : Graph} {t₀ t₁ t t' : ScopeTable} {index index' : Index} {V₀ V V₁ W : List NodeId}
  {r r' r₁ r₂ q₁ q₂ : Resolver} {p : Place} {id : NodeId} {name : String} {isStatic : Bool}
  {target target' : Option NodeId} {owner : Descriptor} {own scope d field : NodeId}

/-- The graph of the first resolution grows from the raw one. -/
theorem grows (h : Rerun g t₀ t₁ index index' V₀ V V₁ W r r') : g.Grows g.size r.graph :=
  (h.first.runs.reaches h.first.start).2.graph

/-- The graph of a moment grows from the raw one. -/
theorem grows_moment (h : Rerun g t₀ t₁ index index' V₀ V V₁ W r r') (now : Moment index' t₁ r t r₁) :
    g.Grows g.size r₁.graph := by
  obtain ⟨done, hbefore⟩ := now.before
  exact h.grows.trans (hbefore.graph.mono h.grows.size)

/-- The graph of the second resolution grows from the raw one. -/
theorem grows_end (h : Rerun g t₀ t₁ index index' V₀ V V₁ W r r') : g.Grows g.size r'.graph :=
  h.grows.trans ((h.second.runs.reaches h.second.start).2.graph.mono h.grows.size)

/-- The type around a reference was declared by a record, which is indexed both times. -/
theorem exists_own (h : Rerun g t₀ t₁ index index' V₀ V V₁ W r r') (hp : g.Stands p id)
    (htype : p.types.head? = some owner) :
    ∃ own, index.record? owner = some own ∧ index'.record? owner = some own := by
  obtain ⟨around, haround, hspells⟩ := hp.exists_record htype
  obtain ⟨q, -, hq, -⟩ := hp.exists_opens haround
  have hV := h.first.indexed.complete q around hq
  obtain ⟨own, hown⟩ : ∃ own, index.record? owner = some own := by
    rw [h.first.indexed.lists.records, ← Option.isSome_iff_exists, List.find?_isSome]
    exact ⟨around, hV, hspells⟩
  exact ⟨own, hown, h.first.indexed.record?_kept h.second.indexed h.grows h.sprouting.raw
    h.first.start.wellFormed h.first.sound.wellFormed hown⟩

/-! ## Scopes -/

section

variable (h : Rerun g t₀ t₁ index index' V₀ V V₁ W r r') (hp : g.Stands p id)
  (old : Run.Reference g t₀ index r name isStatic target p t' q₁ q₂)
  (now : Moment index' t₁ r t r₁)

include h hp

include now in
/-- What is held the second time of a scope around a reference is what was declared there, apart
from what is made up. -/
theorem filter_declarations (hscope : scope ∈ p.scopes) :
    (t.declarations scope).filter (· < g.size) = g.declaredIn scope := by
  obtain ⟨q, tag, hq, htag, hopens⟩ := hp.exists_opens hscope
  have hk := Tag.isExpression_of_opens? hopens
  have hq' := h.grows.stands_of_tag? hq htag (ScopeTable.Nests.ne_reference hopens)
  have hheld := h.second.indexed.holds.complete q scope tag hq' (h.grows.tag? htag) hopens
  obtain ⟨new, hnew, hmade⟩ := now.more scope
  have hnone : new.filter (· < g.size) = [] := by
    rw [List.filter_eq_nil_iff]
    intro d hd
    simpa using Nat.le_trans h.grows.size (hmade d hd).1
  rw [hnew, hheld, List.filter_append, hnone, List.append_nil]
  exact h.grows.filter_declaredIn h.sprouting.raw h.first.start.wellFormed
    h.first.sound.wellFormed htag hk

include old now in
/-- What was held the first time of a scope around a reference is held again. -/
theorem declarations_again (hscope : scope ∈ p.scopes) :
    ∃ new, t'.declarations scope = (t.declarations scope).filter (· < g.size) ++ new ∧
      new ⊆ t.declarations scope := by
  obtain ⟨q, tag, hq, htag, hopens⟩ := hp.exists_opens hscope
  have hheld := h.first.indexed.holds.complete q scope tag hq htag hopens
  obtain ⟨new, hnew, hmade⟩ := old.more scope
  obtain ⟨new', hnew', -⟩ := now.more scope
  obtain ⟨done, hafter⟩ := old.after
  refine ⟨new, by rw [hnew, hheld, h.filter_declarations hp now hscope], fun d hd => ?_⟩
  obtain ⟨-, hfield, q', hq', hhead⟩ := hmade d hd
  have hlater := old.during.graph.trans hafter.graph
  have hmem := h.second.indexed.holds.mem_declarations h.first.sound.wellFormed
    (hlater.stands_of_tag? hq' hfield (by decide)) (.single (hlater.tag? hfield) rfl) hhead
  rw [hnew']
  exact List.mem_append_left _ hmem

include now in
/-- What is made up among the declarations of a scope is a field of a record. -/
theorem mem_fieldsOf_of_mem_declarations (hscope : scope ∈ p.scopes)
    (hd : d ∈ t.declarations scope) (hle : g.size ≤ d) : d ∈ r₁.graph.fieldsOf scope := by
  obtain ⟨q, tag, hq, htag, hopens⟩ := hp.exists_opens hscope
  have hk := Tag.isExpression_of_opens? hopens
  obtain ⟨done, hbefore⟩ := now.before
  obtain ⟨hvalue, q', hq', hhead⟩ := now.more.mem_declarations h.second.indexed.holds
    h.first.sound.wellFormed hbefore.graph hd
  obtain ⟨scope', scopes, hscopes, hmem⟩ := now.sound.wellFormed.mem_declaredIn hvalue hq'
  rw [hscopes, List.head?_cons, Option.some.injEq] at hhead
  subst hhead
  exact (h.grows_moment now).mem_fieldsOf_of_le h.sprouting.raw h.first.start.wellFormed
    now.sound.wellFormed htag hk hmem hle

omit hp in
include old now in
/-- The names of what was seen the first time stay. -/
theorem find?_seen : (p.scopes.flatMap t'.declarations).find? (r₁.graph.isNamed name) =
    (p.scopes.flatMap t'.declarations).find? (q₁.graph.isNamed name) := by
  obtain ⟨done, hbefore⟩ := old.before
  obtain ⟨done', hafter⟩ := old.after
  obtain ⟨done'', hbefore'⟩ := now.before
  have hlater := (old.during.graph.trans hafter.graph).trans (hbefore'.graph.mono h.grows.size)
  refine hlater.find?_isNamed (fun d hd => ?_) name
  obtain ⟨scope, -, hd⟩ := List.mem_flatMap.mp hd
  exact (old.more.mem_declarations h.first.indexed.holds h.first.start.wellFormed hbefore.graph
    hd).1.lt_size (List.mem_singleton.mpr rfl)

include old now in
/-- Where nothing is seen the second time, nothing was seen the first time. -/
theorem seen_eq_none
    (hseen : (p.scopes.flatMap t.declarations).find? (r₁.graph.isNamed name) = none) :
    (p.scopes.flatMap t'.declarations).find? (q₁.graph.isNamed name) = none := by
  rw [← h.find?_seen old now, List.find?_eq_none]
  rw [List.find?_eq_none] at hseen
  intro d hd
  obtain ⟨scope, hscope, hd⟩ := List.mem_flatMap.mp hd
  refine hseen d (List.mem_flatMap.mpr ⟨scope, hscope, ?_⟩)
  obtain ⟨new, hnew, hsubset⟩ := h.declarations_again hp old now hscope
  rw [hnew] at hd
  rcases List.mem_append.mp hd with hd | hd
  · exact (List.mem_filter.mp hd).1
  · exact hsubset hd

end

end Rerun

end Resolver

end ProgramGraph
