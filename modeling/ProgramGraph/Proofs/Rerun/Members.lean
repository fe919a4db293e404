import ProgramGraph.Proofs.Rerun.Lookup

set_option autoImplicit false

/-!
# Finding declarations again

What a second resolution finds for a reference is what the first one found, unless a made-up field
gets before it, and it makes no node on the way, unless what the first one found is no longer there.

## Main results

* `ProgramGraph.Resolver.Rerun.memberOf_ne_none` — a member that was found is found again.
* `ProgramGraph.Resolver.Rerun.graph_eq` — no node is made for a reference.
* `ProgramGraph.Resolver.Rerun.target_eq` — the same declaration is found.
-/

namespace ProgramGraph.Resolver.Rerun

variable {g : Graph} {t₀ t₁ t t' : ScopeTable} {index index' : Index} {V₀ V V₁ W : List NodeId}
  {r r' r₁ r₂ q₁ q₂ : Resolver} {p : Place} {id : NodeId} {name : String} {isStatic : Bool}
  {target target' : Option NodeId} {owner type : Descriptor} {field : NodeId}

/-! ## Records around a reference -/

section

variable (h : Rerun g t₀ t₁ index index' V₀ V V₁ W r r') (hp : g.Stands p id)
  (old : Run.Reference g t₀ index r name isStatic target p t' q₁ q₂)
  (now : Moment index' t₁ r t r₁)

include h hp

include now old in
/-- The types that are searched for a member of the type around a reference stay the same. -/
theorem lineage_eq (htype : p.types.head? = some owner) : r₁.lineage owner = q₁.lineage owner := by
  obtain ⟨own, hown, -⟩ := h.exists_own hp htype
  obtain ⟨done, hbefore⟩ := old.before
  obtain ⟨done', hbefore'⟩ := now.before
  have hkept := h.first.indexed.superTypesOf_kept h.second.indexed h.grows h.sprouting.raw
    h.first.start.wellFormed h.first.sound.wellFormed hown
  rw [lineage, lineage, hbefore.superTypesOf, hbefore'.superTypesOf, hkept]

include now in
/-- A field of the record for the type around a reference is found again. -/
theorem ownField_again (htype : p.types.head? = some owner)
    (hfield : r.ownField name owner = some field) : r₁.ownField name owner = some field := by
  obtain ⟨own, hown, hown'⟩ := h.exists_own hp htype
  obtain ⟨done, hbefore⟩ := now.before
  obtain ⟨record, hrecord, hfieldOf⟩ := Sound.exists_record hfield
  have hsame := (h.first.runs.reaches h.first.start).2.records _ _ hown
  obtain rfl := Option.some.inj (hsame.symm.trans hrecord)
  rw [ownField, hbefore.records _ _ hown', Option.bind_some]
  exact hbefore.graph.fieldOf h.first.sound.wellFormed.typed (h.first.sound.records _ _ hrecord)
    hfieldOf

include now old in
/-- A field of this record that was there when the reference was resolved is found again. -/
theorem ownField_found (htype : p.types.head? = some owner)
    (hfield : q₂.ownField name owner = some field) : r₁.ownField name owner = some field := by
  obtain ⟨done, hafter⟩ := old.after
  exact h.ownField_again hp now htype (hafter.ownField old.sound' hfield)

include now old in
/-- **A field was searched the first time** if one is searched the second time. -/
theorem exists_findsMember
    (hseen : (p.scopes.flatMap t.declarations).find? (r₁.graph.isNamed name) = none)
    (htype : p.types.head? = some owner) (hstatic : isStatic = false) :
    ∃ field, target = some field ∧ q₁.FindsMember owner name field q₂ := by
  cases old.finds with
  | lexical hseen' => exact absurd ((h.seen_eq_none hp old now hseen).symm.trans hseen') (by simp)
  | nothing _ hno =>
    obtain ⟨own, hown, -⟩ := h.exists_own hp htype
    obtain ⟨done, hbefore⟩ := old.before
    rcases hno owner htype with hstatic' | hmissing
    · exact absurd (hstatic.symm.trans hstatic') (by simp)
    · exact absurd ((hbefore.records _ _ hown).symm.trans hmissing) (by simp)
  | @member owner' field _ _ _ htype' _ _ hfinds =>
    obtain rfl := Option.some.inj (htype'.symm.trans htype)
    exact ⟨field, rfl, hfinds⟩

variable (hstands : r.graph.Stands p id) (horphan : ¬ r.graph.Orphaned r.index index' id target)

include now old hstands horphan in
/-- **The field that was found** for a type in the lineage is found there again, unless it is
orphaned. -/
theorem ownField_kept (htype : p.types.head? = some owner) (hfound : target = some field)
    (hlineage : type ∈ q₁.lineage owner) (hfield : q₁.ownField name type = some field) :
    r₁.ownField name type = some field := by
  obtain ⟨done, hbefore⟩ := now.before
  obtain ⟨done', hafter⟩ := old.after
  have hfield' := hafter.ownField old.sound' (old.during.ownField old.sound hfield)
  unfold lineage at hlineage
  split at hlineage
  · exact absurd hlineage List.not_mem_nil
  · rcases List.mem_cons.mp hlineage with rfl | hsuper
    · exact h.ownField_again hp now htype hfield'
    · obtain ⟨record, hrecord, hfieldOf⟩ := Sound.exists_record hfield'
      have hsuper' : type ∈ r.index.superTypesOf owner := by
        rwa [hafter.superTypesOf, old.during.superTypesOf]
      have hagain : index'.record? type = some record := by
        by_contra hne
        exact horphan ⟨p, owner, type, record, field, hstands, htype, hsuper', hrecord, hfound,
          (Graph.mem_of_fieldOf hfieldOf).1, hne⟩
      rw [ownField, hbefore.records _ _ hagain, Option.bind_some]
      exact hbefore.graph.fieldOf h.first.sound.wellFormed.typed
        (h.first.sound.records _ _ hrecord) hfieldOf

include now old hstands horphan in
/-- **A member that was found is found again,** though another field may be found for it. -/
theorem memberOf_ne_none (htype : p.types.head? = some owner) (hfound : target = some field)
    (hknown : owner.isUnknown = false) (hfinds : q₁.FindsMember owner name field q₂) :
    r₁.memberOf owner name ≠ none := by
  obtain ⟨type, hlineage, hown⟩ : ∃ type ∈ r₁.lineage owner, r₁.ownField name type = some field := by
    cases hfinds with
    | found hmember =>
      obtain ⟨type, hlineage, hown⟩ := List.exists_of_findSome?_eq_some hmember
      exact ⟨type, h.lineage_eq hp old now htype ▸ hlineage,
        h.ownField_kept hp old now hstands horphan htype hfound hlineage hown⟩
    | standIn _ _ hown _ =>
      refine ⟨owner, ?_, h.ownField_found hp old now htype hown⟩
      rw [lineage, hknown]
      exact List.mem_cons_self ..
  intro hnone
  rw [memberOf, List.findSome?_eq_none_iff] at hnone
  rw [hnone type hlineage] at hown
  exact absurd hown (by simp)

include now old in
/-- **No node is made** when the declaration of a reference is looked for again.

**Proof sketch.** Only a field that stands in could be made. But a member that was found the first time is
found again, unless the reference is orphaned, and a field that stood in for an unknown type is still in its
record. -/
theorem graph_eq (hstands : r.graph.Stands p id)
    (horphan : ¬ r.graph.Orphaned r.index index' id target)
    (hfinds : r₁.FindsDeclaration (p.scopes.flatMap t.declarations) p.types.head? name isStatic
      target' r₂) : r₂.graph = r₁.graph := by
  cases hfinds with
  | lexical _ => rfl
  | nothing _ _ => rfl
  | @member owner field' record _ hseen htype hstatic hrecord hfinds =>
    obtain ⟨field, hfound, hfinds'⟩ := h.exists_findsMember hp old now hseen htype hstatic
    cases hfinds with
    | found _ => rfl
    | standIn hmissing hstand _ _ =>
      cases hknown : owner.isUnknown with
      | false =>
        exact absurd hmissing
          (h.memberOf_ne_none hp old now hstands horphan htype hfound hknown hfinds')
      | true =>
        -- an unknown type has no members: the field stood in the first time
        cases hfinds' with
        | found hmember =>
          exact absurd ((q₁.memberOf_of_isUnknown name hknown).symm.trans hmember) (by simp)
        | standIn _ _ hown _ =>
          exact now.sound.graph_standIn (h.ownField_found hp old now htype hown) hstand

end

/-! ## The same declaration -/

section

variable (h : Rerun g t₀ t₁ index index' V₀ V V₁ W r r') (hp : g.Stands p id)
  (old : Run.Reference g t₀ index r name isStatic target p t' q₁ q₂)
  (now : Moment index' t₁ r t r₁) (hafter : ∃ done, Step r.graph.size done r₁ r')
  (hstands : r'.graph.Stands p id) (hname : r'.graph.name? id = some name)
  (hclear : ¬ r'.graph.Overshadowed r'.index id isStatic target)
  (htarget : ∀ d, target = some d → r.graph.name? d = some name)

include h hafter hstands hname hclear in
/-- A made-up field of the name that gets before what the reference means is what it means.

**Proof sketch.** If it were not what the reference means, then it would overshadow this, as it is made up,
has the name, and comes before all scopes or types in which the reference could find what it means. -/
theorem eq_of_not_overshadowed {record : NodeId} (hfield : field ∈ r₁.graph.fieldsOf record)
    (hnamed : r₁.graph.name? field = some name) (hle : g.size ≤ field)
    (hwhere : (∃ inner outer, p.scopes = inner ++ record :: outer ∧
        r'.graph.OutOfScopes inner target) ∨
      isStatic = false ∧ r'.graph.OutOfScopes p.scopes target ∧ ∃ type inner declared outer,
        p.types.head? = some type ∧
          type :: r₁.index.superTypesOf type = inner ++ declared :: outer ∧
            r₁.index.record? declared = some record ∧
              r'.graph.OutOfTypes r'.index inner target) : target = some field := by
  obtain ⟨done, hafter⟩ := hafter
  have htag := Graph.tag?_of_mem_fieldsOf hfield
  obtain ⟨new, hnew, -⟩ := hafter.graph.fieldsOf htag
  have hmem : field ∈ r'.graph.fieldsOf record := hnew ▸ List.mem_append_left _ hfield
  have hmade : r'.graph.IsMadeUp field := by
    refine h.grows_end.isMadeUp hle ?_
    exact h.second.sound.wellFormed.typed.all_fieldsOf.lt_size hmem
  by_contra hne
  refine hclear ⟨p, name, record, field, hstands, hname, hmem, hafter.graph.name? hnamed, hmade, hne,
    hwhere.imp_right ?_⟩
  rintro ⟨hstatic, hscopes, type, inner, declared, outer, htype, hsplit, hrecord, htypes⟩
  refine ⟨hstatic, hscopes, type, inner, declared, outer, htype, ?_, hafter.records _ _ hrecord,
    htypes⟩
  rwa [hafter.superTypesOf]

include h hp now htarget in
/-- What a reference means is declared in no scope in which nothing is found for it again.

**Proof sketch.** If what the reference means were declared in one of the scopes, it would have been declared
there when the second resolution began. Then the table holds it at the visit of the reference, and it would be
found under the name. -/
theorem outOfScopes {scopes : List NodeId} (hscopes : scopes ⊆ p.scopes)
    (hnone : ∀ scope ∈ scopes, (t.declarations scope).find? (r₁.graph.isNamed name) = none) :
    r'.graph.OutOfScopes scopes target := by
  rintro scope hscope d hd rfl
  have hend := (h.second.runs.reaches h.second.start).2.graph
  obtain ⟨done, hbefore⟩ := now.before
  obtain ⟨q, tag, hq, htag, hopens⟩ := hp.exists_opens (hscopes hscope)
  have hqEnd := h.grows_end.stands_of_tag? hq htag (ScopeTable.Nests.ne_reference hopens)
  obtain ⟨node, hnode, htagNode⟩ := Graph.exists_node_of_tag? (h.grows_end.tag? htag)
  obtain ⟨hvalue, hstands⟩ := h.second.sound.wellFormed.stands_of_mem_declaredIn hqEnd hnode hd
  -- the declaration was there after the first resolution, in the same scope
  have hnamed := htarget d rfl
  obtain ⟨declaration, hdeclaration, -⟩ := Graph.exists_node_of_name? hnamed
  have hback := hend.stands_back (Nat.le_refl _) hstands (Graph.lt_size hdeclaration)
  have hvalue' : r.graph.All Tag.isValueDeclaration [d] := by
    obtain ⟨kind, hkind, hk⟩ := hvalue d (List.mem_singleton.mpr rfl)
    rw [hend.tag? (Graph.tag?_eq hdeclaration)] at hkind
    exact .single (Graph.tag?_eq hdeclaration) (Option.some.inj hkind ▸ hk)
  have hhead : (q.enter scope node).scopes.head? = some scope := by
    rw [Place.scopes_enter_of_opens? (htagNode ▸ hopens), List.head?_cons]
  have hheld := h.second.indexed.holds.mem_declarations h.first.sound.wellFormed hback hvalue' hhead
  obtain ⟨new, hnew, -⟩ := now.more scope
  have := hnone scope hscope
  rw [hnew, List.find?_eq_none] at this
  exact this d (List.mem_append_left _ hheld) (Graph.isNamed_iff.mpr (hbefore.graph.name? hnamed))

include now hafter htarget in
/-- What a reference means is no field of a record in which nothing is found for it again. -/
theorem Moment.outOfTypes {types : List Descriptor}
    (hnone : ∀ type ∈ types, r₁.ownField name type = none) :
    r'.graph.OutOfTypes r'.index types target := by
  rintro type htype record hrecord d hd rfl
  obtain ⟨done, hbefore⟩ := now.before
  obtain ⟨done', hafter⟩ := hafter
  have hnamed := htarget d rfl
  obtain ⟨declaration, hdeclaration, -⟩ := Graph.exists_node_of_name? hnamed
  have hlt := Graph.lt_size hdeclaration
  have hrecord' : r₁.index.record? type = some record := by
    refine (hafter.made type record hrecord).resolve_right fun hge => ?_
    have := hafter.graph.le_of_mem_parts hge (Graph.mem_parts_of_mem_fieldsOf hd)
    exact absurd hlt (Nat.not_lt.mpr this)
  obtain ⟨new, hnew, hle⟩ := hafter.graph.fieldsOf (now.sound.records _ _ hrecord')
  rw [hnew] at hd
  have hd' := (List.mem_append.mp hd).resolve_right fun hd => absurd hlt (Nat.not_lt.mpr (hle d hd))
  have hown := hnone type htype
  rw [ownField, hrecord', Option.bind_some, Graph.fieldOf, List.find?_eq_none] at hown
  exact hown d hd' (Graph.isNamed_iff.mpr (hbefore.graph.name? hnamed))

include h hp now hafter old hstands hname hclear htarget in
/-- **What is seen the second time** is what the reference means, or nothing is seen in either
resolution. -/
theorem seen_again :
    (p.scopes.flatMap t.declarations).find? (r₁.graph.isNamed name) = target ∨
      (p.scopes.flatMap t.declarations).find? (r₁.graph.isNamed name) = none ∧
        (p.scopes.flatMap t'.declarations).find? (q₁.graph.isNamed name) = none := by
  rw [← h.find?_seen old now]
  refine find?_flatMap_again (· < g.size) (fun scope hscope => ?_)
    (fun inner scope outer hsplit hinner d hd hnamed hnew => ?_) fun d hd => ?_
  · exact h.declarations_again hp old now hscope
  · have hle : g.size ≤ d := by simpa using hnew
    have hscope : scope ∈ p.scopes := by simp [hsplit]
    have hsubset : inner ⊆ p.scopes := hsplit ▸ List.subset_append_left ..
    exact h.eq_of_not_overshadowed hafter hstands hname hclear
      (h.mem_fieldsOf_of_mem_declarations hp now hscope hd hle) (Graph.isNamed_iff.mp hnamed) hle
      (Or.inl ⟨inner, outer, hsplit, h.outOfScopes hp now htarget hsubset hinner⟩)
  · rw [h.find?_seen old now] at hd
    cases old.finds with
    | lexical hseen => exact hseen.symm.trans hd
    | member hseen _ _ _ _ => exact absurd (hseen.symm.trans hd) (by simp)
    | nothing hseen _ => exact absurd (hseen.symm.trans hd) (by simp)

include h hp now hafter old hstands hname hclear htarget in
/-- **A field that is found the second time** for a type around the reference, and for none before
it, is the one that it means, or it was found for this type before.

**Proof sketch.** If the field was there before the second run, the record was indexed under the same type the
first time, and had the field then. If it is new, it was made up before what the reference means is found, so
it must be what the reference means, or this would be overshadowed. -/
theorem ownField_back (hstatic : isStatic = false) (htype : p.types.head? = some owner)
    (hseen : (p.scopes.flatMap t.declarations).find? (r₁.graph.isNamed name) = none)
    {inner outer : List Descriptor} (hlineage : r₁.lineage owner = inner ++ type :: outer)
    (hinner : ∀ earlier ∈ inner, r₁.ownField name earlier = none) {x : NodeId}
    (hfield : r₁.ownField name type = some x) :
    target = some x ∨ q₁.ownField name type = some x := by
  obtain ⟨record, hrecord, hfieldOf⟩ := Sound.exists_record hfield
  obtain ⟨hmem, hnamed⟩ := Graph.mem_of_fieldOf hfieldOf
  rcases Nat.lt_or_ge x g.size with hlt | hge
  · right
    have hgrows := h.grows_moment now
    have hold : record < g.size := by
      by_contra hnot
      have := hgrows.le_of_mem_parts (Nat.not_lt.mp hnot) (Graph.mem_parts_of_mem_fieldsOf hmem)
      exact absurd hlt (Nat.not_lt.mpr this)
    obtain ⟨done, hbefore⟩ := old.before
    obtain ⟨done', hbefore'⟩ := now.before
    have hagain : index'.record? type = some record := by
      refine (hbefore'.made type record hrecord).resolve_right (Nat.not_le.mpr ?_)
      exact Nat.lt_of_lt_of_le hold h.grows.size
    have hindexed := h.first.indexed.record?_back h.second.indexed h.grows h.sprouting.raw
      h.first.start.wellFormed h.first.sound.wellFormed hagain hold
    have htag := h.first.start.records _ _ hindexed
    rw [ownField, hbefore.records _ _ hindexed, Option.bind_some]
    exact hbefore.graph.fieldOf h.first.start.wellFormed.typed htag
      (hgrows.fieldOf_back h.first.start.wellFormed.typed htag hfieldOf hlt)
  · left
    have hscopes : r'.graph.OutOfScopes p.scopes target := by
      refine h.outOfScopes hp now htarget (List.Subset.refl _) fun scope hscope => ?_
      rw [List.find?_eq_none] at hseen ⊢
      exact fun d hd => hseen d (List.mem_flatMap.mpr ⟨scope, hscope, hd⟩)
    refine h.eq_of_not_overshadowed hafter hstands hname hclear hmem hnamed hge
      (Or.inr ⟨hstatic, hscopes, owner, inner, type, outer, htype, ?_, hrecord,
        now.outOfTypes hafter htarget hinner⟩)
    unfold lineage at hlineage
    split at hlineage
    · exact absurd hlineage (by simp)
    · exact hlineage

include h hp now hafter old hstands hname hclear htarget in
/-- **The member that was found is found again.** -/
theorem memberOf_again (hstands' : r.graph.Stands p id)
    (horphan : ¬ r.graph.Orphaned r.index index' id target) (hstatic : isStatic = false)
    (htype : p.types.head? = some owner)
    (hseen : (p.scopes.flatMap t.declarations).find? (r₁.graph.isNamed name) = none)
    (hfound : target = some field) (hknown : owner.isUnknown = false)
    (hfinds : q₁.FindsMember owner name field q₂) : r₁.memberOf owner name = some field := by
  have hlineage := h.lineage_eq hp old now htype
  cases hfinds with
  | found hmember =>
    rw [memberOf, hlineage]
    refine findSome?_again hmember (fun type hmem hown => ?_)
      fun inner type outer hsplit hinner x hx => ?_
    · exact h.ownField_kept hp old now hstands' horphan htype hfound hmem hown
    · refine (h.ownField_back hp old now hafter hstands hname hclear htarget hstatic htype hseen
        (hlineage.trans hsplit) hinner hx).imp_left ?_
      exact fun heq => Option.some.inj (heq.symm.trans hfound)
  | standIn _ _ hown _ =>
    rw [memberOf, lineage, hknown]
    simp [h.ownField_found hp old now htype hown]

include h hp now hafter old hstands hname hclear htarget in
/-- **The same field** is found, in the record around the reference or in those of its supertypes, or
it stands in both times.

**Proof sketch.** If the type of the record around is known, the field is a member of it in the second
resolution too. An unknown type has no members, so a field stands in for it both times, and the one of the
first time is kept by its record. -/
theorem findsMember_eq (hduring : Step r.graph.size [] r₁ r₂) (hstands' : r.graph.Stands p id)
    (horphan : ¬ r.graph.Orphaned r.index index' id target) (hstatic : isStatic = false)
    (htype : p.types.head? = some owner)
    (hseen : (p.scopes.flatMap t.declarations).find? (r₁.graph.isNamed name) = none)
    (hfound : target = some field) (hfinds : q₁.FindsMember owner name field q₂) {field' : NodeId}
    (hfinds' : r₁.FindsMember owner name field' r₂) : field' = field := by
  cases hknown : owner.isUnknown with
  | false =>
    have hmember := h.memberOf_again hp old now hafter hstands hname hclear htarget hstands' horphan
      hstatic htype hseen hfound hknown hfinds
    cases hfinds' with
    | found hmember' => exact Option.some.inj (hmember'.symm.trans hmember)
    | standIn hmissing _ _ _ => exact absurd (hmissing.symm.trans hmember) (by simp)
  | true =>
    -- an unknown type has no members
    cases hfinds with
    | found hmember =>
      exact absurd ((q₁.memberOf_of_isUnknown name hknown).symm.trans hmember) (by simp)
    | standIn _ _ hown _ =>
      cases hfinds' with
      | found hmember' =>
        exact absurd ((r₁.memberOf_of_isUnknown name hknown).symm.trans hmember') (by simp)
      | standIn _ _ hown' _ =>
        have hkept := hduring.ownField now.sound (h.ownField_found hp old now htype hown)
        exact Option.some.inj (hown'.symm.trans hkept)

end

/-- **The same declaration** is found for a reference again, unless it is orphaned or overshadowed.

**Proof sketch.** What a reference finds in scope is the same again, unless something was put before it. What
it finds as a field of the record around it is there again, unless it is orphaned. If it found nothing, then
no such record is known, and none is known again. -/
theorem target_eq (h : Rerun g t₀ t₁ index index' V₀ V V₁ W r r') (hp : g.Stands p id)
    (old : Run.Reference g t₀ index r name isStatic target p t' q₁ q₂)
    (again : Run.Reference r.graph t₁ index' r' name isStatic target' p t r₁ r₂)
    (hstands : r.graph.Stands p id) (hstands' : r'.graph.Stands p id)
    (hname : r'.graph.name? id = some name)
    (horphan : ¬ r.graph.Orphaned r.index index' id target)
    (hclear : ¬ r'.graph.Overshadowed r'.index id isStatic target)
    (htarget : ∀ d, target = some d → r.graph.name? d = some name) : target' = target := by
  have now : Moment index' t₁ r t r₁ := ⟨again.sound, again.before, again.more⟩
  obtain ⟨done', hafter⟩ := again.after
  have hafter' : ∃ done, Step r.graph.size done r₁ r' :=
    ⟨done', (again.during.weaken (List.nil_subset _)).trans again.sound again.sound' hafter⟩
  have hseen := h.seen_again hp old now hafter' hstands' hname hclear htarget
  cases again.finds with
  | lexical hfound =>
    rcases hseen with hseen | ⟨hnone, -⟩
    · exact hfound.symm.trans hseen
    · exact absurd (hnone.symm.trans hfound) (by simp)
  | nothing hnone hno =>
    cases old.finds with
    | lexical hfound => exact absurd ((h.seen_eq_none hp old now hnone).symm.trans hfound) (by simp)
    | nothing _ _ => rfl
    | @member owner field record _ _ htype hstatic hrecord hfinds =>
      obtain ⟨own, -, hown⟩ := h.exists_own hp htype
      obtain ⟨done, hbefore⟩ := now.before
      rcases hno owner htype with hstatic' | hmissing
      · exact absurd (hstatic.symm.trans hstatic') (by simp)
      · exact absurd ((hbefore.records _ _ hown).symm.trans hmissing) (by simp)
  | @member owner field' record _ hnone htype hstatic hrecord hfinds =>
    obtain ⟨field, hfound, hfinds'⟩ := h.exists_findsMember hp old now hnone htype hstatic
    have hfield := h.findsMember_eq hp old now hafter' hstands' hname hclear htarget again.during
      hstands horphan hstatic htype hnone hfound hfinds' hfinds
    rw [hfound, hfield]

end ProgramGraph.Resolver.Rerun
