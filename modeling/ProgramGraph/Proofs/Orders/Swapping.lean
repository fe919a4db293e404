import ProgramGraph.Proofs.Orders.Counterparts

set_option autoImplicit false

/-!
# The order of documents

Two documents that declare no type both can be built in either order, and mean almost the same: a usage
is linked to a written declaration, to a made-up one or to nothing, whatever the order. What the order
does decide is which usages are resolved first, and so which fields are made up by the time another usage
is resolved. Such a field can get before a written one in the one run and not in the other.

## Main definitions

* `ProgramGraph.Sense.rename` — a sense under other numbers.
* `ProgramGraph.Graph.Alike` — links that mean the same in two resolved graphs.
* `ProgramGraph.Graph.AlikeAccesses`, `ProgramGraph.Graph.AlikeUsages` — usages that mean the same.

## Main results

* `ProgramGraph.Graph.Swaps.record?_eq`, `ProgramGraph.Graph.Swaps.enum?_eq` — the two indices.
* `ProgramGraph.Graph.Swaps.referenceSense_eq`, `ProgramGraph.Graph.Swaps.accessSense_eq` — the senses of
  usages.
* `ProgramGraph.Graph.resolveUsages_swap` — the links of the two graphs.
* `ProgramGraph.resolveUsages_swap_early` — accesses that depend on the order.
-/

namespace ProgramGraph

/-- A sense in which the declaration has another number. -/
def Sense.rename (ρ : NodeId → NodeId) : Sense → Sense
  | .written d => .written (ρ d)
  | .madeUp => .madeUp
  | .nothing => .nothing

/-- What is made up where nothing is found does not depend on the numbers. -/
theorem Sense.orMadeUp_map (ρ : NodeId → NodeId) (d : Option NodeId) :
    orMadeUp (d.map ρ) = (orMadeUp d).rename ρ := by
  cases d <;> rfl

/-- What means nothing where nothing is found does not depend on the numbers. -/
theorem Sense.orNothing_map (ρ : NodeId → NodeId) (d : Option NodeId) :
    orNothing (d.map ρ) = (orNothing d).rename ρ := by
  cases d <;> rfl

/-- Searching two lists one after the other, if nothing is found in one of them. -/
theorem find?_append_comm {α : Type} {test : α → Bool} {l l' : List α}
    (h : (∀ a ∈ l, test a = false) ∨ ∀ a ∈ l', test a = false) :
    (l ++ l').find? test = (l' ++ l).find? test := by
  rw [List.find?_append, List.find?_append]
  rcases h with h | h
  · have hnone : l.find? test = none := List.find?_eq_none.mpr fun a ha => Bool.eq_false_iff.mp (h a ha)
    rw [hnone, Option.none_or, Option.or_none]
  · have hnone : l'.find? test = none := List.find?_eq_none.mpr fun a ha => Bool.eq_false_iff.mp (h a ha)
    rw [hnone, Option.none_or, Option.or_none]

namespace Graph

/-! ## The two indices -/

namespace Swaps

variable {g g' : Graph} {ρ : NodeId → NodeId} {first second V V' : List NodeId} {t t' : ScopeTable}
  {index index' : Index} {p : Place} {id : NodeId} {type : Descriptor} {name : String} {isStatic : Bool}

section

variable (swaps : Swaps ρ g g' first second) (indexed : Index.Indexed g t index V)
  (indexed' : Index.Indexed g' t' index' V')

include swaps indexed indexed'

/-- **The first declaration of a type** is the same in both orders. -/
theorem find?_spells {tag : Tag} (hkind : tag = .record ∨ tag = .enum) :
    V'.find? (g'.spells tag type) = (V.find? (g.spells tag type)).map ρ := by
  rw [indexed.preorder.unique swaps.preorder, indexed'.preorder.unique swaps.preorder',
    find?_append_comm (swaps.apart tag type hkind)]
  refine find?_map_of_eq fun id hid => swaps.renames.spells (swaps.lt id ?_)
  exact List.mem_append.mpr (List.mem_append.mp hid).symm

/-- **The record of a type.** -/
theorem record?_eq (type : Descriptor) : index'.record? type = (index.record? type).map ρ := by
  rw [indexed'.lists.records, swaps.find?_spells indexed indexed' (Or.inl rfl), indexed.lists.records]

/-- **The enumeration of a type.** -/
theorem enum?_eq (type : Descriptor) : index'.enum? type = (index.enum? type).map ρ := by
  rw [indexed'.lists.enums, swaps.find?_spells indexed indexed' (Or.inr rfl), indexed.lists.enums]

variable (start : Resolver.Sound ⟨g, index⟩) (start' : Resolver.Sound ⟨g', index'⟩)

include start

/-- The supertypes of a type. -/
theorem superTypesOf_eq (type : Descriptor) : index'.superTypesOf type = index.superTypesOf type := by
  rw [indexed'.superTypes, indexed.superTypes, swaps.record?_eq indexed indexed']
  cases hrecord : index.record? type with
  | none => rfl
  | some record => exact swaps.renames.superTypesOf (start.records _ _ hrecord)

/-- The field of a name for a type. -/
theorem ownField_eq (name : String) (type : Descriptor) :
    (⟨g', index'⟩ : Resolver).ownField name type =
      ((⟨g, index⟩ : Resolver).ownField name type).map ρ := by
  simp only [Resolver.ownField, swaps.record?_eq indexed indexed']
  cases hrecord : index.record? type with
  | none => rfl
  | some record => exact swaps.renames.fieldOf start.wellFormed (start.records _ _ hrecord)

/-! ## The senses of usages -/

/-- **The sense of a member.** -/
theorem memberSense_eq (type : Descriptor) (name : String) :
    (⟨g', index'⟩ : Resolver).memberSense type name =
      ((⟨g, index⟩ : Resolver).memberSense type name).rename ρ := by
  have hfields : (⟨g', index'⟩ : Resolver).ownField name =
      Option.map ρ ∘ (⟨g, index⟩ : Resolver).ownField name :=
    funext fun type => swaps.ownField_eq indexed indexed' start name type
  have hlineage : (⟨g', index'⟩ : Resolver).lineage type = (⟨g, index⟩ : Resolver).lineage type := by
    simp only [Resolver.lineage, swaps.superTypesOf_eq indexed indexed' start]
  rw [Resolver.memberSense, Resolver.realMember, Resolver.memberOf, hlineage, hfields,
    ← List.map_findSome?, Function.comp_apply, ← Option.map_or, Sense.orMadeUp_map]
  rfl

/-- **The sense of a reference.**

**Proof sketch.** The scopes around the reference declare the same in both graphs, up to the renaming, and in
the same order; so the same is found lexically. The member of a type has the same sense in both by
`memberSense_eq`. -/
theorem referenceSense_eq (hp : g.Stands p id) (name : String) (isStatic : Bool) :
    (⟨g', index'⟩ : Resolver).referenceSense (p.rename ρ) name isStatic =
      ((⟨g, index⟩ : Resolver).referenceSense p name isStatic).rename ρ := by
  have hscopes : ∀ scope ∈ p.scopes, scope < g.size := fun scope hscope => by
    obtain ⟨-, tag, -, htag, -⟩ := hp.exists_opens hscope
    exact lt_size_of_tag? htag
  have hdeclared : (p.rename ρ).scopes.flatMap g'.declaredIn = (p.scopes.flatMap g.declaredIn).map ρ := by
    rw [Place.rename, List.flatMap_map, List.map_flatMap]
    exact List.flatMap_congr fun scope hscope =>
      swaps.renames.declaredIn start.wellFormed (hscopes scope hscope)
  have hlexical : ((p.rename ρ).scopes.flatMap g'.declaredIn).find? (g'.isNamed name) =
      ((p.scopes.flatMap g.declaredIn).find? (g.isNamed name)).map ρ := by
    rw [hdeclared]
    refine find?_map_of_eq fun d hd => swaps.renames.isNamed ?_
    obtain ⟨scope, -, hmem⟩ := List.mem_flatMap.mp hd
    obtain ⟨part, -, hoffers⟩ := List.mem_flatMap.mp hmem
    exact start.wellFormed.tree.lt_of_mem_offers hoffers
  have htypes : (p.rename ρ).types = p.types := rfl
  simp only [Resolver.referenceSense, hlexical, htypes]
  cases (p.scopes.flatMap g.declaredIn).find? (g.isNamed name) with
  | some d => rfl
  | none =>
    cases p.types.head? with
    | none => rfl
    | some owner =>
      cases isStatic with
      | true => rfl
      | false => exact swaps.memberSense_eq indexed indexed' start owner name

/-- **The sense of a base.** -/
theorem baseSense_eq (wf' : g'.WellFormed []) (type : Descriptor) :
    (⟨g', index'⟩ : Resolver).baseSense type = ((⟨g, index⟩ : Resolver).baseSense type).rename ρ := by
  have hself : ((index.record? type).map ρ).bind g'.selfOf = ((index.record? type).bind g.selfOf).map ρ := by
    cases hrecord : index.record? type with
    | none => rfl
    | some record => exact swaps.renames.selfOf start.wellFormed wf' (start.records _ _ hrecord)
  simp only [Resolver.baseSense, swaps.enum?_eq indexed indexed', swaps.record?_eq indexed indexed', hself]
  rw [← Option.map_or, Sense.orMadeUp_map]

/-- **The sense of a member of a reference.** -/
theorem accessSense_eq (type : Descriptor) (name : String) :
    (⟨g', index'⟩ : Resolver).accessSense type name =
      ((⟨g, index⟩ : Resolver).accessSense type name).rename ρ := by
  simp only [Resolver.accessSense, swaps.enum?_eq indexed indexed']
  cases henum : index.enum? type with
  | none => exact swaps.memberSense_eq indexed indexed' start type.heard name
  | some enum =>
    have htag := start.enums _ _ henum
    change Sense.orNothing ((g'.entriesOf (ρ enum)).find? (g'.isNamed name)) = _
    rw [swaps.renames.entriesOf htag, find?_map_of_eq fun constant hconstant =>
      swaps.renames.isNamed (start.wellFormed.typed.all_entriesOf.lt_size hconstant), Sense.orNothing_map]

end

end Swaps

/-! ## The two resolved graphs -/

/-- Links in two resolved graphs mean the same: written declarations that are counterparts, or something
made up in both graphs, or nothing. -/
inductive Alike (start start' g g' : Graph) : Option NodeId → Option NodeId → Prop where
  /-- Written declarations. -/
  | written {d d' : NodeId} (hcounterparts : Counterparts start start' d d') (hwritten : g.IsWritten d)
    (hwritten' : g'.IsWritten d') : Alike start start' g g' (some d) (some d')
  /-- Made-up declarations. -/
  | madeUp {d d' : NodeId} (hmade : g.IsMadeUp d) (hmade' : g'.IsMadeUp d') :
    Alike start start' g g' (some d) (some d')
  /-- Nothing. -/
  | nothing : Alike start start' g g' none none

/-- Links that have the same sense mean the same. -/
theorem Bears.alike {start start' g g' : Graph} {ρ : NodeId → NodeId} {sense : Sense}
    {link link' : Option NodeId} (h : g.Bears sense link) (h' : g'.Bears (sense.rename ρ) link')
    (hcounterparts : ∀ d, g.IsWritten d → Counterparts start start' d (ρ d)) :
    Alike start start' g g' link link' := by
  cases h with
  | written hwritten =>
    cases h' with
    | written hwritten' => exact .written (hcounterparts _ hwritten) hwritten hwritten'
  | madeUp hmade =>
    cases h' with
    | madeUp hmade' => exact .madeUp hmade hmade'
  | nothing =>
    cases h'
    exact .nothing

/-- Links that mean the same are there or not. -/
theorem Alike.eq_none_iff {start start' g g' : Graph} {link link' : Option NodeId}
    (h : Alike start start' g g' link link') : link = none ↔ link' = none := by
  cases h <;> simp

section

variable (start start' g g' : Graph) (index index' : Index) (id id' : NodeId)

/-- The links of a usage and its counterpart mean the same, unless one of them goes astray. -/
def AlikeUnlessAstray (link link' : Option NodeId) : Prop :=
  Alike start start' g g' link link' ∨ start.Astray g index id link ∨ start'.Astray g' index' id' link'

/-- A member access and its counterpart mean the same. -/
structure AlikeAccesses (base base' : NodeId) (member member' : Option NodeId) : Prop where
  /-- Their bases do, without exception. -/
  bases : Alike start start' g g' (some base) (some base')
  /-- Both or none of them have members. -/
  linked : member = none ↔ member' = none
  /-- If the bases keep their types, the members mean the same, unless one of them goes astray. -/
  members : start.KeepsType g index id base → start'.KeepsType g' index' id' base' →
    AlikeUnlessAstray start start' g g' index index' id id' member member'

/-- If a node is a usage, its counterpart is a usage that means the same. -/
structure AlikeUsages : Prop where
  /-- The counterpart of a reference is a reference, -/
  reference : ∀ target isStatic, g.payload? id = some (.reference target isStatic) →
    ∃ target', g'.payload? id' = some (.reference target' isStatic) ∧
      AlikeUnlessAstray start start' g g' index index' id id' target target'
  /-- and that of a member access is a member access. -/
  access : ∀ base member, g.payload? id = some (.memberAccess base member) →
    ∃ base' member', g'.payload? id' = some (.memberAccess base' member') ∧
      AlikeAccesses start start' g g' index index' id id' base base' member member'

end

end Graph

namespace Resolver.Run

open ProgramGraph.Graph

variable {g g' : Graph} {ρ : NodeId → NodeId} {first second V₀ V V₀' V' : List NodeId}
  {t t' : ScopeTable} {index index' : Index} {r r' : Resolver} {id : NodeId}

/-- A reference that is the operand of an access means nothing. -/
theorem eq_none_of_isOperand (run : Run g t index V₀ V r) (hg : g.Sprouting [])
    (hreference : g.tag? id = some .reference) (hoperand : g.IsOperand id) {target : Option NodeId}
    {isStatic : Bool} (hpayload : r.graph.payload? id = some (.reference target isStatic)) :
    target = none := by
  have hnot : id ∉ V := fun hid => (run.mem_iff_of_reference hg hreference).mp hid hoperand
  have hold := run.payload?_of_notMem hpayload (Or.inl rfl) hnot
  obtain ⟨node, hnode, heq⟩ := exists_node_of_payload? hold
  have hraw := hg.raw.payload id node hnode
  rw [heq] at hraw
  exact hraw

variable (swaps : Swaps ρ g g' first second) (run : Run g t index V₀ V r) (run' : Run g' t' index' V₀' V' r')
  (hg : g.Sprouting []) (hg' : g'.Sprouting []) (hlt : id < g.size)
  (hcounterparts : ∀ id < g.size, Counterparts g g' id (ρ id))

include swaps run run' hg hg' hlt hcounterparts

/-- **A reference** in both orders.

**Proof sketch.** An operand is linked to nothing in both runs. Any other reference is visited in both, and in
each run it bears the sense that the documents give it, or is astray. These senses are the same in both
orders, and two nodes that bear the same sense are alike. -/
theorem alike_reference {target : Option NodeId} {isStatic : Bool}
    (hpayload : r.graph.payload? id = some (.reference target isStatic)) :
    ∃ target', r'.graph.payload? (ρ id) = some (.reference target' isStatic) ∧
      AlikeUnlessAstray g g' r.graph r'.graph r.index r'.index id (ρ id) target target' := by
  have hgrows := (run.runs.reaches run.start).2.graph
  have hgrows' := (run'.runs.reaches run'.start).2.graph
  have htag := hgrows.tag?_back (tag?_of_payload? hpayload) rfl
  obtain ⟨node, hnode, hkind⟩ := exists_node_of_tag? htag
  -- it is static from the start
  obtain ⟨old, hold⟩ : ∃ old, g.payload? id = some (.reference old isStatic) := by
    rw [Node.tag] at hkind
    cases heq : node.payload with
    | reference old isStatic' =>
      have hstart := (payload?_eq hnode).trans (congrArg some heq)
      obtain ⟨target', hend⟩ := hgrows.exists_reference hstart
      rw [hpayload, Option.some.injEq, Payload.reference.injEq] at hend
      exact ⟨old, by rw [hstart, hend.2]⟩
    | _ => rw [heq] at hkind; cases hkind
  obtain ⟨old', hold'⟩ := swaps.renames.exists_reference hold
  obtain ⟨target', hpayload'⟩ := hgrows'.exists_reference hold'
  have htag' := tag?_of_payload? hold'
  refine ⟨target', hpayload', ?_⟩
  obtain ⟨p, hp⟩ := hg.stands hlt
  have hoperand := swaps.renames.isOperand_iff hg.wellFormed hg'.wellFormed.tree hp htag
  by_cases hmem : g.IsOperand id
  · obtain rfl := run.eq_none_of_isOperand hg htag hmem hpayload
    obtain rfl := run'.eq_none_of_isOperand hg' htag' (hoperand.mpr hmem) hpayload'
    exact Or.inl .nothing
  · have hid := (run.mem_iff_of_reference hg htag).mpr hmem
    have hid' := (run'.mem_iff_of_reference hg' htag').mpr fun hmem' => hmem (hoperand.mp hmem')
    have hname := hgrows.name? (name?_eq hnode)
    have hname' := hgrows'.name? ((swaps.renames.name? hlt).trans (name?_eq hnode))
    obtain ⟨q, _, _, _, hq, moment⟩ := run.reference hid hpayload hname
    obtain ⟨q', _, _, _, hq', moment'⟩ := run'.reference hid' hpayload' hname'
    obtain rfl := hp.unique hg.wellFormed.tree (hgrows.stands_back (Nat.le_refl _) hq hlt)
    obtain rfl := (swaps.renames.stands hg.wellFormed hp).unique hg'.wellFormed.tree
      (hgrows'.stands_back (Nat.le_refl _) hq' (lt_size_of_tag? htag'))
    have hbears := run.bears_reference hg hp hq hname moment hpayload
    have hbears' := run'.bears_reference hg' (swaps.renames.stands hg.wellFormed hp) hq' hname' moment' hpayload'
    rw [swaps.referenceSense_eq run.indexed run'.indexed run.start hp] at hbears'
    rcases hbears with hbears | hastray
    · rcases hbears' with hbears' | hastray'
      · exact Or.inl (hbears.alike hbears' fun d hd => hcounterparts d (hgrows.lt_of_isWritten hd))
      · exact Or.inr (Or.inr hastray')
    · exact Or.inr (Or.inl hastray)

variable {base base' old : NodeId} {member member' stub : Option NodeId}

section

variable (hold : g.payload? id = some (.memberAccess old stub))
  (hpayload : r.graph.payload? id = some (.memberAccess base member))
  (hpayload' : r'.graph.payload? (ρ id) = some (.memberAccess base' member'))

include hold hpayload hpayload'

/-- An access on a reference in both orders.

**Proof sketch.** The base and the member bear the senses that the documents give them in each of the two
runs. Base senses agree for both orders, and a constant or a field does unless the field was overtaken by a
made-up one, in which case the access is astray. -/
theorem alike_access_of_reference (htag : g.tag? old = some .reference) :
    AlikeAccesses g g' r.graph r'.graph r.index r'.index id (ρ id) base base' member member' := by
  have hgrows := (run.runs.reaches run.start).2.graph
  have hgrows' := (run'.runs.reaches run'.start).2.graph
  have hwritten : ∀ d, r.graph.IsWritten d → Counterparts g g' d (ρ d) :=
    fun d hd => hcounterparts d (hgrows.lt_of_isWritten hd)
  have hold' := swaps.renames.payload?_memberAccess hold
  obtain ⟨node, hnode, -⟩ := exists_node_of_payload? hold
  have hname := name?_eq hnode
  have hname' := (swaps.renames.name? hlt).trans hname
  have hbase := lt_size_of_tag? htag
  obtain ⟨b, hb⟩ :=
    Option.isSome_iff_exists.mp ((Orderly.empty.wired.quiet hg.quiet).typed old _ htag rfl)
  have haccess : g.Accesses id b.type.type node.name := ⟨old, stub, b, hold, hname, htag, hb, rfl⟩
  have haccess' := swaps.renames.accesses haccess
  obtain ⟨_, _, _, _, _, hlinked, usage⟩ := run.usage hg haccess
  obtain ⟨_, _, _, _, _, hlinked', usage'⟩ := run'.usage hg' haccess'
  obtain ⟨rfl, rfl⟩ := Payload.memberAccess.inj (Option.some.inj (hpayload.symm.trans hlinked))
  obtain ⟨rfl, rfl⟩ := Payload.memberAccess.inj (Option.some.inj (hpayload'.symm.trans hlinked'))
  have htype : (g.typeOf old).type = b.type.type := by rw [typeOf, hb]
  have htype' : (g'.typeOf (ρ old)).type = b.type.type := by rw [swaps.renames.typeOf hbase, htype]
  refine ⟨?_, ?_, fun hkeeps hkeeps' => ?_⟩
  · have hbears' := usage'.bears_base run' hg'.raw
    rw [swaps.baseSense_eq run.indexed run'.indexed run.start hg'.wellFormed] at hbears'
    exact (usage.bears_base run hg.raw).alike hbears' hwritten
  · have henum' := swaps.enum?_eq run.indexed run'.indexed b.type.type
    cases henum : index.enum? b.type.type with
    | some enum =>
      rw [henum] at henum'
      have hbears' := usage'.bears_constant run' hg'.raw henum'
      rw [swaps.accessSense_eq run.indexed run'.indexed run.start] at hbears'
      exact ((usage.bears_constant run hg.raw henum).alike hbears' hwritten).eq_none_iff
    | none =>
      rw [henum] at henum'
      obtain ⟨field, rfl, -⟩ := usage.exists_field henum
      obtain ⟨field', rfl, -⟩ := usage'.exists_field henum'
      simp
  · have hbears' := usage'.bears_member run' hg'.raw haccess' hkeeps'
    rw [swaps.accessSense_eq run.indexed run'.indexed run.start] at hbears'
    rcases usage.bears_member run hg.raw haccess hkeeps with hbears | ⟨field, rfl, hovertaken⟩
    · rcases hbears' with hbears' | ⟨field', rfl, hovertaken'⟩
      · exact Or.inl (hbears.alike hbears' hwritten)
      · exact Or.inr (Or.inr (.member hold' (hgrows'.name? hname') (htype' ▸ hovertaken')))
    · exact Or.inr (Or.inl (.member hold (hgrows.name? hname) (htype ▸ hovertaken)))

/-- An access on another expression in both orders.

**Proof sketch.** The base stays what it was written to be, in both orders. The member is a field of the type
that its base was written with, and this is the same type, so that it bears the same sense both times, unless
it was overtaken in one of them. -/
theorem alike_access_of_stays {tag : Tag} (htag : g.tag? old = some tag) (hexpression : tag.isExpression = true)
    (hreference : tag ≠ .reference) :
    AlikeAccesses g g' r.graph r'.graph r.index r'.index id (ρ id) base base' member member' := by
  have hgrows := (run.runs.reaches run.start).2.graph
  have hgrows' := (run'.runs.reaches run'.start).2.graph
  have hold' := swaps.renames.payload?_memberAccess hold
  obtain ⟨node, hnode, -⟩ := exists_node_of_payload? hold
  have hname := name?_eq hnode
  have hname' := (swaps.renames.name? hlt).trans hname
  have hbase := lt_size_of_tag? htag
  have htag' := (swaps.renames.tag? hbase).trans htag
  obtain ⟨-, _, _, _, _, _, hfound, moment⟩ := run.access (run.mem_of_linked hg hpayload (Or.inl rfl)) hpayload
  obtain ⟨-, _, _, _, _, _, hfound', moment'⟩ :=
    run'.access (run'.mem_of_linked hg' hpayload' (Or.inl rfl)) hpayload'
  obtain ⟨rfl, rfl⟩ := Payload.memberAccess.inj (Option.some.inj (hold.symm.trans hfound))
  obtain ⟨rfl, rfl⟩ := Payload.memberAccess.inj (Option.some.inj (hold'.symm.trans hfound'))
  obtain ⟨rfl, field, rfl, hbears⟩ := moment.bears_of_stays run hg hold hname htag hexpression hreference
  obtain ⟨rfl, field', rfl, hbears'⟩ :=
    moment'.bears_of_stays run' hg' hold' hname' htag' hexpression hreference
  refine ⟨.written (hcounterparts base hbase) (hgrows.isWritten hg.raw hbase)
    (hgrows'.isWritten hg'.raw (lt_size_of_tag? htag')), by simp, fun _ _ => ?_⟩
  have htype : (g'.typeOf (ρ base)).type = (g.typeOf base).type := by rw [swaps.renames.typeOf hbase]
  rw [htype, swaps.memberSense_eq run.indexed run'.indexed run.start] at hbears'
  rcases hbears with hbears | hovertaken
  · rcases hbears' with hbears' | hovertaken'
    · exact Or.inl (hbears.alike hbears' fun d hd => hcounterparts d (hgrows.lt_of_isWritten hd))
    · exact Or.inr (Or.inr (.member hold' (hgrows'.name? hname') (htype ▸ hovertaken')))
  · exact Or.inr (Or.inl (.member hold (hgrows.name? hname) hovertaken))

end

/-- **A member access** in both orders. -/
theorem alike_access (hpayload : r.graph.payload? id = some (.memberAccess base member)) :
    ∃ base' member', r'.graph.payload? (ρ id) = some (.memberAccess base' member') ∧
      AlikeAccesses g g' r.graph r'.graph r.index r'.index id (ρ id) base base' member member' := by
  obtain ⟨-, old, stub, _, _, _, hold, -⟩ := run.access (run.mem_of_linked hg hpayload (Or.inl rfl)) hpayload
  have hgrows' := (run'.runs.reaches run'.start).2.graph
  obtain ⟨base', member', hpayload'⟩ := hgrows'.exists_access (swaps.renames.payload?_memberAccess hold)
  refine ⟨base', member', hpayload', ?_⟩
  -- the base was an expression
  obtain ⟨node, hnode, heq⟩ := exists_node_of_payload? hold
  have hmem : old ∈ node.payload.links := by
    rw [heq]
    exact List.mem_cons_self
  have hoperand := swaps.operands id node hnode (by rw [Node.tag, heq]; rfl) old hmem
  obtain ⟨tag, htag, hexpression⟩ := (Option.any_eq_true _ _).mp hoperand
  by_cases hreference : tag = .reference
  · subst hreference
    exact alike_access_of_reference swaps run run' hg hg' hlt hcounterparts hold hpayload hpayload' htag
  · exact alike_access_of_stays swaps run run' hg hg' hlt hcounterparts hold hpayload hpayload' htag
      hexpression hreference

end Resolver.Run

/-- **The order of documents.** Two documents of which no type is declared by records of both or by
enumerations of both are built and resolved in the one order and in the other. Then every node has a
counterpart. A reference and its counterpart are linked to written declarations that are counterparts, or
to made-up ones, or to nothing, unless one of them goes astray. So are the bases of a member access and
its counterpart, without exception. Their members are both linked or both not, and also mean the same if
the bases keep their types, unless one of them goes astray.

**Proof sketch.** The two graphs differ in the numbers of the nodes only. Since no type is declared by both
documents, the first declaration of a type is the same in both orders, so the two indices agree, and with them
the sense of every usage: a written declaration, something made up or nothing. A resolution links each usage
in its sense, except where it meets a made-up field before a written one, which is what going astray means,
and except for a member that is looked up for another type than that of the reference, which a base that keeps
its type excludes. -/
theorem Graph.resolveUsages_swap (a b : String × Document) (hapart : Apart a b) :
    ∃ g index g' index', (ofDocuments [a, b]).resolveUsages = .ok (g, index) ∧
      (ofDocuments [b, a]).resolveUsages = .ok (g', index') ∧
      (∀ id < (ofDocuments [a, b]).size, ∃ id',
        Counterparts (ofDocuments [a, b]) (ofDocuments [b, a]) id id') ∧
      ∀ id id', Counterparts (ofDocuments [a, b]) (ofDocuments [b, a]) id id' →
        AlikeUsages (ofDocuments [a, b]) (ofDocuments [b, a]) g g' index index' id id' := by
  have hg := sprouting_ofDocuments [a, b]
  have hg' := sprouting_ofDocuments [b, a]
  obtain ⟨ρ, first, second, swaps, hcounterparts⟩ := exists_swaps hapart
  have hown : ∀ id < (ofDocuments [a, b]).size,
      Counterparts (ofDocuments [a, b]) (ofDocuments [b, a]) id (ρ id) :=
    fun id hlt => (hcounterparts id _).mpr ⟨hlt, rfl⟩
  obtain ⟨r, t, index, V₀, V, hresolve, run⟩ := resolveUsages_ok hg.wellFormed
  obtain ⟨r', t', index', V₀', V', hresolve', run'⟩ := resolveUsages_ok hg'.wellFormed
  refine ⟨r.graph, r.index, r'.graph, r'.index, hresolve, hresolve',
    fun id hlt => ⟨ρ id, hown id hlt⟩, fun id id' hid => ?_⟩
  obtain ⟨hlt, rfl⟩ := (hcounterparts id id').mp hid
  exact ⟨fun _ _ => Resolver.Run.alike_reference swaps run run' hg hg' hlt hown,
    fun _ _ => Resolver.Run.alike_access swaps run run' hg hg' hlt hown⟩

open Document in
/-- A document with a record. -/
def itemDocument : String × Document :=
  ("a.json", { declarations := [.record "Item" "class" [] [.field "size" (some "int") [] none]] })

open Document in
/-- A document with an access on the record. -/
def sizeDocument : String × Document :=
  ("b.json", { declarations := [.function "main" none none false [] (some
      [.expression (.member (.ref "i" (some "Item") false none) "size" none none none)])] })

/-- **An access that does not depend on the order.** Its base keeps the type, which has no supertypes. -/
theorem resolveUsages_swap_item : Graph.Apart itemDocument sizeDocument ∧ ∃ g index g' index',
    (Graph.ofDocuments [itemDocument, sizeDocument]).resolveUsages = .ok (g, index) ∧
      (Graph.ofDocuments [sizeDocument, itemDocument]).resolveUsages = .ok (g', index') ∧
      g.payload? 10 = some (.memberAccess 1 (some 3)) ∧
      g'.payload? 5 = some (.memberAccess 7 (some 9)) ∧
      Graph.Alike (Graph.ofDocuments [itemDocument, sizeDocument])
        (Graph.ofDocuments [sizeDocument, itemDocument]) g g' (some 3) (some 9) := by
  have hapart : Graph.Apart itemDocument sizeDocument := by decide +kernel
  obtain ⟨g, index, g', index', hresolve, hresolve', -, hswap⟩ :=
    Graph.resolveUsages_swap itemDocument sizeDocument hapart
  have hbuilt : (Graph.ofDocuments [itemDocument, sizeDocument]).payload? 10 =
        some (.memberAccess 8 (some 9)) ∧
      ((Graph.ofDocuments [itemDocument, sizeDocument]).typeOf 8).type = .parse "Item" := by
    decide +kernel
  have hbuilt' : (Graph.ofDocuments [sizeDocument, itemDocument]).payload? 5 =
        some (.memberAccess 3 (some 4)) ∧
      ((Graph.ofDocuments [sizeDocument, itemDocument]).typeOf 3).type = .parse "Item" := by
    decide +kernel
  have hcounterparts : Graph.Counterparts (Graph.ofDocuments [itemDocument, sizeDocument])
      (Graph.ofDocuments [sizeDocument, itemDocument]) 10 5 := ⟨3, Or.inr (by decide +kernel)⟩
  have heval : ((Graph.ofDocuments [itemDocument, sizeDocument]).resolveUsages.map fun s => decide (
      s.1.payload? 10 = some (.memberAccess 1 (some 3)) ∧ s.2.superTypesOf (.parse "Item") = [] ∧
        s.2.record? (.parse "Item") = some 2 ∧ s.1.spells .record (.parse "Item") 2 = true ∧
          (s.1.belief? 1).all (fun b => b.observed.types.all (· == .parse "Item")) = true)) = .ok true := by
    decide +kernel
  have heval' : ((Graph.ofDocuments [sizeDocument, itemDocument]).resolveUsages.map fun s => decide (
      s.1.payload? 5 = some (.memberAccess 7 (some 9)) ∧ s.2.superTypesOf (.parse "Item") = [] ∧
        s.2.record? (.parse "Item") = some 8 ∧ s.1.spells .record (.parse "Item") 8 = true ∧
          (s.1.belief? 7).all (fun b => b.observed.types.all (· == .parse "Item")) = true)) = .ok true := by
    decide +kernel
  rw [hresolve] at heval
  rw [hresolve'] at heval'
  simp only [Except.map, Except.ok.injEq, decide_eq_true_eq] at heval heval'
  obtain ⟨hpayload, hsupers, hkept⟩ := heval
  obtain ⟨hpayload', hsupers', hkept'⟩ := heval'
  obtain ⟨base', member', haccess, halike⟩ := (hswap 10 5 hcounterparts).access 1 (some 3) hpayload
  obtain ⟨rfl, rfl⟩ := Payload.memberAccess.inj (Option.some.inj (hpayload'.symm.trans haccess))
  refine ⟨hapart, g, index, g', index', hresolve, hresolve', hpayload, hpayload', ?_⟩
  refine (halike.members (.of_record hbuilt hkept) (.of_record hbuilt' hkept')).resolve_right ?_
  rintro (hastray | hastray)
  · exact Graph.not_astray_of_superTypesOf hbuilt.1 hpayload (by rw [hbuilt.2, hsupers]) hastray
  · exact Graph.not_astray_of_superTypesOf hbuilt'.1 hpayload' (by rw [hbuilt'.2, hsupers']) hastray

open Document in
/-- A document with some records, and with usages of their members. -/
def declaringDocument : String × Document :=
  ("a.json", { declarations :=
    [.var "w" (some "int") none,
     .record "Near" "class" [] [.function "outer" none none false [] (some
        [.expression (.ref "w" none false none)])],
     .record "Far" "class" [] [.field "x" (some "int") [] none],
     .record "Both" "class" ["Near", "Far"] [.function "inherited" none none false [] (some
        [.expression (.ref "x" none false none)])],
     .record "Point" "class" [] [.field "y" (some "int") [] none],
     .record "Cell" "class" [] [.field "z" (some "int") [] none],
     .function "main" none none false [] (some
        [.expression (.member (.ref "r" (some "Both") false none) "x" none none none),
         .expression (.member (.ref "q" (some "Point") false none) "y" none none none),
         .expression (.member (.ref "c" (some "Cell*") false none) "z" none none none)])] })

open Document in
/-- A document that has accesses on these records, some of them for members that are not declared. -/
def askingDocument : String × Document :=
  ("b.json", { declarations :=
    [.function "other" none none false [] (some
        [.expression (.member (.ref "s" (some "Near") false none) "x" none none none),
         .expression (.member (.ref "s" (some "Near") false none) "w" none none none),
         .expression (.member (.ref "q" (some "Point") false none) "this" (some "Foo") none none),
         .expression (.member (.ref "c" (some "Cell*") false none) "z" none none none)])] })

/-- The records come first. -/
abbrev declaredFirst : Graph := Graph.ofDocuments [declaringDocument, askingDocument]

/-- The accesses come first. -/
abbrev askedFirst : Graph := Graph.ofDocuments [askingDocument, declaringDocument]

/-- **Usages that depend on the order.** If the records come first, these usages mean written declarations,
and otherwise made-up ones. The two references find a field that was made up for an access in the other
document: one of the record around the reference, and one of a supertype of it. So does the first access.
The second access is resolved before another type is observed on its base, or afterwards. For the third
one, the order decides whether it is the access for which a record of its pointer type is made up. -/
theorem resolveUsages_swap_early : Graph.Apart declaringDocument askingDocument ∧
    ∃ g index g' index', declaredFirst.resolveUsages = .ok (g, index) ∧
      askedFirst.resolveUsages = .ok (g', index') ∧
      (∀ pair ∈ [(6, 21), (16, 31), (30, 45), (33, 48), (51, 14)],
        Graph.Counterparts declaredFirst askedFirst pair.1 pair.2) ∧
      (g.payload? 6 = some (.reference (some 1) false) ∧
        g'.payload? 21 = some (.reference (some 53) false)) ∧
      (g.payload? 16 = some (.reference (some 10) false) ∧
        g'.payload? 31 = some (.reference (some 52) false)) ∧
      (g.payload? 30 = some (.memberAccess 12 (some 10)) ∧
        g'.payload? 45 = some (.memberAccess 27 (some 52))) ∧
      (g.payload? 33 = some (.memberAccess 18 (some 20)) ∧
        g'.payload? 48 = some (.memberAccess 33 (some 61))) ∧
      (g.payload? 51 = some (.memberAccess 53 (some 24)) ∧
        g'.payload? 14 = some (.memberAccess 57 (some 58))) ∧
      (∀ d ∈ [1, 10, 20, 24], g.IsWritten d) ∧ ∀ d ∈ [52, 53, 58, 61], g'.IsMadeUp d := by
  obtain ⟨r, _, _, _, _, hresolve, -⟩ := Graph.resolveUsages_ok
    (Graph.sprouting_ofDocuments [declaringDocument, askingDocument]).wellFormed
  obtain ⟨r', _, _, _, _, hresolve', -⟩ := Graph.resolveUsages_ok
    (Graph.sprouting_ofDocuments [askingDocument, declaringDocument]).wellFormed
  have hpositions : ∀ pair ∈ [(6, 21), (16, 31), (30, 45), (33, 48), (51, 14)],
      ∃ position ∈ [6, 16, 28, 31, 12],
        declaredFirst.nodeAt? 0 position = some pair.1 ∧ askedFirst.nodeAt? 1 position = some pair.2 ∨
          declaredFirst.nodeAt? 1 position = some pair.1 ∧ askedFirst.nodeAt? 0 position = some pair.2 := by
    decide +kernel
  have heval : (declaredFirst.resolveUsages.map fun s => decide (
      s.1.payload? 6 = some (.reference (some 1) false) ∧ s.1.payload? 16 = some (.reference (some 10) false) ∧
        s.1.payload? 30 = some (.memberAccess 12 (some 10)) ∧
          s.1.payload? 33 = some (.memberAccess 18 (some 20)) ∧
            s.1.payload? 51 = some (.memberAccess 53 (some 24)) ∧
              [1, 10, 20, 24].all fun d => (s.1.node? d).map Node.dummy == some false)) = .ok true := by
    decide +kernel
  have heval' : (askedFirst.resolveUsages.map fun s => decide (
      s.1.payload? 21 = some (.reference (some 53) false) ∧ s.1.payload? 31 = some (.reference (some 52) false) ∧
        s.1.payload? 45 = some (.memberAccess 27 (some 52)) ∧
          s.1.payload? 48 = some (.memberAccess 33 (some 61)) ∧
            s.1.payload? 14 = some (.memberAccess 57 (some 58)) ∧
              [52, 53, 58, 61].all fun d => (s.1.node? d).map Node.dummy == some true)) = .ok true := by
    decide +kernel
  rw [hresolve] at heval
  rw [hresolve'] at heval'
  simp only [Except.map, Except.ok.injEq, decide_eq_true_eq] at heval heval'
  obtain ⟨hlexical, hinherited, hovertaken, hrefined, hpointer, hwritten⟩ := heval
  obtain ⟨hlexical', hinherited', hovertaken', hrefined', hpointer', hmade⟩ := heval'
  refine ⟨by decide +kernel, r.graph, r.index, r'.graph, r'.index, hresolve, hresolve',
    fun pair hpair => ?_, ⟨hlexical, hlexical'⟩, ⟨hinherited, hinherited'⟩, ⟨hovertaken, hovertaken'⟩,
    ⟨hrefined, hrefined'⟩, ⟨hpointer, hpointer'⟩,
    fun d hd => Option.map_eq_some_iff.mp (beq_iff_eq.mp (List.all_eq_true.mp hwritten d hd)),
    fun d hd => Option.map_eq_some_iff.mp (beq_iff_eq.mp (List.all_eq_true.mp hmade d hd))⟩
  obtain ⟨position, -, h⟩ := hpositions pair hpair
  exact ⟨position, h⟩

end ProgramGraph
