import ProgramGraph.Graph.Link
import ProgramGraph.Graph.Statistics
import ProgramGraph.Pipeline
import ProgramGraph.Proofs.Resolution.Links
import ProgramGraph.Proofs.Resolution.Tallies
import ProgramGraph.Proofs.Sessions.Retention

set_option autoImplicit false

/-!
# The accounts of a resolution

What a resolution counts is told in four ways: by its counters and the report on them, by the size of
the graph before and after, by the statistics of the graph, and by its links. They agree. The statistics
and the links are read off all nodes, also off the references that member accesses gave up; but those
were never pointed anywhere, so they are counted as nothing.

## Main definitions

* `ProgramGraph.Graph.tally` — how many usages of a graph are resolved in some way.
* `ProgramGraph.Graph.MakesUp` — what a graph has more is what is counted as made up.
* `ProgramGraph.Graph.Agrees` — statistics, links, references and types agree with counters.

## Main results

* `ProgramGraph.Graph.MembersMeant.statistics_eq`, `ProgramGraph.Graph.MembersMeant.exists_links` — the
  statistics and the links count usages by what they are resolved to.
* `ProgramGraph.Graph.Settled.exists_tagged` — the nodes of a kind in the syntax trees.
* `ProgramGraph.Graph.accounts_agree` — the accounts agree.
-/

namespace ProgramGraph

/-! ## Counting -/

/-- Counting what is one thing or another. -/
theorem countP_add_countP {α : Type} {l : List α} {p q either : α → Bool}
    (h : ∀ a ∈ l, either a = (p a || q a) ∧ (p a && q a) = false) :
    l.countP p + l.countP q = l.countP either := by
  induction l with
  | nil => rfl
  | cons a l ih =>
    obtain ⟨heither, hnot⟩ := h a (List.mem_cons_self ..)
    have hrest := ih fun b hb => h b (List.mem_cons_of_mem _ hb)
    rw [List.countP_cons, List.countP_cons, List.countP_cons, heither, ← hrest]
    cases hp : p a <;> cases hq : q a <;> simp [hp, hq] at hnot ⊢ <;> omega

/-- Lists in which nothing stands twice have equally many elements of a sort, if they have the same. -/
theorem countP_eq_of_nodup {α : Type} {l l' : List α} {p : α → Bool} (h : l.Nodup) (h' : l'.Nodup)
    (hmem : ∀ a, p a = true → (a ∈ l ↔ a ∈ l')) : l.countP p = l'.countP p := by
  rw [List.countP_eq_length_filter, List.countP_eq_length_filter]
  refine ((List.perm_ext_iff_of_nodup (h.filter _) (h'.filter _)).mpr fun a => ?_).length_eq
  rw [List.mem_filter, List.mem_filter]
  exact and_congr_left (hmem a)

/-- Counting in lists of which each has one element of a sort, or none. -/
theorem countP_flatten {α β : Type} {l : List α} {lists : List (List β)} {p : β → Bool} {q : α → Bool}
    (h : List.Forall₂ (fun a bs => bs.countP p = if q a = true then 1 else 0) l lists) :
    lists.flatten.countP p = l.countP q := by
  induction h with
  | nil => rfl
  | cons hfirst _ ih =>
    rw [List.flatten_cons, List.countP_append, List.countP_cons, hfirst, ih, Nat.add_comm]

namespace Graph

variable {g g' : Graph} {id : NodeId} {tag : Tag}

/-- Counting nodes is counting their numbers. -/
theorem countP_nodes (g : Graph) (q : Node → Bool) :
    g.nodes.toList.countP q = g.ids.countP fun id => (g.node? id).any q := by
  have hcount := congrArg (List.countP (Option.any q)) g.map_node?_ids
  rw [List.countP_map, List.countP_map] at hcount
  exact hcount.symm

/-! ## Statistics -/

/-- The members of all accesses are declarations. -/
def MembersMeant (g : Graph) : Prop :=
  ∀ id base member, g.payload? id = some (.memberAccess base (some member)) →
    ∃ tag, g.tag? member = some tag ∧ tag.isValueDeclaration = true ∧ tag.isExpression = false

/-- How many usages of a graph are resolved in some way. -/
def tally (g : Graph) (v : Verdict) : Nat := g.ids.countP fun id => g.verdict? id = some v

/-- The same, read off the nodes. -/
theorem countP_verdict? (g : Graph) (v : Verdict) :
    (g.nodes.toList.countP fun node => node.payload.verdict? = some v) = g.tally v := by
  rw [countP_nodes, tally]
  refine List.countP_congr fun id _ => ?_
  cases hnode : g.node? id <;> simp [verdict?, payload?, hnode]

/-- Whether the member of an access is resolved. -/
theorem MembersMeant.isResolvedMember_eq (h : g.MembersMeant) {node : Node} (hnode : g.node? id = some node) :
    g.isResolvedMember node = .ok (decide (node.payload.verdict? = some (.member true))) := by
  have hpayload := payload?_eq hnode
  unfold isResolvedMember
  cases hkind : node.payload with
  | memberAccess base member =>
    rw [hkind] at hpayload
    cases member with
    | none => rfl
    | some member =>
      obtain ⟨tag, htag, hvalue, -⟩ := h id base member hpayload
      obtain ⟨found, hfound, rfl⟩ := exists_node_of_tag? htag
      simp only [isValueDeclaration, node_eq_ok.mpr hfound, bind, Except.bind, hvalue]
      rfl
  | _ => rfl

/-- **The statistics** count usages by what they are resolved to.

**Proof sketch.** Whether a member is resolved can be read off the payload of its access, as a member that is
meant is there. So all three numbers count nodes by their payloads, and thus by their numbers. -/
theorem MembersMeant.statistics_eq (h : g.MembersMeant) : ∃ s, g.statistics = .ok s ∧
    s.resolvedReferences = g.tally (.reference true) ∧ s.resolvedMembers = g.tally (.member true) ∧
      s.memberAccesses = g.ids.countP fun id => g.tag? id = some .memberAccess := by
  have hresolved : g.nodes.toList.mapM g.isResolvedMember =
      .ok (g.nodes.toList.map fun node => decide (node.payload.verdict? = some (.member true))) := by
    refine mapM_eq_ok fun node hmem => ?_
    obtain ⟨id, hnode⟩ := mem_nodes_iff.mp hmem
    exact h.isResolvedMember_eq hnode
  refine ⟨_, by rw [statistics, hresolved]; rfl, ?_, ?_, ?_⟩
  · rw [← countP_verdict?]
    refine List.countP_congr fun node _ => ?_
    unfold Node.isResolvedReference
    cases node.payload with
    | reference target isStatic => cases target <;> simp [Payload.verdict?]
    | _ => simp [Payload.verdict?]
  · rw [← countP_verdict?, List.count, List.countP_map]
    refine List.countP_congr fun node _ => ?_
    simp
  · refine (g.countP_nodes _).trans (List.countP_congr fun id _ => ?_)
    cases hnode : g.node? id <;> simp [tag?, hnode]

/-! ## Links -/

/-- A link to a node says what it is for. -/
theorem exists_link {target : NodeId} (htarget : target < g.size) (source : NodeId) (usage : Node)
    (kind : LinkKind) : ∃ link, g.link source usage kind target = .ok link ∧ link.kind = kind := by
  obtain ⟨node, hnode⟩ := exists_node htarget
  exact ⟨_, by rw [link, node_eq_ok.mpr hnode]; rfl, rfl⟩

/-- A slot of an access gives a link of its sort, unless an expression stands there. -/
theorem exists_slotLink {slot : NodeId} {tag : Tag} (htag : g.tag? slot = some tag) (source : NodeId)
    (usage : Node) (kind : LinkKind) : ∃ links, g.slotLink source usage kind slot = .ok links ∧
      ∀ sort, (links.countP fun link => link.kind = sort) =
        if tag.isExpression = false ∧ kind = sort then 1 else 0 := by
  obtain ⟨node, hnode, rfl⟩ := exists_node_of_tag? htag
  obtain ⟨link, hlink, hkind⟩ := exists_link (lt_size hnode) source usage kind
  unfold slotLink
  rw [node_eq_ok.mpr hnode]
  cases hexpression : node.tag.isExpression with
  | true => exact ⟨[], by simp only [bind, Except.bind, hexpression]; rfl, fun sort => by simp⟩
  | false =>
    refine ⟨[link], by simp only [bind, Except.bind, hexpression, hlink]; rfl, fun sort => ?_⟩
    simp [hkind]

/-- The links of a usage by their sorts: a reference has one if it means something, and an access has one
to its member if that is resolved.

**Proof sketch.** By the kind of the usage. Only references and accesses have links; the link to the base
never counts, and the one to a member does if it is a declaration. -/
theorem MembersMeant.exists_linksOf (h : g.MembersMeant) (typed : g.WellTyped) (hid : id < g.size) :
    ∃ links, g.linksOf id = .ok links ∧
      (links.countP fun link => link.kind = .refersTo) =
          (if g.verdict? id = some (.reference true) then 1 else 0) ∧
        (links.countP fun link => link.kind = .member) =
          (if g.verdict? id = some (.member true) then 1 else 0) := by
  obtain ⟨node, hnode⟩ := exists_node hid
  have hpayload := payload?_eq hnode
  have hfits := typed.nodes id node hnode
  rw [verdict?, hpayload, linksOf, node_eq_ok.mpr hnode]
  cases hkind : node.payload with
  | reference target isStatic =>
    cases target with
    | none => exact ⟨[], by simp only [bind, Except.bind, hkind]; rfl, rfl, rfl⟩
    | some target =>
      rw [hkind] at hfits
      obtain ⟨link, hlink, hsort⟩ := exists_link ((hfits target rfl).1.lt_size (List.mem_singleton.mpr rfl))
        id node .refersTo
      refine ⟨[link], by simp only [bind, Except.bind, hkind, hlink]; rfl, ?_, ?_⟩ <;>
        simp [hsort, Payload.verdict?]
  | memberAccess base member =>
    rw [hkind] at hfits hpayload
    obtain ⟨tag, htag, -⟩ := hfits.1 base (List.mem_singleton.mpr rfl)
    obtain ⟨bases, hbases, hbase⟩ := exists_slotLink htag id node .base
    cases member with
    | none =>
      refine ⟨bases, by simp only [bind, Except.bind, hkind, hbases], ?_, ?_⟩ <;>
        simp [hbase, Payload.verdict?]
    | some member =>
      obtain ⟨kind, hmember, -, hdeclaration⟩ := h id base member hpayload
      obtain ⟨members, hmembers, hslot⟩ := exists_slotLink hmember id node .member
      refine ⟨bases ++ members, by simp only [bind, Except.bind, hkind, hbases, hmembers]; rfl, ?_, ?_⟩ <;>
        simp [List.countP_append, hbase, hslot, hdeclaration, Payload.verdict?]
  | _ => exact ⟨[], by simp only [bind, Except.bind, hkind]; rfl, rfl, rfl⟩

/-- **The links** are as many as usages are resolved. -/
theorem MembersMeant.exists_links (h : g.MembersMeant) (typed : g.WellTyped) : ∃ links, g.links = .ok links ∧
    (links.countP fun link => link.kind = .refersTo) = g.tally (.reference true) ∧
      (links.countP fun link => link.kind = .member) = g.tally (.member true) := by
  obtain ⟨lists, hlists, hall⟩ := exists_mapM_eq_ok (l := g.ids) fun id hid =>
    h.exists_linksOf typed (List.mem_range.mp hid)
  refine ⟨lists.flatten, by rw [links, hlists]; rfl, ?_, ?_⟩
  · exact countP_flatten (hall.imp fun _ _ hlinks => by simpa using hlinks.1)
  · exact countP_flatten (hall.imp fun _ _ hlinks => by simpa using hlinks.2)

/-! ## Usages -/

/-- Usages of a kind are resolved or not. -/
theorem countP_tag (g : Graph) (l : List NodeId) (made : Bool → Verdict) (hmade : made true ≠ made false)
    (hkind : ∀ payload : Payload, payload.tag = tag ↔ ∃ resolved, payload.verdict? = some (made resolved)) :
    (l.countP fun id => g.verdict? id = some (made true)) +
        (l.countP fun id => g.verdict? id = some (made false)) =
      l.countP fun id => g.tag? id = some tag := by
  refine countP_add_countP fun id _ => ?_
  have hiff : g.tag? id = some tag ↔
      g.verdict? id = some (made true) ∨ g.verdict? id = some (made false) := by
    cases hnode : g.node? id with
    | none => simp [tag?, verdict?, payload?, hnode]
    | some node =>
      rw [tag?_eq hnode, verdict?, payload?_eq hnode, Option.bind_some, Option.some.injEq, Node.tag,
        hkind, Bool.exists_bool, or_comm]
  refine ⟨by simp [hiff], ?_⟩
  cases g.verdict? id with
  | none => rfl
  | some v =>
    by_cases hv : v = made true
    · simp [hv, hmade]
    · simp [hv]

/-- A graph in which nothing is resolved has nothing that is left aside. -/
theorem Sprouting.settled (h : g.Sprouting []) : g.Settled fun _ => False :=
  ⟨h.wellFormed, fun _ hid => Or.inl (h.stands hid), fun _ haside => haside.elim,
    fun _ haside => haside.elim⟩

/-- **The nodes of a kind** in the syntax trees of all units are listed, each of them once.

**Proof sketch.** The lists of all units together are the preorder of the units, filtered by the kind. This is
the order in which the graph is indexed, which visits everything that stands somewhere, once. -/
theorem Settled.exists_tagged {D : NodeId → Prop} (h : g.Settled D) (tag : Tag) :
    ∃ lists, (g.units.mapM fun unit => g.subnodesTagged unit tag) = .ok lists ∧ lists.flatten.Nodup ∧
      ∀ id, id ∈ lists.flatten ↔ g.tag? id = some tag ∧ ∃ p, g.Stands p id := by
  have wf := h.wellFormed
  let ofKind := fun sub : NodeId => (g.node? sub).any fun node => node.tag == tag
  have hread : ∀ unit ∈ g.units, ∃ tagged, g.subnodesTagged unit tag = .ok tagged ∧
      ∃ all, Preorder g.parts [unit] all ∧ tagged = all.filter ofKind := by
    intro unit hunit
    obtain ⟨all, hall, hpreorder⟩ := wf.exists_subnodes h.acyclic
      (wf.tree.root_lt unit (List.mem_append_left _ hunit))
    exact ⟨_, by rw [subnodesTagged, hall]; rfl, all, hpreorder, rfl⟩
  have hjoin : ∀ {units : List NodeId} {lists : List (List NodeId)},
      List.Forall₂ (fun unit tagged => ∃ all, Preorder g.parts [unit] all ∧ tagged = all.filter ofKind)
        units lists → ∃ all, Preorder g.parts units all ∧ lists.flatten = all.filter ofKind := by
    intro units lists hall
    induction hall with
    | nil => exact ⟨[], .nil, rfl⟩
    | cons hfirst _ ih =>
      obtain ⟨all, hpreorder, rfl⟩ := hfirst
      obtain ⟨rest, hrest, hflatten⟩ := ih
      exact ⟨all ++ rest, hpreorder.append hrest, by rw [List.flatten_cons, hflatten, List.filter_append]⟩
  obtain ⟨lists, hlists, hall⟩ := exists_mapM_eq_ok hread
  obtain ⟨visited, hpreorder, hflatten⟩ := hjoin hall
  -- indexing visits the same nodes
  obtain ⟨_, _, indexed, -, hindexed⟩ := Index.build_ok wf
  obtain rfl := hpreorder.unique hindexed.preorder
  refine ⟨lists, hlists, hflatten ▸ hindexed.nodup.filter _, fun id => ?_⟩
  rw [hflatten, List.mem_filter]
  have hkind : ofKind id = true ↔ g.tag? id = some tag := by
    simp only [ofKind, tag?]
    cases g.node? id <;> simp
  rw [hkind, and_comm]
  refine and_congr_right fun _ => ⟨hindexed.placed id, ?_⟩
  rintro ⟨p, hp⟩
  exact hindexed.complete p id hp

end Graph

/-! ## Runs -/

namespace Resolver.Run

variable {g : Graph} {t₀ : ScopeTable} {index : Index} {V₀ V : List NodeId} {r : Resolver} {v : Verdict}

/-- The usages of the visited nodes are counted. -/
theorem tally (run : Run g t₀ index V₀ V r) (hg : g.Sprouting []) (v : Verdict) :
    r.index.counters.tally v = V.countP fun id => r.graph.verdict? id = some v :=
  run.runs.tally run.start hg.raw (run.indexed.tally_eq_zero v)

/-- **Usages are counted as what they are.** References that accesses gave up mean nothing. -/
theorem tally_eq (run : Run g t₀ index V₀ V r) (hg : g.Sprouting []) (hv : v ≠ .reference false) :
    r.index.counters.tally v = r.graph.tally v := by
  rw [run.tally hg, Graph.tally]
  refine countP_eq_of_nodup run.runs.nodup List.nodup_range fun id hid => ⟨fun hmem => ?_, fun _ => ?_⟩
  · exact List.mem_range.mpr (run.runs.lt_size run.start id hmem)
  · obtain ⟨payload, hpayload, hverdict⟩ := Option.bind_eq_some_iff.mp (of_decide_eq_true hid)
    refine run.mem_of_linked hg hpayload ?_
    cases payload with
    | reference target isStatic =>
      cases target with
      | none => exact absurd (Option.some.inj hverdict).symm hv
      | some d => exact Or.inr ⟨d, isStatic, rfl⟩
    | memberAccess _ _ => exact Or.inl rfl
    | _ => cases hverdict

/-- **The references** that are counted are those in the syntax trees.

**Proof sketch.** Every visit of a reference counts it as resolved or as unresolved. The visits are without
repetition, and so are the lists of references in the syntax trees; and a reference was visited if and only if
it stands somewhere. -/
theorem exists_references (run : Run g t₀ index V₀ V r) (hg : g.Sprouting []) :
    ∃ lists, (r.graph.units.mapM fun unit => r.graph.subnodesTagged unit .reference) = .ok lists ∧
      r.index.counters.referencesResolved + r.index.counters.referencesUnresolved =
        lists.flatten.length := by
  have hstep := (run.runs.reaches run.start).2
  have hsettled := hg.settled.resolves run.sound.wellFormed hstep.graph hstep.hung
  obtain ⟨lists, hlists, hnodup, hmem⟩ := hsettled.exists_tagged .reference
  refine ⟨lists, hlists, ?_⟩
  have hcounted : r.index.counters.referencesResolved + r.index.counters.referencesUnresolved =
      V.countP fun id => r.graph.tag? id = some .reference := by
    rw [← r.graph.countP_tag V .reference (by simp)
      fun payload => by cases payload <;> simp [Payload.tag, Payload.verdict?],
      ← run.tally hg, ← run.tally hg]
    rfl
  have hlisted : (lists.flatten.countP fun id => r.graph.tag? id = some .reference) = lists.flatten.length :=
    List.countP_eq_length.mpr fun id hid => decide_eq_true ((hmem id).mp hid).1
  rw [hcounted, ← hlisted]
  refine countP_eq_of_nodup run.runs.nodup hnodup fun id hid => ?_
  have htag := of_decide_eq_true hid
  obtain ⟨node, hnode, hkind⟩ := Graph.exists_node_of_tag? htag
  rw [hmem]
  refine ⟨fun hvisited => ⟨htag, run.placed id hvisited⟩, ?_⟩
  rintro ⟨-, p, hp⟩
  exact run.complete p id hp (run.lt_size (Graph.payload?_eq hnode) (Or.inl hkind))

/-- The members of accesses are constants and fields. -/
theorem membersMeant (run : Run g t₀ index V₀ V r) (hg : g.Sprouting []) : r.graph.MembersMeant := by
  intro id base member hpayload
  have hright := run.rightMember (run.mem_of_linked hg hpayload (Or.inl rfl)) hpayload
  by_cases henum : r.graph.tag? base = some .enum
  · exact ⟨.enumConstant, (hright.constant henum).1, rfl, rfl⟩
  · exact ⟨.field, hright.field henum, rfl, rfl⟩

end Resolver.Run

/-! ## Accounts -/

/-- The report says what was counted. -/
theorem metric?_resolverReport (c : Counters) :
    ∀ row ∈ c.rows, (Pass.resolverReport c).metric? row.1 = some row.2 := by
  simp only [Counters.rows, List.forall_mem_cons, List.not_mem_nil, false_implies, implies_true, and_true]
  exact ⟨rfl, rfl, rfl, rfl, rfl, rfl, rfl, rfl⟩

namespace Graph

/-- **What is made up.** -/
structure MakesUp (g g' : Graph) (c : Counters) : Prop where
  /-- A node for each dummy field, two for each dummy record, and the unit for them if it was made. -/
  size : g'.size = g.size + c.dummyFields + 2 * c.dummyRecords +
    if g.placeholderUnit? = none ∧ g'.placeholderUnit?.isSome then 1 else 0
  /-- All new nodes are dummies. -/
  dummy : ∀ id node, g.size ≤ id → g'.node? id = some node → node.dummy = true

/-- **What is reported** when a pass resolves the usages of a graph. -/
def Reports (g g' : Graph) (c : Counters) : Prop :=
  ∀ (ω : Type) (w : ω), ∃ report, Pass.resolver.accept g w = .ok (g', w, .ok report) ∧
    ∀ row ∈ c.rows, report.metric? row.1 = some row.2

/-- **What is counted** when the usages of a graph are resolved for the first time. -/
structure Agrees (g g' : Graph) (c : Counters) : Prop where
  /-- The references are those in the syntax trees of the units. -/
  references : ∃ lists, (g'.units.mapM fun unit => g'.subnodesTagged unit .reference) = .ok lists ∧
    c.referencesResolved + c.referencesUnresolved = lists.flatten.length
  /-- The statistics count the same. -/
  statistics : ∃ s, g'.statistics = .ok s ∧ s.resolvedReferences = c.referencesResolved ∧
    s.resolvedMembers = c.membersResolved ∧ s.memberAccesses = c.membersResolved + c.membersUnresolved
  /-- There are as many links. -/
  links : ∃ links, g'.links = .ok links ∧
    (links.countP fun link => link.kind = .refersTo) = c.referencesResolved ∧
      (links.countP fun link => link.kind = .member) = c.membersResolved
  /-- The indexed types are those that are declared. -/
  types : c.recordsIndexed = (g.typesOf .record).ncard ∧ c.enumsIndexed = (g.typesOf .enum).ncard

end Graph

namespace Resolver.Run

variable {g : Graph} {t₀ : ScopeTable} {index : Index} {V₀ V : List NodeId} {r : Resolver}

/-- **Every run** makes up what it counts. -/
theorem makesUp (run : Run g t₀ index V₀ V r) : g.MakesUp r.graph r.index.counters where
  size := by
    obtain ⟨vs, hdoes⟩ := run.runs.does
    have hsize := hdoes.size
    rw [run.indexed.madeUp_eq_zero] at hsize
    simp only [Counters.madeUp] at hsize
    obtain ⟨hretains, -⟩ := run.anchored.does (Nat.le_refl _) hdoes
    rcases hretains.units with ⟨hunits, hsame⟩ | ⟨unit, hnone, hmade, -, hunits⟩
    · have hnot : ¬ (g.placeholderUnit? = none ∧ r.graph.placeholderUnit?.isSome = true) := by
        rintro ⟨hnone, hsome⟩
        rw [hsame, hnone] at hsome
        cases hsome
      rw [if_neg hnot]
      rw [hunits] at hsize
      simp only at hsize
      omega
    · rw [if_pos ⟨hnone, by rw [hmade]; rfl⟩]
      rw [hunits, List.length_append, List.length_singleton] at hsize
      simp only at hsize
      omega
  dummy id node hid hnode := ((run.runs.reaches run.start).2.graph.fresh id node hid hnode).1

/-- **A first run** counts what the graph shows.

**Proof sketch.** The counters of a first run are the tallies of what its visits leave. The statistics and the
links count the same usages, only that they look at all nodes and not at those that were visited. -/
theorem agrees (run : Run g t₀ index V₀ V r) (hg : g.Sprouting []) : g.Agrees r.graph r.index.counters := by
  have hmeant := run.membersMeant hg
  have hreferences : r.index.counters.referencesResolved = r.graph.tally (.reference true) :=
    run.tally_eq (v := .reference true) hg (by simp)
  have hresolved : r.index.counters.membersResolved = r.graph.tally (.member true) :=
    run.tally_eq (v := .member true) hg (by simp)
  have hunresolved : r.index.counters.membersUnresolved = r.graph.tally (.member false) :=
    run.tally_eq (v := .member false) hg (by simp)
  obtain ⟨s, hs, hsreferences, hsmembers, hsaccesses⟩ := hmeant.statistics_eq
  obtain ⟨links, hlinks, hlreferences, hlmembers⟩ := hmeant.exists_links run.sound.wellFormed.typed
  refine ⟨run.exists_references hg, ⟨s, hs, ?_, ?_, ?_⟩, ⟨links, hlinks, ?_, ?_⟩, ?_⟩
  · rw [hsreferences, hreferences]
  · rw [hsmembers, hresolved]
  · rw [hsaccesses, hresolved, hunresolved, Graph.tally, Graph.tally]
    exact (r.graph.countP_tag r.graph.ids .member (by simp)
      fun payload => by cases payload <;> simp [Payload.tag, Payload.verdict?]).symm
  · rw [hlreferences, hreferences]
  · rw [hlmembers, hresolved]
  · obtain ⟨vs, hdoes⟩ := run.runs.does
    obtain ⟨hrecords, henums⟩ := hdoes.indexed
    rw [hrecords, henums]
    exact run.indexed.counted fun _ hid => hg.stands hid

end Resolver.Run

namespace Graph

/-- **The accounts agree.** Every resolution in a session makes up what it counts and reports what it
counts. Whatever documents a graph is built from, its first resolution counts what the graph shows.

**Proof sketch.** A run is a list of writes and of usages that are counted (`Does`), and by induction on it
the size of the graph grows with the counters. The unit for made-up declarations is the one node that no
counter covers. In a graph of documents everything stands somewhere and nothing is linked, so each reference
and each access is visited once, and what was counted for it is what the graph shows of it. -/
theorem accounts_agree :
    (∀ session : List Operation, ∃ g g' index, after session = .ok g ∧ g.resolveUsages = .ok (g', index) ∧
      g.MakesUp g' index.counters ∧ g.Reports g' index.counters) ∧
    ∀ documents : List (String × Document), ∃ g index,
      (ofDocuments documents).resolveUsages = .ok (g, index) ∧
        (ofDocuments documents).Agrees g index.counters := by
  refine ⟨fun session => ?_, fun documents => ?_⟩
  · obtain ⟨g, hafter, hg⟩ := exists_settled_after session
    obtain ⟨r, t₀, index, V₀, V, hresolve, run⟩ := resolveUsages_ok hg.wellFormed
    refine ⟨g, r.graph, r.index, hafter, hresolve, run.makesUp, fun ω w => ?_⟩
    refine ⟨Pass.resolverReport r.index.counters, ?_, metric?_resolverReport _⟩
    simp only [Pass.resolver, hresolve]
    rfl
  · have hg := sprouting_ofDocuments documents
    obtain ⟨r, t₀, index, V₀, V, hresolve, run⟩ := resolveUsages_ok hg.wellFormed
    exact ⟨r.graph, r.index, hresolve, run.agrees hg⟩

end Graph

end ProgramGraph
