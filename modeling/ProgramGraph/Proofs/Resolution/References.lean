import ProgramGraph.Proofs.Resolution.Usages

set_option autoImplicit false

/-!
# Resolving references

A reference is pointed at the first declaration of its name that is visible, or at the field of the
record around it, or at nothing. None of it fails.

## Main definitions

* `ProgramGraph.ScopeTable.seen` — the declarations that can be seen from a visit.
* `ProgramGraph.Resolver.FindsDeclaration` — how the declaration for a name is found.

## Main results

* `ProgramGraph.Resolver.Sound.link` — pointing a reference at a declaration.
* `ProgramGraph.Resolver.Sound.findDeclaration` — the declaration a name means.
* `ProgramGraph.Resolver.Sound.resolveReference` — a reference.
-/

namespace ProgramGraph

/-! ## Writing targets -/

namespace Graph

variable {g : Graph} {n : Nat} {id : NodeId} {old target : Option NodeId} {isStatic : Bool}
  {name : String}

/-- **Pointing a reference** at a declaration of its name, or at nothing. -/
theorem WellFormed.setTarget (wf : g.WellFormed [])
    (hpayload : g.payload? id = some (.reference old isStatic)) (hname : g.name? id = some name)
    (hfits : g.Fits name (.reference target isStatic)) :
    (g.setTarget id target).WellFormed [] ∧ g.Grows n (g.setTarget id target) := by
  obtain ⟨node, hnode, heq⟩ := exists_node_of_payload? hpayload
  obtain rfl := Option.some.inj ((name?_eq hnode).symm.trans hname)
  have hkeeps : g.Keeps (g.setTarget id target) := by
    refine keeps_modifyPayload hnode ?_ fun entries superTypes heq' => ?_
    · rw [heq]
      rfl
    · rw [heq] at heq'
      exact absurd heq' (by simp)
  have hunit : node.tag = .unit → node.dummy = true := by
    rw [Node.tag, heq]
    simp [Payload.tag]
  refine ⟨wf.rewrite hnode hkeeps ?_ ?_, .of_modifyPayload hnode hunit ?_⟩ <;> rw [heq]
  · exact List.Sublist.refl _
  · exact hfits
  · exact .reference _ _ _

/-- What a reference means can be read. -/
theorem target?_eq (hpayload : g.payload? id = some (.reference old isStatic)) :
    g.target? id = .ok old := by
  obtain ⟨node, hnode, heq⟩ := exists_node_of_payload? hpayload
  rw [target?, node_eq_ok.mpr hnode]
  simp only [bind, Except.bind, heq]
  rfl

/-- When a reference is freed, no belief is refined at all. -/
theorem refines_freed {D : NodeId → Prop} (h : g.Confined D) (reference : NodeId)
    (old : Option NodeId) : Refines D g (g.freed reference old) := by
  cases old with
  | none => exact .refl h
  | some previous => exact refines_unsubscribeOwned h previous reference

/-- When a reference begins to follow what it means, no belief is refined but its own and those behind it. -/
theorem refines_following {D : NodeId → Prop} (h : g.Confined D) {reference : NodeId}
    (hreference : D reference) (target : Option NodeId) :
    Refines D g (g.following reference target) := by
  cases target with
  | none => exact .refl h
  | some declaration =>
    have hminted : Refines D g (g.mintListener (.follow reference)).2 :=
      .of_belief? h (fun _ _ hb => hb) fun _ _ hb => Or.inl hb
    refine hminted.trans (refines_subscribe hminted.confined declaration fun other hother => ?_)
    obtain rfl := Reaction.follow.inj hother
    exact hreference

end Graph

/-- The declarations that can be seen from a visit. -/
def ScopeTable.seen (t : ScopeTable) (visit : Visit) : List NodeId :=
  match visit.scope with
  | some scope => t.visible scope
  | none => []

namespace Resolver

variable {r r' : Resolver} {name : String} {n : Nat} {reference : NodeId} {isStatic : Bool}
  {old target : Option NodeId} {t : ScopeTable} {visit : Visit}

/-- How the declaration for a name is found: among those that can be seen, or else, unless the name
is static, as a member of the type that the record around it declares. -/
inductive FindsDeclaration (r : Resolver) (seen : List NodeId) (around : Option Descriptor)
    (name : String) (isStatic : Bool) : Option NodeId → Resolver → Prop where
  /-- A visible declaration. -/
  | lexical {d : NodeId} (hseen : seen.find? (r.graph.isNamed name) = some d) :
    FindsDeclaration r seen around name isStatic (some d) r
  /-- A field of the record around the name. -/
  | member {owner : Descriptor} {field record : NodeId} {r' : Resolver}
    (hseen : seen.find? (r.graph.isNamed name) = none) (htype : around = some owner)
    (hstatic : isStatic = false) (hrecord : r.index.record? owner = some record)
    (hfinds : r.FindsMember owner name field r') :
    FindsDeclaration r seen around name isStatic (some field) r'
  /-- Nothing. -/
  | nothing (hseen : seen.find? (r.graph.isNamed name) = none)
    (hno : ∀ owner, around = some owner → isStatic = true ∨ r.index.record? owner = none) :
    FindsDeclaration r seen around name isStatic none r

namespace Sound

/-- What happens once the visible declarations were searched.

**Proof sketch.** By what was found lexically, by whether there is a record around the reference, and by
whether a member may be looked for. -/
theorem fallBack (h : r.Sound) (hn : n ≤ r.graph.size) (done : List NodeId) (t : ScopeTable)
    (visit : Visit) (name : String) (isStatic : Bool)
    {lexical : Option NodeId} (hlexical : (t.seen visit).find? (r.graph.isNamed name) = lexical) :
    ∃ target r', (match lexical, visit.recordType with
      | none, some owner =>
        if !isStatic && (r.index.record? owner).isSome then do
          let (field, r) ← r.resolveMember owner name (r.graph.typeOf visit.node)
          return (some field, r)
        else return (none, r)
      | _, _ => return (lexical, r) : Except Fault (Option NodeId × Resolver)) = .ok (target, r') ∧
      Reaches n done 4 r r' ∧ r.FindsDeclaration (t.seen visit) visit.recordType name isStatic target r' := by
  have hstay := (Reaches.refl h n done).mono (Nat.zero_le 4)
  cases lexical with
  | some d => exact ⟨some d, r, rfl, hstay, .lexical hlexical⟩
  | none =>
    cases htype : visit.recordType with
    | none =>
      exact ⟨none, r, rfl, hstay, .nothing hlexical fun owner howner => absurd howner (by simp)⟩
    | some owner =>
      simp only
      by_cases hsearch : isStatic = false ∧ (r.index.record? owner).isSome = true
      · obtain ⟨field, r', hresolve, hreaches, hfinds⟩ :=
          h.resolveMember hn done owner name (r.graph.typeOf visit.node)
        obtain ⟨record, hrecord⟩ := Option.isSome_iff_exists.mp hsearch.2
        refine ⟨some field, r', ?_, hreaches, .member hlexical rfl hsearch.1 hrecord hfinds⟩
        rw [if_pos (by simp [hsearch])]
        simp only [bind, Except.bind, hresolve]
        rfl
      · refine ⟨none, r, ?_, hstay, .nothing hlexical fun owner' howner => ?_⟩
        · rw [if_neg (by simpa using hsearch)]
          rfl
        · obtain rfl := Option.some.inj howner
          cases isStatic with
          | true => exact Or.inl rfl
          | false => exact Or.inr (by simpa using hsearch)

/-- **The declaration a name means** is found without fail. -/
theorem findDeclaration (h : r.Sound) (hn : n ≤ r.graph.size) (done : List NodeId) (name : String)
    (isStatic : Bool)
    (hseen : ∀ d ∈ t.seen visit, d < r.graph.size) :
    ∃ target r', r.findDeclaration t visit name isStatic = .ok (target, r') ∧
      Reaches n done 4 r r' ∧ r.FindsDeclaration (t.seen visit) visit.recordType name isStatic target r' := by
  obtain ⟨target, r', hfall, hrest⟩ := h.fallBack hn done t visit name isStatic rfl
  refine ⟨target, r', ?_, hrest⟩
  rw [← hfall]
  unfold Resolver.findDeclaration
  unfold ScopeTable.seen at hseen ⊢
  cases hscope : visit.scope with
  | none => rfl
  | some scope =>
    rw [hscope] at hseen
    have hread : t.lookup r.graph scope name =
        .ok ((t.visible scope).find? (r.graph.isNamed name)) := Graph.firstNamed_eq hseen
    exact congrArg (· >>= _) hread

/-- Pointing a reference reads what it meant before. -/
theorem link_eq (hpayload : r.graph.payload? reference = some (.reference old isStatic)) :
    r.link reference target = .ok { r with
      graph := ((r.graph.freed reference old).setTarget reference target).following reference
        target } := by
  unfold Resolver.link
  rw [Graph.target?_eq hpayload]
  cases old <;> cases target <;> rfl

/-- **Pointing a reference** at a declaration of its name, or at nothing.

**Proof sketch.** The reference is freed, written and subscribed. The first and the last touch only beliefs
and listeners, so the syntax tree changes by the writing alone. -/
theorem link (h : r.Sound) (n : Nat)
    (hpayload : r.graph.payload? reference = some (.reference old isStatic))
    (hname : r.graph.name? reference = some name)
    (htarget : r.graph.Fits name (.reference target isStatic)) :
    ∃ r', r.link reference target = .ok r' ∧ Reaches n [reference] 0 r r' ∧
      r'.graph.payload? reference = some (.reference target isStatic) := by
  have hfreed := r.graph.sameTree_freed reference old
  have hpayload' := (hfreed.payload? reference).trans hpayload
  have hname' := (hfreed.name? reference).trans hname
  have hfollowing := Graph.sameTree_following ((r.graph.freed reference old).setTarget reference target)
    reference target
  obtain ⟨hwf, hgrows⟩ := (hfreed.wellFormed h.wellFormed).setTarget (n := n) hpayload' hname'
    (htarget.keep hfreed.keeps)
  have hwrite : ((r.graph.freed reference old).setTarget reference target).size =
      (r.graph.freed reference old).size := Graph.size_modify ..
  refine ⟨_, link_eq hpayload, ?_, ?_⟩
  · refine h.writeUsage n hpayload (by simp [Payload.tag]) (hfollowing.wellFormed hwf)
      (((Graph.Grows.of_sameTree n hfreed).trans hgrows).trans (.of_sameTree n hfollowing))
      (hfollowing.size.trans (hwrite.trans hfreed.size)) (fun other hother => ?_) (fun D hD => ?_)
      (.point (List.mem_singleton.mpr rfl) hpayload fun d hd => ?_)
    · rw [hfollowing.payload?, Graph.payload?_setTarget_of_ne hother, hfreed.payload?]
    · have hfreed := Graph.refines_freed hD.confined reference old
      have hwritten : Graph.Refines D r.graph ((r.graph.freed reference old).setTarget reference target) :=
        hfreed.trans (Graph.refines_modify hfreed.confined reference fun _ => rfl)
      exact hwritten.trans (Graph.refines_following hwritten.confined
        (hD.done reference (List.mem_singleton.mpr rfl)) target)
    · exact (htarget d (by simpa using hd)).1 d (List.mem_singleton.mpr rfl)
  · rw [hfollowing.payload?]
    exact Graph.payload?_setTarget_self hpayload'

/-- What a name is found to mean fits: it is a value declaration of the name. -/
theorem findsDeclaration_spec (h : r.Sound) (sound' : r'.Sound)
    (hseen : r.graph.All Tag.isValueDeclaration (t.seen visit))
    (hfinds : r.FindsDeclaration (t.seen visit) visit.recordType name isStatic target r') :
    r'.graph.Fits name (.reference target isStatic) := by
  intro d hd
  cases hfinds with
  | lexical hlookup =>
    obtain rfl := Option.some.inj hd
    refine ⟨fun other hother => ?_, Graph.isNamed_iff.mp (List.find?_some hlookup)⟩
    obtain rfl := List.mem_singleton.mp hother
    exact hseen _ (List.mem_of_find?_eq_some hlookup)
  | member _ _ _ _ hfinds =>
    obtain rfl := Option.some.inj hd
    obtain ⟨htag, hname⟩ := h.findsMember_spec sound' hfinds
    exact ⟨.single htag rfl, hname⟩
  | nothing _ _ => exact absurd hd (by simp)

/-- **A reference** is resolved without fail.

**Proof sketch.** A search for the declaration does not fail, and whatever it finds fits the reference.
Counting changes nothing in the graph, and then the link is made. -/
theorem resolveReference (h : r.Sound) (hn : n ≤ r.graph.size) (t : ScopeTable)
    (hpayload : r.graph.payload? visit.node = some (.reference old isStatic))
    (hname : r.graph.name? visit.node = some name)
    (hseen : r.graph.All Tag.isValueDeclaration (t.seen visit)) :
    ∃ target r₁ r', r.resolveReference t visit name isStatic = .ok r' ∧
      Reaches n [] 4 r r₁ ∧ r.FindsDeclaration (t.seen visit) visit.recordType name isStatic target r₁ ∧
      (∃ f, (r₁.count f).link visit.node target = .ok r') ∧ Reaches n [visit.node] 0 r₁ r' ∧
        Reaches n [visit.node] 4 r r' ∧
        r'.graph.payload? visit.node = some (.reference target isStatic) := by
  obtain ⟨target, r₁, hfind, hreaches, hfinds⟩ :=
    h.findDeclaration hn [] name isStatic fun d hd => hseen.lt_size hd
  have hfits := h.findsDeclaration_spec hreaches.sound hseen hfinds
  have hcount : ∀ f, Reaches n [] 4 r (r₁.count f) := fun f => hreaches.count f
  have hpayload₁ : r₁.graph.payload? visit.node = some (.reference old isStatic) :=
    hreaches.step.usages _ _ (by simp) hpayload (Or.inl rfl)
  have hname₁ := hreaches.step.graph.name? hname
  refine ⟨target, r₁, ?_⟩
  unfold Resolver.resolveReference
  rw [hfind]
  simp only [bind, Except.bind]
  generalize hf : (fun c : Counters =>
    if target.isSome then { c with referencesResolved := c.referencesResolved + 1 }
    else { c with referencesUnresolved := c.referencesUnresolved + 1 }) = f
  obtain ⟨r', hlink, hreaches', hpayload'⟩ :=
    (hcount f).sound.link n hpayload₁ hname₁ hfits
  have hcounted := ((Reaches.refl hreaches.sound n [visit.node]).count f).trans hreaches.sound hreaches'
  exact ⟨r', hlink, hreaches, hfinds, ⟨f, hlink⟩, hcounted,
    (hreaches.weaken (List.nil_subset _)).trans h hcounted, hpayload'⟩

end Sound

end Resolver

end ProgramGraph
