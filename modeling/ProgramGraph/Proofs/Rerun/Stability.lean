import ProgramGraph.Proofs.Rerun.Members

set_option autoImplicit false

/-!
# Resolving twice

A second resolution of a resolved graph does not fail. It leaves all member accesses as they are,
and every reference that is neither orphaned nor overshadowed. If no reference is orphaned, it makes
no node.

## Main results

* `ProgramGraph.Resolver.Rerun.payload?_access` — member accesses stay.
* `ProgramGraph.Resolver.Rerun.payload?_reference` — references stay.
* `ProgramGraph.Resolver.Rerun.size_eq` — no node is made.
* `ProgramGraph.Graph.resolveUsages_again` — resolving the usages of documents twice.
-/

namespace ProgramGraph

namespace Resolver.Rerun

variable {g : Graph} {t₀ t₁ t t' : ScopeTable} {index index' : Index} {V₀ V V₁ W : List NodeId}
  {r r' r₁ r₂ r₃ : Resolver} {id : NodeId}

/-! ## Member accesses -/

/-- The parts of an access that was resolved are not resolved again. -/
theorem settled (h : Rerun g t₀ t₁ index index' V₀ V V₁ W r r') {base base' : NodeId}
    {member member' : Option NodeId} {done : List NodeId}
    (hpayload : r.graph.payload? id = some (.memberAccess base member))
    (hbefore : Step r.graph.size done ⟨r.graph, index'⟩ r₁)
    (hduring : Step r.graph.size [] r₁ r₂) (hbase : r₁.SettlesBase base base' r₂)
    (hmember : r₂.SettlesMember id base' member member' r₃) :
    base' = base ∧ member' = member ∧ r₃ = r₁ := by
  have hV := h.first.mem_of_linked h.sprouting hpayload (Or.inl rfl)
  have hsettled := (h.first.access hV hpayload).1
  have hgrows := hbefore.graph.trans hduring.graph
  have hnever : ∀ {part : NodeId}, part ∈ base :: member.toList →
      r₂.graph.tag? part ≠ some .reference :=
    fun hpart htag => hsettled _ hpart (hgrows.tag?_back htag rfl)
  cases hbase with
  | found htag _ _ => exact absurd (hduring.graph.tag? htag) (hnever (List.mem_cons_self ..))
  | stays _ =>
    cases hmember with
    | none => exact ⟨rfl, rfl, rfl⟩
    | stays _ => exact ⟨rfl, rfl, rfl⟩
    | constant htag _ _ _ => exact absurd htag (hnever (by simp))
    | field htag _ _ _ _ _ _ => exact absurd htag (hnever (by simp))

/-- **Member accesses stay** as the first resolution left them. -/
theorem payload?_access (h : Rerun g t₀ t₁ index index' V₀ V V₁ W r r') {base : NodeId}
    {member : Option NodeId} (hpayload : r.graph.payload? id = some (.memberAccess base member)) :
    r'.graph.payload? id = some (.memberAccess base member) := by
  have hgrows := (h.second.runs.reaches h.second.start).2.graph
  obtain ⟨base', member', hpayload'⟩ := hgrows.exists_access hpayload
  by_cases hW : id ∈ W
  · obtain ⟨-, base₀, member₀, r₁, r₂, r₃, hpayload₀, moment⟩ := h.second.access hW hpayload'
    obtain ⟨rfl, rfl⟩ := Payload.memberAccess.inj
      (Option.some.inj (hpayload.symm.trans hpayload₀))
    obtain ⟨before, -, -, hbefore⟩ := moment.runs
    obtain ⟨rfl, rfl, -⟩ := h.settled hpayload hbefore moment.during moment.base moment.member
    exact hpayload'
  · rw [hpayload', ← h.second.payload?_of_notMem hpayload' (Or.inr rfl) hW, hpayload]

/-! ## References -/

/-- The moment of a reference in the first resolution, where it is met again. -/
theorem reference (h : Rerun g t₀ t₁ index index' V₀ V V₁ W r r') {p : Place}
    {target : Option NodeId} {isStatic : Bool} {name : String} (hp : r.graph.Stands p id)
    (hpayload : r.graph.payload? id = some (.reference target isStatic))
    (hname : r.graph.name? id = some name) :
    g.Stands p id ∧ ∃ t q₁ q₂, Run.Reference g t₀ index r name isStatic target p t q₁ q₂ := by
  have hlt := h.first.lt_size hpayload (Or.inl rfl)
  have hV := h.first.complete p id hp hlt
  obtain ⟨q, t, q₁, q₂, hq, moment⟩ := h.first.reference hV hpayload hname
  obtain rfl := hq.unique h.first.sound.wellFormed.tree hp
  exact ⟨h.grows.stands_back (Nat.le_refl _) hp hlt, t, q₁, q₂, moment⟩

/-- **References stay** as the first resolution left them, unless they are orphaned or
overshadowed. -/
theorem payload?_reference (h : Rerun g t₀ t₁ index index' V₀ V V₁ W r r')
    {target : Option NodeId} {isStatic : Bool}
    (hpayload : r.graph.payload? id = some (.reference target isStatic))
    (horphan : ¬ r.graph.Orphaned r.index index' id target)
    (hclear : ¬ r'.graph.Overshadowed r'.index id isStatic target) :
    r'.graph.payload? id = some (.reference target isStatic) := by
  have hgrows := (h.second.runs.reaches h.second.start).2.graph
  obtain ⟨target', hpayload'⟩ := hgrows.exists_reference hpayload
  obtain ⟨node, hnode, heq⟩ := Graph.exists_node_of_payload? hpayload
  have hname := Graph.name?_eq hnode
  have hfits := h.first.sound.wellFormed.typed.nodes id node hnode
  rw [heq] at hfits
  by_cases hW : id ∈ W
  · obtain ⟨p, t, r₁, r₂, hp', again⟩ := h.second.reference hW hpayload' (hgrows.name? hname)
    have hp := hgrows.stands_back (Nat.le_refl _) hp' (Graph.lt_size hnode)
    obtain ⟨hstart, t', q₁, q₂, old⟩ := h.reference hp hpayload hname
    rw [hpayload', h.target_eq hstart old again hp hp' (hgrows.name? hname) horphan hclear
      fun d hd => (hfits d hd).2]
  · rw [hpayload', ← h.second.payload?_of_notMem hpayload' (Or.inl rfl) hW, hpayload]

/-! ## Nodes -/

/-- A visit of the second resolution makes no node if no reference is orphaned.

**Proof sketch.** An access is settled already, so only writing is left, which makes no node. A reference is
looked up again, which makes no node unless it is orphaned. -/
theorem size_visit (h : Rerun g t₀ t₁ index index' V₀ V V₁ W r r')
    (horphans : ∀ id target isStatic, r.graph.payload? id = some (.reference target isStatic) →
      ¬ r.graph.Orphaned r.index index' id target)
    {before : List NodeId} {p : Place} {node : Node} (sound : r₁.Sound)
    (hbefore : Step r.graph.size before ⟨r.graph, index'⟩ r₁)
    (now : Visited r.graph.size t₁ before p id node t r₁ r₃) : r₃.graph.size = r₁.graph.size := by
  have hkept : ∀ {payload : Payload}, r₁.graph.payload? id = some payload →
      payload.tag = .reference ∨ payload.tag = .memberAccess →
        r.graph.payload? id = some payload := fun hpayload hkind =>
    hbefore.payload?_back now.notMem hpayload hkind
  cases now.resolves with
  | other _ _ => rfl
  | access hpayload hreaches hbase hreaches' hmember _ _ _ =>
    obtain ⟨-, -, rfl⟩ := h.settled (hkept hpayload (Or.inr rfl)) hbefore hreaches.step hbase hmember
    exact Graph.size_modify ..
  | reference hpayload _ _ _ _ _ _ =>
    obtain ⟨name, isStatic, old, target, r₂, hname, hpayload', -, hfinds, hlinks, -⟩ :=
      now.reference sound (Graph.tag?_of_payload? hpayload)
    have hstart := hkept hpayload' (Or.inl rfl)
    obtain ⟨start, hfound, -⟩ := Graph.exists_node_of_payload? hstart
    have hname' := Graph.name?_eq hfound
    obtain rfl := Option.some.inj ((hbefore.graph.name? hname').symm.trans hname)
    have hp := hbefore.graph.stands_back (Nat.le_refl _) now.stands (Graph.lt_size hfound)
    obtain ⟨hraw, t', q₁, q₂, moment⟩ := h.reference hp hstart hname'
    have hsame := h.graph_eq hraw moment ⟨sound, ⟨before, hbefore⟩, now.more⟩ hp
      (horphans id _ _ hstart) hfinds
    rw [← hsame]
    exact Nat.le_antisymm hlinks.size hlinks.step.graph.size

/-- **No node is made** in the second resolution if no reference is orphaned. -/
theorem size_eq (h : Rerun g t₀ t₁ index index' V₀ V V₁ W r r')
    (horphans : ∀ id target isStatic, r.graph.payload? id = some (.reference target isStatic) →
      ¬ r.graph.Orphaned r.index index' id target) : r'.graph.size = r.graph.size := by
  have hruns : ∀ {visited : List NodeId} {r₁ : Resolver},
      Runs r.graph.size t₁ ⟨r.graph, index'⟩ visited r₁ → r₁.graph.size = r.graph.size := by
    intro visited r₁ hruns
    induction hruns with
    | start => rfl
    | visit before now ih =>
      obtain ⟨hsound, hbefore⟩ := before.reaches h.second.start
      exact (h.size_visit horphans hsound hbefore now).trans ih
  exact hruns h.second.runs

end Resolver.Rerun

/-! ## Documents -/

/-- **Resolving twice.** Whatever documents a graph was built from, resolving the usages of the
resolved graph once more does not fail and leaves all member accesses as they are, and all
references that are neither orphaned nor overshadowed. If no reference is orphaned, no node is
made.

**Proof sketch.** For each usage the visits of both runs are compared. The base of an access is no reference,
its type has not changed, and the member that was found first is still found first. A reference is looked up
in a table that has grown by made-up fields only: it finds what it found, or is overshadowed by one of these,
or what it meant is not in the table again and it is orphaned. Nodes are made for orphans only. -/
theorem Graph.resolveUsages_again (documents : List (String × Document)) :
    ∃ g index t again g' index', (ofDocuments documents).resolveUsages = .ok (g, index) ∧
      Index.build g = .ok (t, again) ∧ g.resolveUsages = .ok (g', index') ∧
      (∀ usage base member, g.payload? usage = some (.memberAccess base member) →
        g'.payload? usage = some (.memberAccess base member)) ∧
      (∀ usage target isStatic, g.payload? usage = some (.reference target isStatic) →
        ¬ g.Orphaned index again usage target → ¬ g'.Overshadowed index' usage isStatic target →
          g'.payload? usage = some (.reference target isStatic)) ∧
      ((∀ usage target isStatic, g.payload? usage = some (.reference target isStatic) →
        ¬ g.Orphaned index again usage target) → g'.size = g.size) := by
  have hg := sprouting_ofDocuments documents
  obtain ⟨r, t₀, index, V₀, V, hresolve, first⟩ := resolveUsages_ok hg.wellFormed
  obtain ⟨r', t₁, again, V₁, W, hresolve', second⟩ := resolveUsages_ok first.sound.wellFormed
  have rerun : Resolver.Rerun _ t₀ t₁ index again V₀ V V₁ W r r' := ⟨hg, first, second⟩
  refine ⟨r.graph, r.index, t₁, again, r'.graph, r'.index, hresolve, second.built, hresolve',
    fun usage base member hpayload => ?_, fun usage target isStatic hpayload horphan hclear => ?_,
    fun horphans => ?_⟩
  · exact rerun.payload?_access hpayload
  · exact rerun.payload?_reference hpayload horphan hclear
  · exact rerun.size_eq horphans

open Document in
/-- Usages that a second resolution changes: a static name for which a field is made up only later,
and a name that means a field of the record made up for a pointer type. -/
def hauntedDocuments : List (String × Document) :=
  [("a.json", { declarations :=
    [.record "Item" "class" [] [.function "size" none none false [] (some
        [.expression (.ref "count" none true none)])],
     .function "main" none none false [] (some
        [.expression (.member (.ref "x" (some "Item") false none) "count" none none none),
         .expression (.member (.ref "y" (some "Box*") false none) "top" none none none)]),
     .record "Crate" "class" ["Box*"] [.function "open" none none false [] (some
        [.expression (.ref "top" none false none)])]] })]

/-- **Resolving twice is not resolving once.** A second resolution of these usages makes a node,
points a reference at a field that pointed at nothing, and another one at another field. -/
theorem resolveUsages_again_haunted : ∃ g index g' index',
    (Graph.ofDocuments hauntedDocuments).resolveUsages = .ok (g, index) ∧
      g.resolveUsages = .ok (g', index') ∧ g.size < g'.size ∧
        (g.payload? 5 = some (.reference none true) ∧
          g'.payload? 5 = some (.reference (some 21) true)) ∧
            g.payload? 19 = some (.reference (some 26) false) ∧
              g'.payload? 19 = some (.reference (some 27) false) := by
  obtain ⟨r, _, _, _, _, hfirst, first⟩ :=
    Graph.resolveUsages_ok (Graph.sprouting_ofDocuments hauntedDocuments).wellFormed
  obtain ⟨r', _, _, _, _, hsecond, -⟩ := Graph.resolveUsages_ok first.sound.wellFormed
  have heval : ((Graph.ofDocuments hauntedDocuments).resolveUsages.bind fun p =>
      p.1.resolveUsages.map fun q => decide (p.1.size < q.1.size ∧
        (p.1.payload? 5 = some (.reference none true) ∧
          q.1.payload? 5 = some (.reference (some 21) true)) ∧
            p.1.payload? 19 = some (.reference (some 26) false) ∧
              q.1.payload? 19 = some (.reference (some 27) false))) = .ok true := by
    decide +kernel
  rw [hfirst] at heval
  simp only [Except.bind, hsecond, Except.map, Except.ok.injEq, decide_eq_true_eq] at heval
  exact ⟨_, _, _, _, hfirst, hsecond, heval⟩

/-- Usages that a second resolution leaves alone, though a field is made up for one of them. -/
def tidyDocuments : List (String × Document) :=
  [("a.json", { declarations :=
    [.record "Item" "class" [] [.field "size" (some "int") [] none,
      .function "area" none none false [] (some [.expression (.ref "size" none false none)])],
     .function "main" none none false [] (some
        [.expression (.member (.ref "x" (some "Item") false none) "count" none none none)])] })]

/-- The second resolution of these usages makes no node and leaves the reference alone. -/
theorem resolveUsages_again_tidy : ∃ g index g' index',
    (Graph.ofDocuments tidyDocuments).resolveUsages = .ok (g, index) ∧
      g.resolveUsages = .ok (g', index') ∧ (Graph.ofDocuments tidyDocuments).size < g.size ∧
        g'.size = g.size ∧ g.payload? 6 = some (.reference (some 3) false) ∧
          g'.payload? 6 = some (.reference (some 3) false) := by
  obtain ⟨g, index, t, again, g', index', hfirst, -, hsecond, -, hreferences, hsize⟩ :=
    Graph.resolveUsages_again tidyDocuments
  have heval : ((Graph.ofDocuments tidyDocuments).resolveUsages.bind fun p =>
      p.1.resolveUsages.map fun q => decide (
        (Graph.ofDocuments tidyDocuments).size < p.1.size ∧
          p.1.payload? 6 = some (.reference (some 3) false) ∧ q.1.name? 6 = some "size" ∧
            (∀ entry ∈ p.2.superTypes.entries, entry.2 = []) ∧
              ∀ id ∈ q.1.ids, ∀ node, q.1.node? id = some node → node.name = "size" →
                node.dummy = false)) = .ok true := by
    decide +kernel
  rw [hfirst] at heval
  simp only [Except.bind, hsecond, Except.map, Except.ok.injEq, decide_eq_true_eq] at heval
  obtain ⟨hgrown, hpayload, hname, hsupers, hnone⟩ := heval
  have hsuper : ∀ type, index.superTypesOf type = [] := by
    intro type
    unfold Index.superTypesOf
    cases hget : index.superTypes.get? type with
    | none => rfl
    | some supers => exact hsupers _ (Assoc.mem_of_get? hget)
  have horphan : ∀ usage target, ¬ g.Orphaned index again usage target := by
    rintro usage target ⟨p, type, declared, record, field, -, -, hdeclared, -⟩
    rw [hsuper] at hdeclared
    exact List.not_mem_nil hdeclared
  have hclear : ¬ g'.Overshadowed index' 6 false (some 3) := by
    rintro ⟨p, name, record, field, -, hname', -, hfield, ⟨node, hnode, hmade⟩, -⟩
    obtain rfl := Option.some.inj (hname.symm.trans hname')
    have hsize' := Option.some.inj ((Graph.name?_eq hnode).symm.trans hfield)
    have hids : field ∈ g'.ids := List.mem_range.mpr (Graph.lt_size hnode)
    rw [hnone field hids node hnode hsize'] at hmade
    exact Bool.noConfusion hmade
  exact ⟨g, index, g', index', hfirst, hsecond, hgrown, hsize fun usage target _ _ =>
    horphan usage target, hpayload, hreferences _ _ _ hpayload (horphan _ _) hclear⟩

end ProgramGraph
