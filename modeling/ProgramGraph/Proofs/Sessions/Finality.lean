import ProgramGraph.Proofs.Resolution.Links
import ProgramGraph.Proofs.Sessions.Precedence

set_option autoImplicit false

/-!
# Member accesses are settled for good

A document brings a member access with references for its base and its member. The next run comes to it
and puts in their place what they mean, a base inside another access as well as any other. From then on
the access has a base that is no reference, and no member or a field or a constant, and that is what
every later run finds when it comes to the access again. It leaves them alone, whatever has been
declared meanwhile.

## Main definitions

* `ProgramGraph.Graph.Final` — an access with a base and a member that stay.

## Main results

* `ProgramGraph.Resolver.Run.final` — a run settles every access.
* `ProgramGraph.Graph.Final.advances` — what is settled stays so in each step of a history.
* `ProgramGraph.Graph.after_final` — after a run all accesses are settled for good.
-/

namespace ProgramGraph

namespace Graph

variable {g g' : Graph} {access base : NodeId} {member : Option NodeId}

/-- A member access whose base is no reference and whose member is absent, a field or a constant. -/
structure Final (g : Graph) (access base : NodeId) (member : Option NodeId) : Prop where
  /-- What the access is made of. -/
  payload : g.payload? access = some (.memberAccess base member)
  /-- The base is something other than a reference. -/
  base : ∃ tag, g.tag? base = some tag ∧ tag ≠ .reference
  /-- The member, if there is one, is a field or a constant. -/
  member : ∀ m, member = some m → g.tag? m = some .field ∨ g.tag? m = some .enumConstant

/-- A member access has a base, and possibly a member. -/
theorem exists_parts_of_tag? (h : g.tag? access = some .memberAccess) :
    ∃ base member, g.payload? access = some (.memberAccess base member) := by
  obtain ⟨node, hnode, hkind⟩ := exists_node_of_tag? h
  cases hshape : node.payload with
  | memberAccess base member => exact ⟨base, member, by rw [payload?_eq hnode, hshape]⟩
  | _ => simp [Node.tag, hshape, Payload.tag] at hkind

namespace Final

/-- Where an access has the same parts and these keep their kinds, it is settled still. -/
theorem keep (h : g.Final access base member)
    (hpayload : g'.payload? access = some (.memberAccess base member))
    (htags : ∀ id tag, g.tag? id = some tag → g'.tag? id = some tag) : g'.Final access base member := by
  obtain ⟨tag, htag, hne⟩ := h.base
  refine ⟨hpayload, ⟨tag, htags base tag htag, hne⟩, ?_⟩
  intro m hm
  exact (h.member m hm).imp (htags m _) (htags m _)

/-- What a settled access is made of is no reference. -/
theorem tag?_ne_reference (h : g.Final access base member) :
    ∀ part ∈ base :: member.toList, g.tag? part ≠ some .reference := by
  intro part hpart hreference
  rcases List.mem_cons.mp hpart with rfl | hm
  · obtain ⟨tag, htag, hne⟩ := h.base
    exact hne (Option.some.inj (htag.symm.trans hreference))
  · rcases h.member part (Option.mem_toList.mp hm) with htag | htag <;>
      exact absurd (htag.symm.trans hreference) (by decide)

end Final

end Graph

/-! ## Runs -/

namespace Resolver

variable {g : Graph} {t₀ : ScopeTable} {index : Index} {V₀ V : List NodeId} {r : Resolver}
  {D : NodeId → Prop} {access base : NodeId} {member : Option NodeId}

namespace Run

/-- **No member access is skipped:** each stood in the graph at the start, and a run comes to it. -/
theorem mem_of_memberAccess (run : Run g t₀ index V₀ V r) (settled : g.Settled D)
    (haccess : r.graph.tag? access = some .memberAccess) : access ∈ V := by
  have hgrows := (run.runs.reaches run.start).2.graph
  have htag := hgrows.tag?_back haccess rfl
  have hlt := Graph.lt_size_of_tag? htag
  -- only references are ever left aside
  obtain ⟨p, hp⟩ := (settled.stands access hlt).resolve_right fun haside =>
    absurd ((settled.reference access haside).symm.trans htag) (by decide)
  exact run.complete p access (hgrows.stands_of_tag? hp htag (by decide)) hlt

/-- **A run settles every access.** -/
theorem final (run : Run g t₀ index V₀ V r) (settled : g.Settled D)
    (haccess : r.graph.tag? access = some .memberAccess) :
    ∃ base member, r.graph.Final access base member := by
  have hid := run.mem_of_memberAccess settled haccess
  obtain ⟨base, member, hpayload⟩ := Graph.exists_parts_of_tag? haccess
  obtain ⟨node, hnode, hshape⟩ := Graph.exists_node_of_payload? hpayload
  have hfits := run.sound.wellFormed.typed.nodes access node hnode
  rw [hshape] at hfits
  obtain ⟨tag, htag, -⟩ := hfits.1 base (List.mem_singleton.mpr rfl)
  refine ⟨base, member, hpayload, ⟨tag, htag, ?_⟩, ?_⟩
  · rintro rfl
    exact (run.access hid hpayload).1 base List.mem_cons_self htag
  · rintro m rfl
    have hright := run.rightMember hid hpayload
    by_cases henum : r.graph.tag? base = some .enum
    · exact Or.inr (hright.constant henum).1
    · exact Or.inl (hright.field henum)

/-- **A run leaves alone what is settled,** though it comes to it. -/
theorem keeps_final (run : Run g t₀ index V₀ V r) (h : g.Final access base member) :
    r.graph.Final access base member := by
  have hstep := (run.runs.reaches run.start).2
  refine h.keep ?_ fun id tag htag => hstep.graph.tag? htag
  by_cases hid : access ∈ V
  · obtain ⟨base', member', hpayload⟩ := Graph.exists_parts_of_tag?
      (hstep.graph.tag? (Graph.tag?_of_payload? h.payload))
    obtain ⟨-, base₀, member₀, r₁, r₂, r₃, hstart, hmoment⟩ := run.access hid hpayload
    obtain ⟨rfl, rfl⟩ := Payload.memberAccess.inj (Option.some.inj (h.payload.symm.trans hstart))
    -- what the access is made of is found as it was left
    obtain ⟨before, hnot, -, hbefore⟩ := hmoment.runs
    have hparts := (h.keep (hbefore.usages access _ hnot h.payload (Or.inr rfl))
      fun id tag htag => hbefore.graph.tag? htag).tag?_ne_reference
    obtain ⟨rfl, rfl, -⟩ := (hmoment.sound.settlesBase_spec hmoment.sound' hmoment.base).resolve_right
      fun hfound => hparts base List.mem_cons_self hfound.1
    obtain rfl := (Sound.settlesMember_eq hmoment.member).resolve_right fun ⟨stub, hstub, hreference⟩ =>
      hparts stub (List.mem_cons_of_mem _ (Option.mem_toList.mpr hstub)) hreference
    exact hpayload
  · exact hstep.usages access _ hid h.payload (Or.inr rfl)

end Run

end Resolver

/-! ## Sessions -/

namespace Graph

variable {g g' : Graph} {access base : NodeId} {member : Option NodeId}

/-- **One step** of a history leaves alone what is settled. -/
theorem Final.advances (h : g.Final access base member) (wf : g.WellFormed []) (hnext : g.Advances g') :
    g'.Final access base member := by
  cases hnext with
  | parse d path =>
    have hbuilds := d.build_ok path (.refl wf)
    refine h.keep ?_ hbuilds.quiet.tags
    have hlt := lt_size_of_tag? (tag?_of_payload? h.payload)
    rw [payload?, hbuilds.below access hlt, ← payload?, h.payload]
  | resolve hresolve =>
    obtain ⟨r, t₀, index, V₀, V, rfl, run⟩ := exists_run wf hresolve
    exact run.keeps_final h

/-- **Whatever is done later** leaves alone what is settled. -/
theorem Final.after {session : List Operation} (hafter : after session = .ok g)
    (h : g.Final access base member) (later : List Operation) :
    ∃ g', Graph.after (session ++ later) = .ok g' ∧ g'.Final access base member := by
  induction later using List.reverseRecOn with
  | nil => exact ⟨g, by rw [List.append_nil, hafter], h⟩
  | append_singleton later operation ih =>
    obtain ⟨g₁, hafter₁, h₁⟩ := ih
    obtain ⟨past, hhistory⟩ := exists_history hafter₁
    obtain ⟨g₂, hafter₂, -⟩ := exists_settled_after (session ++ later ++ [operation])
    have hperform : g₁.perform operation = .ok g₂ := by
      rw [after_concat, hafter₁] at hafter₂
      exact hafter₂
    refine ⟨g₂, by rw [← List.append_assoc, hafter₂], ?_⟩
    rcases advances_of_perform hperform with rfl | hnext
    · exact h₁
    · exact h₁.advances hhistory.orderly.wellFormed hnext

/-- **Member accesses are settled for good.** After every session in which the usages were resolved
last, each member access has a base that is no reference, and a member that is absent, a field or a
constant, and it has the same base and the same member after whatever is done later.

**Proof sketch.** In the last run each access was visited, and was given a base that is no reference, and a
member that is absent, a constant, if the base is an enumeration, or a field. That this stays is an induction
on the later operations. Parsing changes no node that is there, and a run looks for declarations only in the
place of references. -/
theorem after_final (session : List Operation) :
    ∃ g, after (session ++ [.resolve]) = .ok g ∧
      ∀ access, g.tag? access = some .memberAccess → ∃ base member, g.Final access base member ∧
        ∀ later, ∃ g', after (session ++ [.resolve] ++ later) = .ok g' ∧
          g'.Final access base member := by
  obtain ⟨g₀, hbefore, hsettled⟩ := exists_settled_after session
  obtain ⟨r, t₀, index, V₀, V, hresolve, run⟩ := resolveUsages_ok hsettled.wellFormed
  have hafter : after (session ++ [.resolve]) = .ok r.graph := by
    rw [after_concat, hbefore]
    simp only [bind, Except.bind, perform, hresolve]
    rfl
  refine ⟨r.graph, hafter, ?_⟩
  intro access haccess
  obtain ⟨base, member, hfinal⟩ := run.final hsettled haccess
  exact ⟨base, member, hfinal, hfinal.after hafter⟩

end Graph

open Document in
/-- A member of a member, none of which is declared. -/
def nestedAccess : List Operation :=
  [.build { declarations := [.function "main" none none false [] (some [.expression
      (.member (.member (.ref "x" (some "Foo") false none) "y" (some "Bar") none none) "z" none none none)])] }
    "a.json"]

/-- The outer one of two accesses that are resolved: its base stays the inner one, and its member a field
that was made up for it. -/
theorem after_final_nestedAccess : ∃ g, Graph.after (nestedAccess ++ [.resolve]) = .ok g ∧
    g.Final 7 5 (some 11) ∧ ∀ later, ∃ g', Graph.after (nestedAccess ++ [.resolve] ++ later) = .ok g' ∧
      g'.Final 7 5 (some 11) := by
  obtain ⟨g, hafter, hall⟩ := Graph.after_final nestedAccess
  have hpayload : g.payload? 7 = some (.memberAccess 5 (some 11)) := by
    apply Graph.of_after_eq hafter
    decide +kernel
  obtain ⟨base, member, hfinal, hlater⟩ := hall 7 (Graph.tag?_of_payload? hpayload)
  obtain ⟨rfl, rfl⟩ := Payload.memberAccess.inj (Option.some.inj (hfinal.payload.symm.trans hpayload))
  exact ⟨g, hafter, hfinal, hlater⟩

end ProgramGraph
