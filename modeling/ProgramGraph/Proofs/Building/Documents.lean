import ProgramGraph.Document.Build
import ProgramGraph.Proofs.Building.Declaring

set_option autoImplicit false

/-!
# Graphs of documents

However documents look, the graph that is built from them is well formed and raw, and every node
stands somewhere in it. A document that is built on top of another graph leaves that graph as it is.

## Main definitions

* `ProgramGraph.Graph.ofDocuments` — the graph of some documents.

## Main results

* `ProgramGraph.Document.Expression.build_ok`, `ProgramGraph.Document.Statement.build_ok`,
  `ProgramGraph.Document.Declaration.build_ok` — the parts of a document.
* `ProgramGraph.Document.build_ok` — a document on top of a graph.
* `ProgramGraph.Document.build_eq` — all that it changes there.
* `ProgramGraph.Graph.sprouting_ofDocuments` — the graph of documents.
-/

namespace ProgramGraph

namespace Document

variable {g₀ : Graph} {b : Builder} {rest : List NodeId}

/-! ## Expressions -/

mutual

/-- **An expression** is built as a loose node.

**Proof sketch.** By cases on the expression. What it consists of is built before it and is loose, and the
node that is made takes all of it as its parts. -/
theorem Expression.build_ok (e : Expression) {b : Builder} {rest : List NodeId} (h : b.Ok g₀ rest) :
    b.Goes g₀ (e.build b).2 ((e.build b).1 :: rest) ∧
      (e.build b).2.graph.All Tag.isExpression [(e.build b).1] := by
  cases e with
  | ref name type isStatic line =>
    obtain ⟨hmade, htag, -⟩ := h.reference name (.ofText? type) isStatic
    have hline := hmade.ok.atLine line
    cases isStatic <;>
      exact ⟨hmade.trans hline, .single (hline.follows.tag? htag) rfl⟩
  | member base name type memberType line =>
    obtain ⟨hbase, hkind⟩ := base.build_ok h
    obtain ⟨hmade, htag⟩ := hbase.ok.member hkind name (.ofText? type) (.ofText? (memberType <|> type))
    have hline := hmade.ok.atLine line
    exact ⟨(hbase.trans hmade).trans hline, .single (hline.follows.tag? htag) rfl⟩
  | call name base arguments type line =>
    obtain ⟨hbase, hbaseKind⟩ := Expression.buildOption_ok base h
    obtain ⟨harguments, hkind⟩ := Expression.buildList_ok arguments hbase.ok
    have before : ((Expression.buildList (Expression.buildOption b base).2 arguments).1 ++
        ((Expression.buildOption b base).1.toList ++ rest)).Perm
          ((Expression.buildOption b base).1.toList ++
            (Expression.buildList (Expression.buildOption b base).2 arguments).1 ++ rest) := by
      rw [List.append_assoc]
      exact List.perm_append_comm_assoc ..
    obtain ⟨hmade, htag⟩ := harguments.ok.call name
      ((hbaseKind.keep harguments.follows.graph.keeps).append hkind) (.ofText? type) before
    have hline := hmade.ok.atLine line
    exact ⟨((hbase.trans harguments).trans hmade).trans hline, .single (hline.follows.tag? htag) rfl⟩
  | literal value type =>
    obtain ⟨hmade, htag⟩ := h.literal value (.ofText? type)
    exact ⟨hmade, .single htag rfl⟩

/-- An expression that may be left out. -/
theorem Expression.buildOption_ok (o : Option Expression) {b : Builder} {rest : List NodeId}
    (h : b.Ok g₀ rest) :
    b.Goes g₀ (Expression.buildOption b o).2 ((Expression.buildOption b o).1.toList ++ rest) ∧
      (Expression.buildOption b o).2.graph.All Tag.isExpression
        (Expression.buildOption b o).1.toList := by
  cases o with
  | none => exact ⟨.refl h, Graph.All.nil⟩
  | some e => exact e.build_ok h

/-- Expressions one after the other. -/
theorem Expression.buildList_ok (es : List Expression) {b : Builder} {rest : List NodeId}
    (h : b.Ok g₀ rest) :
    b.Goes g₀ (Expression.buildList b es).2 ((Expression.buildList b es).1 ++ rest) ∧
      (Expression.buildList b es).2.graph.All Tag.isExpression (Expression.buildList b es).1 := by
  cases es with
  | nil => exact ⟨.refl h, Graph.All.nil⟩
  | cons e es =>
    obtain ⟨hfirst, hkind⟩ := e.build_ok h
    obtain ⟨hothers, hkinds⟩ := Expression.buildList_ok es hfirst.ok
    refine ⟨(hfirst.trans hothers).perm List.perm_middle, ?_⟩
    exact (hkind.keep hothers.follows.graph.keeps).append hkinds

end

/-! ## Statements -/

mutual

/-- **A statement** is built into the block around it.

**Proof sketch.** By recursion over the statement. What is built from its operands is hung up in the block,
which is still the innermost container. -/
theorem Statement.build_ok (s : Statement) {b : Builder} {rest : List NodeId} (h : b.Ok g₀ rest)
    (hblock : b.graph.tag? b.current = some .block) : b.Goes g₀ (s.build b) rest := by
  cases s with
  | declare name type initializer =>
    obtain ⟨hinit, hkind⟩ := Expression.buildOption_ok initializer h
    exact hinit.trans (hinit.ok.declareVariable name (.ofText? type) hkind (List.Perm.refl _))
  | returned value =>
    obtain ⟨hvalue, hkind⟩ := Expression.buildOption_ok value h
    have hblock' := hvalue.follows.tag? hblock
    rw [← hvalue.current] at hblock'
    exact hvalue.trans (hvalue.ok.addReturn hblock' hkind (List.Perm.refl _))
  | expression e =>
    obtain ⟨hmade, hkind⟩ := e.build_ok h
    have hblock' := hmade.follows.tag? hblock
    rw [← hmade.current] at hblock'
    refine hmade.trans (hmade.ok.addStatement hblock' (hkind.imp fun tag hk => ?_))
    cases tag <;> simp_all [Tag.isExpression, Tag.isStatement]
  | block statements =>
    obtain ⟨hopens, htag⟩ := h.enterBlock (Or.inr hblock)
    have hinside := Statement.buildList_ok statements hopens.ok (by
      rwa [Builder.current_of_containers hopens.containers])
    exact Builder.Ok.leave_of_opens h hopens hinside

/-- Statements one after the other. -/
theorem Statement.buildList_ok (ss : List Statement) {b : Builder} {rest : List NodeId}
    (h : b.Ok g₀ rest) (hblock : b.graph.tag? b.current = some .block) :
    b.Goes g₀ (Statement.buildList b ss) rest := by
  cases ss with
  | nil => exact .refl h
  | cons s ss =>
    have hfirst := s.build_ok h hblock
    have hblock' := hfirst.follows.tag? hblock
    rw [← hfirst.current] at hblock'
    exact hfirst.trans (Statement.buildList_ok ss hfirst.ok hblock')

end

/-! ## Functions -/

/-- **The body** of a function. -/
theorem buildBody_ok (h : b.Ok g₀ rest) {kind : FunctionKind} {isStatic : Bool}
    {parameters : List NodeId}
    (hcurrent : b.graph.payload? b.current = some (.function kind isStatic parameters none))
    (body : Option (List Statement)) : b.Goes g₀ (buildBody b body) rest := by
  cases body with
  | none => exact .refl h
  | some statements =>
    obtain ⟨hopens, htag⟩ := h.enterBlock (Or.inl ⟨kind, isStatic, parameters, hcurrent⟩)
    have hinside := Statement.buildList_ok statements hopens.ok (by
      rwa [Builder.current_of_containers hopens.containers])
    exact Builder.Ok.leave_of_opens h hopens hinside

/-- **The parameters** of a function. -/
theorem buildParameters_ok (ps : List Parameter) (h : b.Ok g₀ rest) {kind : FunctionKind}
    {isStatic : Bool} {parameters : List NodeId}
    (hcurrent : b.graph.payload? b.current = some (.function kind isStatic parameters none)) :
    b.Goes g₀ (buildParameters b ps) rest ∧ ∃ parameters',
      (buildParameters b ps).graph.payload? (buildParameters b ps).current =
        some (.function kind isStatic parameters' none) := by
  induction ps generalizing b parameters with
  | nil => exact ⟨.refl h, parameters, hcurrent⟩
  | cons p ps ih =>
    obtain ⟨hfirst, hpayload⟩ := h.addParameter hcurrent p.name (.ofText? p.type) p.variadic
    rw [← hfirst.current] at hpayload
    obtain ⟨hothers, hfound⟩ := ih hfirst.ok hpayload
    exact ⟨hfirst.trans hothers, hfound⟩

/-- The constants of an enumeration. -/
theorem buildConstants_ok (names : List String) (h : b.Ok g₀ rest)
    (henum : b.graph.tag? b.current = some .enum) :
    b.Goes g₀ (names.foldl (fun b name => (b.addEnumConstant name).2) b) rest := by
  induction names generalizing b with
  | nil => exact .refl h
  | cons name names ih =>
    have hfirst := h.addEnumConstant henum name
    have henum' := hfirst.follows.tag? henum
    rw [← hfirst.current] at henum'
    exact hfirst.trans (ih hfirst.ok henum')

/-! ## Declarations -/

mutual

/-- **A declaration** is built into the record around it or into the unit.

**Proof sketch.** By recursion over the declaration. A container is opened, filled and closed, and whatever it
was made of hangs in it by then; everything else is built from its operands and hung up. -/
theorem Declaration.build_ok (d : Declaration) {b : Builder} {rest : List NodeId} (h : b.Ok g₀ rest)
    (inRecord : Bool) : b.Goes g₀ (d.build b inRecord) rest := by
  cases d with
  | record name sort superTypes members =>
    have hopens := h.enterRecord name sort (superTypes.map .parse)
    exact Builder.Ok.leave_of_opens h hopens (Declaration.buildList_ok members hopens.ok true)
  | enum name superTypes constants =>
    obtain ⟨hopens, htag⟩ := h.enterEnum name (superTypes.map .parse)
    refine Builder.Ok.leave_of_opens h hopens (buildConstants_ok constants hopens.ok ?_)
    rwa [Builder.current_of_containers hopens.containers]
  | field name type modifiers initializer =>
    obtain ⟨hinit, hkind⟩ := Expression.buildOption_ok initializer h
    exact hinit.trans (hinit.ok.addField name (.ofText? type) modifiers hkind (List.Perm.refl _))
  | function name kind returnType isStatic parameters body =>
    obtain ⟨hopens, hpayload⟩ := h.enterFunction name (functionKind kind inRecord)
      (.ofText? returnType) isStatic
    rw [← Builder.current_of_containers hopens.containers] at hpayload
    obtain ⟨hparameters, parameters', hpayload'⟩ := buildParameters_ok parameters hopens.ok hpayload
    exact Builder.Ok.leave_of_opens h hopens
      (hparameters.trans (buildBody_ok hparameters.ok hpayload' body))
  | var name type initializer =>
    obtain ⟨hinit, hkind⟩ := Expression.buildOption_ok initializer h
    exact hinit.trans (hinit.ok.declareVariable name (.ofText? type) hkind (List.Perm.refl _))

/-- Declarations one after the other. -/
theorem Declaration.buildList_ok (ds : List Declaration) {b : Builder} {rest : List NodeId}
    (h : b.Ok g₀ rest) (inRecord : Bool) : b.Goes g₀ (Declaration.buildList b inRecord ds) rest := by
  cases ds with
  | nil => exact .refl h
  | cons d ds =>
    have hfirst := d.build_ok h inRecord
    exact hfirst.trans (Declaration.buildList_ok ds hfirst.ok inRecord)

end

/-! ## Documents -/

/-- **A unit is started** on top of any graph in which nothing is loose. -/
theorem start_ok {g : Graph} (h : g₀.BuildsOn g []) (name : String) : (Builder.start g name).Ok g₀ [] := by
  obtain ⟨hgraph, htag⟩ := h.addUnit name
  refine ⟨hgraph, htag, .start g name, fun c hc => ?_, fun c hc => List.mem_singleton.mp hc ▸ h.size⟩
  obtain rfl := List.mem_singleton.mp hc
  refine .root (List.mem_append_left _ ?_)
  exact List.mem_append_right g.units (List.mem_singleton.mpr rfl)

/-- **A document** is built on top of any graph in which nothing is loose. -/
theorem build_ok (d : Document) (path : String) {g : Graph} (h : g₀.BuildsOn g []) :
    g₀.BuildsOn (d.build path g).2 [] := by
  have hbuilt := Declaration.buildList_ok d.declarations (start_ok h (d.name.getD path)) false
  exact hbuilt.ok.finish.1.graph

/-- **A document only appends.** All that changes in a graph are new nodes behind its own, which are
listed by name like its own, and one unit behind its own, the first of the new nodes.

**Proof sketch.** Building keeps all nodes in their places, the keys and the journal, appends one unit and
raises no fault. The index by name is determined by the nodes (`Listed`), so nothing else can be different. -/
theorem build_eq (d : Document) (path : String) {g : Graph} (wf : g.WellFormed []) :
    ∃ new, d.build path g = (g.size, { g with
      nodes := g.nodes ++ new
      names := .of ((g.nodes ++ new).toList.map Node.name)
      units := g.units ++ [g.size] }) := by
  have hstart := start_ok (.refl wf) (d.name.getD path)
  have hbuilt := Declaration.buildList_ok d.declarations hstart false
  obtain ⟨hok, hfinish⟩ := hbuilt.ok.finish
  have hfollows := (hbuilt.follows.trans hfinish).graph
  obtain ⟨new, hnodes⟩ := hok.graph.exists_nodes
  have hkeys := hok.graph.keys
  have hlisted := hok.graph.wellFormed.listed
  have hfault := hok.graph.wellFormed.faultless
  refine ⟨new, Prod.ext rfl ?_⟩
  change (Declaration.buildList (Builder.start g (d.name.getD path)) false d.declarations).finish.graph = _
  generalize (Declaration.buildList (Builder.start g (d.name.getD path)) false d.declarations).finish.graph =
    g' at hnodes hfollows hkeys hlisted hfault
  obtain ⟨nodes, units, names, fault, keys, journal⟩ := g'
  obtain rfl : nodes = g.nodes ++ new := hnodes
  obtain rfl : names = .of ((g.nodes ++ new).toList.map Node.name) := hlisted
  obtain rfl : fault = g.fault := hfault.trans wf.faultless.symm
  obtain rfl : units = g.units ++ [g.size] := hfollows.units
  obtain rfl : journal = g.journal := hfollows.journal
  obtain rfl : keys = g.nextKey := hkeys
  rfl

end Document

namespace Graph

/-- The graph of some documents, each with the path of its file, built one after the other. -/
def ofDocuments (documents : List (String × Document)) : Graph :=
  documents.foldl (fun g d => (d.2.build d.1 g).2) {}

/-- **The graph of documents** is well formed and raw, and everything hangs somewhere in it. -/
theorem sprouting_ofDocuments (documents : List (String × Document)) :
    (ofDocuments documents).Sprouting [] := by
  have hall : ∀ g : Graph, g.Sprouting [] →
      (documents.foldl (fun g d => (d.2.build d.1 g).2) g).Sprouting [] := by
    induction documents with
    | nil => exact fun g h => h
    | cons d rest ih => exact fun g h => ih _ (d.2.build_ok d.1 h)
  exact hall {} (.refl .empty)

end Graph

end ProgramGraph
