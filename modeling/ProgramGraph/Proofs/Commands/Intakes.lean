import ProgramGraph.Command.Resolve
import ProgramGraph.Proofs.Sessions.Parsing
import ProgramGraph.Proofs.Sessions.Retention

set_option autoImplicit false

/-!
# Taking in files

Files are put into a graph one after the other. One that holds a document becomes a unit behind those that
are there; any other one is skipped and leaves the graph as it was. So in the end the graph is that of the
documents, the files fall into those that were accepted and those that were skipped, both in order, and
the same comes out if those that were skipped had never been there.

## Main definitions

* `ProgramGraph.Command.document?` — the document that a file holds.
* `ProgramGraph.Command.Intake.Takes` — what became of the files that were taken in so far.
* `ProgramGraph.Graph.IsUnitOf` — a unit is that of a document.

## Main results

* `ProgramGraph.Command.Intake.Takes.add` — one more file.
* `ProgramGraph.Command.Intake.takes` — all of them.
* `ProgramGraph.Command.Intake.of_filter` — without those that were skipped.
* `ProgramGraph.Graph.units_ofDocuments` — each document has one unit.
-/

namespace ProgramGraph

namespace Command

open Files (Found)

variable {file : Found} {files : List Found} {d : Document} {intake : Intake}

/-! ## Documents -/

/-- The document that a file holds, if a front end is in charge of the file. -/
def document? (file : Found) : Option Document :=
  if isDocument file.path then file.text.bind fun text => (Document.read text).toOption else none

/-- Whether a file holds a document. -/
def holdsDocument (file : Found) : Bool := (document? file).isSome

/-- The documents that files hold, each with the path of its file. -/
def documentsOf (files : List Found) : List (String × Document) :=
  files.filterMap fun file => (document? file).map fun d => (file.path, d)

/-- Which files a front end is in charge of. -/
theorem isDocument_iff {path : String} : isDocument path = true ↔ Path.extension? path = some "json" := by
  have hhandles : Frontend.document.handles path = decide (Path.extension? path = some "json") := by
    unfold Frontend.handles Frontend.document
    cases Path.extension? path <;> simp
  rw [isDocument, Frontend.forPath?, Frontend.all, List.find?_singleton, hhandles]
  by_cases hpath : Path.extension? path = some "json" <;> simp [hpath]

/-- Files with the same text hold a document or not, if a front end is in charge of both. -/
theorem holdsDocument_congr {other : Found} (hfile : isDocument file.path = true)
    (hother : isDocument other.path = true) (htext : file.text = other.text) :
    holdsDocument file = holdsDocument other := by
  rw [holdsDocument, document?, if_pos hfile, htext, holdsDocument, document?, if_pos hother]

/-- Leaving out the files without a document leaves the documents. -/
theorem documentsOf_filter (files : List Found) :
    documentsOf (files.filter holdsDocument) = documentsOf files := by
  rw [documentsOf, documentsOf, List.filterMap_filter]
  refine List.filterMap_congr fun file _ => ?_
  cases hdocument : document? file <;> simp [holdsDocument, hdocument]

/-- As many documents as files hold one. -/
theorem length_documentsOf (files : List Found) :
    (documentsOf files).length = (files.filter holdsDocument).length := by
  rw [documentsOf, List.length_filterMap_eq_countP, List.countP_eq_length_filter]
  refine congrArg _ (List.filter_congr fun file _ => ?_)
  cases hdocument : document? file <;> simp [holdsDocument, hdocument]

/-! ## One file -/

namespace Intake

/-- A file that holds a document becomes a unit. -/
theorem add_of_document (h : document? file = some d) (intake : Intake) :
    intake.add file = { intake with
      graph := (d.build file.path intake.graph).2, accepted := intake.accepted ++ [file.path] } := by
  rw [document?] at h
  split_ifs at h with hpath
  obtain ⟨text, htext, hread⟩ := Option.bind_eq_some_iff.mp h
  rw [add, htext]
  dsimp only
  rw [parseInto_eq, if_pos (isDocument_iff.mp hpath)]
  cases hdocument : Document.read text with
  | error failure => rw [hdocument] at hread; exact absurd hread (by simp [Except.toOption])
  | ok d' =>
    rw [hdocument] at hread
    obtain rfl := Option.some.inj hread
    rfl

/-- Any other file is skipped, and leaves nothing behind. -/
theorem exists_add_eq_skip (hpath : isDocument file.path = true) (h : document? file = none)
    (intake : Intake) : ∃ reason, intake.add file = intake.skip file.path reason := by
  rw [document?, if_pos hpath] at h
  rw [add]
  cases htext : file.text with
  | none => exact ⟨_, rfl⟩
  | some text =>
    dsimp only
    rw [parseInto_eq, if_pos (isDocument_iff.mp hpath)]
    cases hdocument : Document.read text with
    | error failure => exact ⟨_, rfl⟩
    | ok d => rw [htext, Option.bind_some, hdocument] at h; exact absurd h (by simp [Except.toOption])

/-! ## All files -/

/-- What became of the files that were taken in so far. -/
structure Takes (files : List Found) (intake : Intake) : Prop where
  /-- The graph is that of their documents. -/
  graph : intake.graph = Graph.ofDocuments (documentsOf files)
  /-- Those that hold documents were accepted, in order. -/
  accepted : intake.accepted = (files.filter holdsDocument).map Found.path
  /-- The others were skipped, in order. -/
  skipped : intake.skipped.map Skipped.path = (files.filter fun file => !holdsDocument file).map Found.path

/-- **One more file** is accepted or skipped. -/
theorem Takes.add (h : intake.Takes files) (hpath : isDocument file.path = true) :
    (intake.add file).Takes (files ++ [file]) := by
  cases hdocument : document? file with
  | some d =>
    rw [add_of_document hdocument]
    refine ⟨?_, ?_, ?_⟩
    · simp [documentsOf, hdocument, Graph.ofDocuments, h.graph]
    · simp [holdsDocument, hdocument, h.accepted]
    · simp [holdsDocument, hdocument, h.skipped]
  | none =>
    obtain ⟨reason, hskip⟩ := exists_add_eq_skip hpath hdocument intake
    rw [hskip]
    refine ⟨?_, ?_, ?_⟩
    · simp [skip, documentsOf, hdocument, h.graph]
    · simp [skip, holdsDocument, hdocument, h.accepted]
    · simp [skip, holdsDocument, hdocument, h.skipped]

/-- **All files** are accepted or skipped. -/
theorem takes (h : ∀ file ∈ files, isDocument file.path = true) : (Intake.of files).Takes files := by
  induction files using List.reverseRecOn with
  | nil => exact ⟨rfl, rfl, rfl⟩
  | append_singleton files file ih =>
    rw [Intake.of, List.foldl_concat]
    have hfiles : ∀ file ∈ files, isDocument file.path = true := fun other hother =>
      h other (List.mem_append_left _ hother)
    exact (ih hfiles).add (h file (List.mem_append_right _ (List.mem_singleton_self file)))

/-- **Files that were skipped might as well have been left out.**

**Proof sketch.** The graph, the accepted files and the skipped ones are each determined by the documents that
the files hold (`takes`), and these are the same. -/
theorem of_filter (h : ∀ file ∈ files, isDocument file.path = true) :
    Intake.of (files.filter holdsDocument) = { Intake.of files with skipped := [] } := by
  have hall := takes h
  have hsome : (Intake.of (files.filter holdsDocument)).Takes (files.filter holdsDocument) :=
    takes fun file hfile => h file (List.mem_of_mem_filter hfile)
  have hgraph : (Intake.of (files.filter holdsDocument)).graph = (Intake.of files).graph := by
    rw [hsome.graph, documentsOf_filter, hall.graph]
  have haccepted : (Intake.of (files.filter holdsDocument)).accepted = (Intake.of files).accepted := by
    rw [hsome.accepted, hall.accepted, List.filter_filter]
    simp
  have hskipped : (Intake.of (files.filter holdsDocument)).skipped = [] := by
    have hnone := hsome.skipped
    rw [List.filter_filter] at hnone
    simpa using hnone
  generalize Intake.of (files.filter holdsDocument) = intake at hgraph haccepted hskipped
  obtain ⟨graph, accepted, skipped⟩ := intake
  simp only at hgraph haccepted hskipped
  rw [hgraph, haccepted, hskipped]

end Intake

end Command

/-! ## Units -/

namespace Graph

variable {g g' : Graph} {unit : NodeId} {entry : String × Document}

/-- A unit is that of a document with the path of its file: it has the name of the document or else the
path, and it is not made up. -/
structure IsUnitOf (g : Graph) (entry : String × Document) (unit : NodeId) : Prop where
  tag : g.tag? unit = some .unit
  name : g.name? unit = some (entry.2.name.getD entry.1)
  real : ∀ node, g.node? unit = some node → node.dummy = false

/-- What a document is built into is its unit. -/
theorem isUnitOf_build (wf : g.WellFormed []) (d : Document) (path : String) :
    (d.build path g).2.IsUnitOf (path, d) g.size := by
  have hstart := Document.start_ok (.refl wf) (d.name.getD path)
  have hbuilt := Document.Declaration.buildList_ok d.declarations hstart false
  have hfinish := hbuilt.ok.finish
  have hfollows := (hbuilt.follows.trans hfinish.2).graph
  have hnode : (Builder.start g (d.name.getD path)).graph.node? g.size =
      some (.make (d.name.getD path) (.unit [])) := (Graph.node?_add ..).trans (if_pos rfl)
  refine ⟨hfollows.keeps.tag _ _ (tag?_eq hnode), hfollows.keeps.name _ _ ?_, fun node hnode' => ?_⟩
  · rw [name?, hnode]
    rfl
  · exact (d.build_ok path (.refl wf)).raw.dummy g.size node (Nat.le_refl _) hnode'

/-- The unit of a document stays so when another document is built. -/
theorem IsUnitOf.buildsOn (h : g.IsUnitOf entry unit) (hbuilds : g.BuildsOn g' []) :
    g'.IsUnitOf entry unit := by
  have hsame := hbuilds.below unit (lt_size_of_tag? h.tag)
  refine ⟨?_, ?_, fun node hnode => h.real node (hsame ▸ hnode)⟩
  · rw [tag?, hsame]
    exact h.tag
  · rw [name?, hsame]
    exact h.name

/-- It stays so when usages are resolved. -/
theorem IsUnitOf.retains {n : Nat} (h : g.IsUnitOf entry unit) (hretains : g.Retains n g') :
    g'.IsUnitOf entry unit := by
  obtain ⟨node, hnode, -⟩ := exists_node_of_tag? h.tag
  obtain ⟨node', hnode', hkept⟩ := hretains.nodes unit node hnode
  refine ⟨hretains.tag? h.tag, ?_, fun other hother => ?_⟩
  · rw [name?, hnode', Option.map_some, hkept.name, ← h.name, name?, hnode, Option.map_some]
  · obtain rfl := Option.some.inj (hnode'.symm.trans hother)
    exact hkept.dummy.trans (h.real node hnode)

/-- **Each document has one unit,** in the order in which they were built. -/
theorem units_ofDocuments (documents : List (String × Document)) :
    List.Forall₂ (ofDocuments documents).IsUnitOf documents (ofDocuments documents).units := by
  induction documents using List.reverseRecOn with
  | nil => exact .nil
  | append_singleton documents entry ih =>
    obtain ⟨path, d⟩ := entry
    have wf := (sprouting_ofDocuments documents).wellFormed
    have hlast : ofDocuments (documents ++ [(path, d)]) = (d.build path (ofDocuments documents)).2 := by
      simp [ofDocuments]
    obtain ⟨new, hbuild⟩ := d.build_eq path wf
    have hunits : (d.build path (ofDocuments documents)).2.units =
        (ofDocuments documents).units ++ [(ofDocuments documents).size] := by
      rw [hbuild]
    rw [hlast, hunits]
    exact List.rel_append (ih.imp fun _ _ h => h.buildsOn (d.build_ok path (.refl wf)))
      (.cons (isUnitOf_build wf d path) .nil)

/-- There is no unit for made-up declarations among documents. -/
theorem placeholderUnit?_ofDocuments (documents : List (String × Document)) :
    (ofDocuments documents).placeholderUnit? = none := by
  rw [placeholderUnit?, List.find?_eq_none]
  intro unit _ hunit
  obtain ⟨node, hnode, hdummy⟩ := (Option.any_eq_true _ _).mp hunit
  have hreal := (sprouting_ofDocuments documents).raw.dummy unit node hnode
  simp [Node.isPlaceholderUnit, hreal] at hdummy

end Graph

end ProgramGraph
