import ProgramGraph.Proofs.Sessions.Forest

set_option autoImplicit false

/-!
# Parsing files into a graph

A file that is parsed into a graph either fails and leaves the graph as it was, or is appended to it as
one unit. So whoever parses files one after the other, and goes on after those that fail, ends with the
graph of those that do not.

## Main definitions

* `ProgramGraph.Graph.TakesFile` — what parsing a file may do to a graph.
* `ProgramGraph.parseAll` — parsing files one after the other.
* `ProgramGraph.parsedFiles` — those of them that do not fail.

## Main results

* `ProgramGraph.Document.build_eq` — building a document only appends to a graph.
* `ProgramGraph.Graph.WellFormed.takesFile` — so does parsing a file, or else it does nothing.
* `ProgramGraph.Graph.after_parseAll` — the graphs of all sessions take files, and files that fail
  might as well be left out.
-/

namespace ProgramGraph

/-- What parsing a file may do to a graph. If it fails, nothing. If no front end is in charge of the
path, nothing either. Otherwise the file becomes the last unit, the first of some new nodes, and that is
all: the new nodes are listed by their names behind the others, and the other nodes, with everything that
is believed about them and everyone who listens to them, the other units and the journal stay as they
are. -/
def Graph.TakesFile (g : Graph) (path contents : String) : Prop :=
  match parseInto path contents g with
  | (.error _, g') => g' = g
  | (.ok none, g') => Path.extension? path ≠ some "json" ∧ g' = g
  | (.ok (some unit), g') => Path.extension? path = some "json" ∧ unit = g.size ∧
      ∃ new, g' = { g with
        nodes := g.nodes ++ new
        names := .of ((g.nodes ++ new).toList.map Node.name)
        units := g.units ++ [unit] }

/-- Parses files, each a path and contents, one after the other, no matter whether they fail: what each
of them comes to, and the graph that is left behind. -/
def parseAll : List (String × String) → Graph → List (Except Error (Option NodeId)) × Graph
  | [], g => ([], g)
  | (path, contents) :: rest, g =>
    let (outcome, g) := parseInto path contents g
    let (outcomes, g) := parseAll rest g
    (outcome :: outcomes, g)

/-- Those of some files that do not fail when they are parsed one after the other. -/
def parsedFiles (files : List (String × String)) (g : Graph) : List (String × String) :=
  ((files.zip (parseAll files g).1).filter fun file => file.2.isOk).map Prod.fst

/-! ## One file -/

/-- What parsing a file does: a document is read from its contents, and built if it can be read. -/
theorem parseInto_eq (path contents : String) (g : Graph) : parseInto path contents g =
    if Path.extension? path = some "json" then
      match Document.read contents with
      | .ok d => (.ok (some (d.build path g).1), (d.build path g).2)
      | .error failure => (.error (.notADocument path failure), g)
    else (.ok none, g) := by
  have hhandles : Frontend.document.handles path = decide (Path.extension? path = some "json") := by
    unfold Frontend.handles Frontend.document
    cases Path.extension? path <;> simp
  unfold parseInto Frontend.forPath? Frontend.all
  rw [List.find?_singleton, hhandles]
  by_cases hpath : Path.extension? path = some "json"
  · simp only [hpath, decide_true, if_true, Frontend.document]
    cases Document.read contents <;> rfl
  · simp only [hpath, decide_false, if_false, Bool.false_eq_true]

/-- **What fails leaves nothing behind:** a file is read to its end before anything is written. -/
theorem parseInto_of_error {path contents : String} {g : Graph} {e : Error}
    (h : (parseInto path contents g).1 = .error e) : (parseInto path contents g).2 = g := by
  rw [parseInto_eq] at h ⊢
  split at h
  · next hpath =>
    rw [if_pos hpath]
    cases hread : Document.read contents with
    | error failure => rfl
    | ok d =>
      rw [hread] at h
      cases h
  · next hpath => rw [if_neg hpath]

/-- **A file is taken** by every well-formed graph. -/
theorem Graph.WellFormed.takesFile {g : Graph} (wf : g.WellFormed []) (path contents : String) :
    g.TakesFile path contents := by
  unfold TakesFile
  rw [parseInto_eq]
  by_cases hpath : Path.extension? path = some "json"
  · rw [if_pos hpath]
    cases Document.read contents with
    | error failure => rfl
    | ok d =>
      obtain ⟨new, hbuild⟩ := d.build_eq path wf
      simp only [hbuild]
      exact ⟨hpath, trivial, new, rfl⟩
  · rw [if_neg hpath]
    exact ⟨hpath, rfl⟩

/-! ## Several files -/

/-- Parsing one file more, in a session, is parsing it into the graph. -/
theorem Graph.eq_of_perform_parse {g g' : Graph} {path contents : String}
    (h : g.perform (.parse path contents) = .ok g') : g' = (parseInto path contents g).2 := by
  rw [perform, parseFile] at h
  cases hparse : parseInto path contents g with
  | mk outcome g₁ =>
    rw [hparse] at h
    cases outcome with
    | error e =>
      have hsame := parseInto_of_error (e := e) (congrArg Prod.fst hparse)
      rw [hparse] at hsame
      exact (Except.ok.inj h).symm.trans hsame.symm
    | ok unit? => exact (checked_eq_ok_iff.mp h).2

/-- Parsing files is a session of its own. -/
theorem Graph.eq_of_foldlM_parse {files : List (String × String)} {g g' : Graph}
    (h : (files.map fun file => Operation.parse file.1 file.2).foldlM perform g = .ok g') :
    g' = (parseAll files g).2 := by
  induction files generalizing g with
  | nil => exact (Except.ok.inj h).symm
  | cons file rest ih =>
    rw [List.map_cons, List.foldlM_cons] at h
    obtain ⟨g₁, hfirst, hrest⟩ := bind_eq_ok_iff.mp h
    obtain rfl := eq_of_perform_parse hfirst
    exact ih hrest

/-- **Files that fail might as well be left out.** -/
theorem parseAll_parsedFiles (files : List (String × String)) (g : Graph) :
    parseAll (parsedFiles files g) g =
      ((parseAll files g).1.filter Except.isOk, (parseAll files g).2) := by
  induction files generalizing g with
  | nil => rfl
  | cons file rest ih =>
    obtain ⟨path, contents⟩ := file
    cases houtcome : (parseInto path contents g).1 with
    | error e =>
      -- the others are parsed into the same graph
      have hsame := parseInto_of_error houtcome
      have hfiles : parsedFiles ((path, contents) :: rest) g = parsedFiles rest g := by
        simp [parsedFiles, parseAll, houtcome, hsame, Except.isOk, Except.toBool]
      rw [hfiles, ih]
      simp [parseAll, houtcome, hsame, Except.isOk, Except.toBool]
    | ok unit? =>
      have hfiles : parsedFiles ((path, contents) :: rest) g =
          (path, contents) :: parsedFiles rest (parseInto path contents g).2 := by
        simp [parsedFiles, parseAll, houtcome, Except.isOk, Except.toBool]
      simp only [hfiles, parseAll, ih, houtcome]
      rw [List.filter_cons_of_pos rfl]

/-- **Parsing is atomic and only appends.** Whatever files are parsed into the graph of a session, each
of them leaves the graph as it was or is appended to it as one unit, and what they leave behind together
is what those leave behind that do not fail.

**Proof sketch.** The file at hand is parsed into the graph of the session in which the files before it were
parsed, and this graph is well formed. A well-formed graph takes a file (`takesFile`): either decoding failed
before anything was written, or a unit was appended. The last part is an induction on the files. -/
theorem Graph.after_parseAll (session : List Operation) (files : List (String × String)) :
    ∃ g, after session = .ok g ∧
      (∀ before path contents rest, files = before ++ (path, contents) :: rest →
        (parseAll before g).2.TakesFile path contents) ∧
      parseAll (parsedFiles files g) g =
        ((parseAll files g).1.filter Except.isOk, (parseAll files g).2) := by
  obtain ⟨g, hafter, -⟩ := exists_settled_after session
  refine ⟨g, hafter, fun before path contents rest _ => ?_, parseAll_parsedFiles files g⟩
  obtain ⟨g', hafter', hg'⟩ :=
    exists_settled_after (session ++ before.map fun file => .parse file.1 file.2)
  rw [after, List.foldlM_append, ← after, hafter] at hafter'
  obtain rfl := eq_of_foldlM_parse hafter'
  exact hg'.wellFormed.takesFile path contents

end ProgramGraph
