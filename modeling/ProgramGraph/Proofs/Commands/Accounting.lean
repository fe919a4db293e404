import ProgramGraph.Proofs.Commands.Summaries
import ProgramGraph.Proofs.Configurations.Files
import ProgramGraph.Proofs.Files.Searching

set_option autoImplicit false

/-!
# Accounting for files

A run that resolves documents accounts for the files that it collects. Each of them has become one unit or
is skipped, and what is skipped leaves no trace: the same would have been printed without it. A file with
the configuration can be skipped as well when it lies among the documents; without that one, another
configuration would be in force.

## Main definitions

* `ProgramGraph.Command.settingsFor` — the settings of a run.
* `ProgramGraph.Command.filesFor` — the files that a run collects.
* `ProgramGraph.Command.resolveIn` — what a run comes to.
* `ProgramGraph.Command.Accounts` — a run accounts for files.

## Main results

* `ProgramGraph.Command.resolveIn_eq` — a run finds its settings, collects its files and resolves them.
* `ProgramGraph.Command.filesFor_without` — what is collected without the files that were skipped.
* `ProgramGraph.Command.resolveIn_accounts` — a run that succeeds accounts for all files.
-/

namespace ProgramGraph.Command

open Files Terminal

variable {root : Tree} {theme : Theme} {options : ResolveOptions} {settings : Settings}
  {files : List Found} {gone : List (List String)} {way : List String} {path name : String}

/-! ## Runs -/

/-- The settings of a run over the files of a tree. -/
def settingsFor (root : Tree) (options : ResolveOptions) : Except Failure Settings :=
  match ((ConfigFile.load Access.inTree options.config).run root).1 with
  | .error failure => .error (.config failure)
  | .ok config => Settings.of options (config.getD {})

/-- The files that a run collects. -/
def filesFor (root : Tree) (settings : Settings) : List Found := root.collectAt isDocument settings.input

/-- What a run comes to in a tree of files. -/
def resolveIn (root : Tree) (theme : Theme) (options : ResolveOptions) : Outcome :=
  ((resolveDocuments Access.inTree theme options).run root).1

/-- Collecting looks at the files of the tree. -/
theorem collect_run (root : Tree) (path : String) :
    (collect Access.inTree path).run root = (root.collectAt isDocument path, root) := by
  cases hlook : root.look? path <;> (simp [collect, Access.inTree, Tree.collectAt, hlook]; rfl)

/-- **A run** finds its settings, collects its files and resolves them. -/
theorem resolveIn_eq (h : settingsFor root options = .ok settings) (theme : Theme) :
    resolveIn root theme options = settings.outcome theme (filesFor root settings) := by
  rw [settingsFor, ConfigFile.load_run] at h
  dsimp only at h
  split at h
  · exact absurd h (by simp)
  · next config hconfig =>
    have hload := ConfigFile.load_run root options.config
    rw [hconfig] at hload
    have hrun : (resolveDocuments Access.inTree theme options).run root =
        ((collect Access.inTree settings.input).run root).map (settings.outcome theme) id := by
      rw [resolveDocuments, StateT.run_bind, hload]
      simp only [bind, h]
      rfl
    rw [resolveIn, hrun, collect_run]
    rfl

/-! ## Trees without the files that were skipped -/

/-- Lists of what is to be ignored are no documents. -/
theorem extension?_of_list (h : Path.fileName? path = some name)
    (hname : name ∈ [".ignore", ".gitignore", ".git"]) : Path.extension? path = none := by
  rw [Path.extension?, h]
  simp only [List.mem_cons, List.not_mem_nil, or_false] at hname
  rcases hname with rfl | rfl | rfl <;> rfl

/-- Where only documents are removed, directories and lists stay. -/
theorem spares_of_documents (h : ∀ way ∈ gone, ∃ file : Found, isDocument file.path = true ∧
    root.locate? file.path = some way ∧ root.get? way = some (.file file.text)) : root.Spares gone where
  directories way hway := by
    rintro ⟨entries, hentries⟩
    obtain ⟨file, -, -, hfile⟩ := h way hway
    exact absurd (hentries.symm.trans hfile) (by simp)
  lists way name hname hway := by
    obtain ⟨file, hdocument, hlocate, hfile⟩ := h _ hway
    obtain ⟨above, other, heq, hfound⟩ := Tree.exists_fileName? hlocate hfile
    obtain ⟨-, rfl⟩ := List.append_singleton_inj.mp heq
    exact absurd (isDocument_iff.mp hdocument) (by simp [extension?_of_list hfound hname])

/-- The settings are the same as long as the file with the configuration stays. -/
theorem settingsFor_without (spares : root.Spares gone)
    (config : ∀ way, root.locate? (options.config.getD ConfigFile.defaultPath) = some way → way ∉ gone) :
    settingsFor (root.without gone []) options = settingsFor root options := by
  have hread : ∀ (t : Tree) (way : List String), ConfigFile.readTree (t.without gone way) =
      ConfigFile.readTree t := fun t way => by cases t <;> rfl
  rw [settingsFor, settingsFor, ConfigFile.load_run, ConfigFile.load_run]
  cases hlocate : root.locate? (options.config.getD ConfigFile.defaultPath) with
  | none => rw [Tree.look?_without_of_none spares hlocate, Tree.look?, hlocate]; rfl
  | some way =>
    rw [Tree.look?_without_of_notMem spares hlocate (config way hlocate)]
    cases root.look? (options.config.getD ConfigFile.defaultPath) with
    | none => rfl
    | some t => simp only [Option.map_some, hread]

/-- The ways to the files that a run skipped. -/
def skippedWays (root : Tree) (outcome : Outcome) : List (List String) :=
  outcome.skipped.filterMap fun skipped => root.locate? skipped.path

/-- A tree without the files that a run skipped. -/
def withoutSkipped (root : Tree) (outcome : Outcome) : Tree := root.without (skippedWays root outcome) []

/-- Below a directory there are only documents. So a front end is in charge of all files that are collected
if it is in charge of one that is given directly. -/
theorem isDocument_of_mem_filesFor
    (handled : ∀ text, root.look? settings.input = some (.file text) → isDocument settings.input = true) :
    ∀ file ∈ filesFor root settings, isDocument file.path = true := by
  intro file hfile
  cases hlook : root.look? settings.input with
  | none => exact absurd hfile (by simp [filesFor, Tree.collectAt_of_none hlook])
  | some t =>
    cases t with
    | file text =>
      rw [filesFor, Tree.collectAt_of_file hlook, List.mem_singleton] at hfile
      subst hfile
      exact handled text hlook
    | directory entries => exact Tree.wanted_of_mem_collectAt hlook hfile

section Skipping

variable (proper : root.isProper = true) {outcome : Outcome} (skipped : outcome.skipped.map Skipped.path =
    ((filesFor root settings).filter fun file => !holdsDocument file).map Found.path)

include proper skipped

/-- What was skipped is what was collected and holds no document. -/
theorem mem_skippedWays_iff : way ∈ skippedWays root outcome ↔
    ∃ file ∈ filesFor root settings, holdsDocument file = false ∧ root.locate? file.path = some way ∧
      root.get? way = some (.file file.text) := by
  have hways : skippedWays root outcome = (outcome.skipped.map Skipped.path).filterMap root.locate? := by
    rw [skippedWays, List.filterMap_map]
    rfl
  rw [hways, skipped, List.mem_filterMap]
  constructor
  · rintro ⟨path, hpath, hway⟩
    obtain ⟨file, hfile, rfl⟩ := List.mem_map.mp hpath
    obtain ⟨hmem, hholds⟩ := List.mem_filter.mp hfile
    obtain ⟨way', hway', hplace⟩ := Tree.leads_of_mem_collectAt proper isDocument file hmem
    obtain rfl := Option.some.inj (hway.symm.trans hway')
    exact ⟨file, hmem, by simpa using hholds, hway, hplace⟩
  · rintro ⟨file, hmem, hholds, hway, -⟩
    exact ⟨file.path, List.mem_map_of_mem (List.mem_filter.mpr ⟨hmem, by simp [hholds]⟩), hway⟩

variable (documents : ∀ file ∈ filesFor root settings, isDocument file.path = true)

include documents

/-- Without the files that were skipped, directories and lists stay. -/
theorem spares_skippedWays : root.Spares (skippedWays root outcome) := by
  refine spares_of_documents fun way hway => ?_
  obtain ⟨file, hmem, -, hlocate, hplace⟩ := (mem_skippedWays_iff proper skipped).mp hway
  exact ⟨file, documents file hmem, hlocate, hplace⟩

/-- **Without the files that were skipped,** those are collected that hold documents. -/
theorem filesFor_without : filesFor (withoutSkipped root outcome) settings =
    (filesFor root settings).filter holdsDocument := by
  rw [filesFor, withoutSkipped, Tree.collectAt_without (spares_skippedWays proper skipped documents) proper]
  refine List.filter_congr fun file hfile => ?_
  obtain ⟨way, hway, hplace⟩ := Tree.leads_of_mem_collectAt proper isDocument file hfile
  rw [Tree.remains, hway, Option.all_some]
  by_cases hgone : way ∈ skippedWays root outcome
  · -- what stands there holds no document, whatever the path to it is
    obtain ⟨other, hother, hholds, -, hplace'⟩ := (mem_skippedWays_iff proper skipped).mp hgone
    have htext : file.text = other.text := by
      simpa using hplace.symm.trans hplace'
    rw [holdsDocument_congr (documents file hfile) (documents other hother) htext, hholds]
    simpa using hgone
  · have hholds : holdsDocument file = true := by
      by_contra hnot
      exact hgone ((mem_skippedWays_iff proper skipped).mpr
        ⟨file, hfile, Bool.eq_false_iff.mpr hnot, hway, hplace⟩)
    rw [hholds]
    simpa using hgone

end Skipping

/-! ## Outcomes -/

/-- No failure exits with the code of success. -/
theorem Failure.code_ne_zero (failure : Failure) : failure.code ≠ 0 := by
  cases failure <;> simp [Failure.code]

/-- What a run comes to if there is something to sum up. -/
theorem outcome_eq {summary : Summary} (json : settings.format = .json) (hfiles : files ≠ [])
    (h : summarize settings.passes (Intake.of files).graph = .ok summary) (theme : Theme) :
    settings.outcome theme files =
      { printed := [summary.toJson.pretty], skipped := (Intake.of files).skipped } := by
  rw [Settings.outcome, if_neg (by simpa using hfiles)]
  dsimp only
  rw [h, json]
  rfl

/-- **A run that succeeds** had something to sum up. -/
theorem exists_summary (h : (settings.outcome theme files).code = 0) :
    files ≠ [] ∧ ∃ summary, summarize settings.passes (Intake.of files).graph = .ok summary := by
  have hnone : (settings.outcome theme files).failure = none := by
    cases hfailure : (settings.outcome theme files).failure with
    | none => rfl
    | some failure =>
      rw [Outcome.code, hfailure] at h
      exact absurd h failure.code_ne_zero
  rw [Settings.outcome] at hnone
  split_ifs at hnone with hempty
  · exact absurd hnone (by simp [Outcome.failed])
  · refine ⟨by simpa using hempty, ?_⟩
    cases hsummary : summarize settings.passes (Intake.of files).graph with
    | error failure =>
      dsimp only at hnone
      rw [hsummary] at hnone
      exact absurd hnone (by simp)
    | ok summary => exact ⟨summary, rfl⟩

/-- The format that is named on the command line is the one in which the result is shown. -/
theorem format_of_settingsFor {format : Format}
    (hformat : options.format.map Format.ofName = some (.ok format))
    (h : settingsFor root options = .ok settings) : settings.format = format := by
  obtain ⟨named, hnamed, hof⟩ := Option.map_eq_some_iff.mp hformat
  rw [settingsFor] at h
  split at h
  · exact absurd h (by simp)
  · rw [Settings.of] at h
    split at h
    · exact absurd h (by simp)
    · -- the command line comes before the configuration
      have hfirst : ∀ other : Option String, (options.format <|> other).getD "text" = named := by
        rw [hnamed]
        exact fun _ => rfl
      rw [hfirst, bind_eq_ok_iff] at h
      obtain ⟨format', hformat', heq⟩ := h
      cases heq
      exact Except.ok.inj (hformat'.symm.trans hof)

/-! ## Accounts -/

/-- A run accounts for files. -/
structure Accounts (files : List Found) (outcome : Outcome) (g : Graph) (summary : Summary) : Prop where
  /-- What is printed is the summary. -/
  printed : outcome.printed = [summary.toJson.pretty]
  /-- Files that hold no document leave no trace in the graph. -/
  graph : (Intake.of files).graph = Graph.ofDocuments (documentsOf files)
  /-- Each file that holds a document has become one unit, and there is no other one but that for made-up
  declarations. -/
  units : ∃ own, List.Forall₂ g.IsUnitOf (documentsOf files) own ∧ own.Nodup ∧
    g.units = own ++ g.placeholderUnit?.toList
  /-- All others are skipped. -/
  skipped : outcome.skipped.map Skipped.path = (files.filter fun file => !holdsDocument file).map Found.path
  /-- So there are as many units as files were not skipped, and one more if there are made-up
  declarations. -/
  count : summary.statistics.units + outcome.skipped.length =
    files.length + g.placeholderUnit?.toList.length

/-- **What is summed up** accounts for the files. -/
theorem Yields.accounts {outcome : Outcome} {g : Graph} {summary : Summary} {passes : List String}
    (h : Yields passes (Intake.of files).graph g summary)
    (documents : ∀ file ∈ files, isDocument file.path = true)
    (printed : outcome.printed = [summary.toJson.pretty])
    (skipped : outcome.skipped = (Intake.of files).skipped) : Accounts files outcome g summary := by
  have htakes := Intake.takes documents
  rw [htakes.graph] at h
  refine ⟨printed, htakes.graph, h.units, skipped ▸ htakes.skipped, ?_⟩
  have hlength : outcome.skipped.length = (files.filter fun file => !holdsDocument file).length := by
    rw [skipped, ← List.length_map (f := Skipped.path), htakes.skipped, List.length_map]
  have hall := List.length_eq_length_filter_add (l := files) holdsDocument
  rw [h.count, hlength, length_documentsOf]
  omega

/-- The name of the format that is printed for programs. -/
theorem ofName_json : Format.ofName "json" = .ok .json := by
  have hlower : Text.lowercase "json" = "json" := by decide +kernel
  rw [Format.ofName, hlower]
  rfl

/-- What is found in a directory is collected as it is if it is in order. -/
theorem filesFor_of_directory {entries : List (String × Tree)} (hinput : settings.input = path)
    (hlocate : root.locate? path = some way) (hentries : root.get? way = some (.directory entries))
    (hfound : (Tree.search path ((root.around path).map fun above => Layer.of above.way above.entries)
      (.directory entries)).filter (fun file => isDocument file.path) = files)
    (hsorted : files.Pairwise fun a b => Path.le a.path b.path = true) : filesFor root settings = files := by
  have hlook : root.look? path = some (.directory entries) := by
    rw [Tree.look?, hlocate]
    exact hentries
  rw [filesFor, hinput, Tree.collectAt_of_directory hlook, hfound]
  exact List.mergeSort_of_pairwise hsorted

/-- A document without declarations. -/
def bareDocument : String := "\x7b\"name\": \"a\", \"declarations\": []\x7d"

/-- A directory with nothing but a document. -/
def aloneTree : Tree := .directory [("a.json", .file (some bareDocument))]

/-- A directory where a configuration without passes lies beside the document, called like one. -/
def besideTree : Tree :=
  .directory [("a.json", .file (some bareDocument)), ("c.json", .file (some "passes = []\n"))]

/-- The file that is collected from the one. -/
def aloneFiles : List Found := [⟨"./a.json", some bareDocument⟩]

/-- The files that are collected from the other. -/
def besideFiles : List Found := aloneFiles ++ [⟨"./c.json", some "passes = []\n"⟩]

/-- What is asked for, with a file for the configuration or without one. -/
def hereOptions (config : Option String) : ResolveOptions :=
  { input := some ".", format := some "json", config }

/-- What follows from that. -/
def hereSettings (passes : List String) : Settings := { input := ".", format := .json, passes }

/-- In the directory with one document, that one is collected. -/
theorem filesFor_aloneTree (passes : List String) : filesFor aloneTree (hereSettings passes) = aloneFiles :=
  filesFor_of_directory (show (hereSettings passes).input = "." from rfl)
    (show aloneTree.locate? "." = some [] by decide +kernel) rfl (by decide +kernel) (by decide +kernel)

/-- In the directory with a configuration beside the document, both are collected, in this order. -/
theorem filesFor_besideTree (passes : List String) : filesFor besideTree (hereSettings passes) = besideFiles :=
  filesFor_of_directory (show (hereSettings passes).input = "." from rfl)
    (show besideTree.locate? "." = some [] by decide +kernel) rfl (by decide +kernel) (by decide +kernel)

/-- Without a file for the configuration, all passes run. -/
theorem settingsFor_hereOptions {config : Option String}
    (h : root.look? (config.getD ConfigFile.defaultPath) = none) :
    settingsFor root (hereOptions config) = .ok (hereSettings defaultPasses) := by
  rw [settingsFor, ConfigFile.load_run, hereOptions, h]
  simp [Settings.of, ofName_json, Config.passNames, hereSettings, bind, Except.bind, pure, Except.pure]

/-- With the one that lies there, none does. -/
theorem settingsFor_besideTree :
    settingsFor besideTree (hereOptions (some "c.json")) = .ok (hereSettings []) := by
  have hread : Config.read "passes = []\n" = some { passes := some [] } := by decide +kernel
  have hlocate : besideTree.locate? "c.json" = some ["c.json"] := by decide +kernel
  have hlook : besideTree.look? "c.json" = some (.file (some "passes = []\n")) := by
    rw [Tree.look?, hlocate]
    rfl
  rw [settingsFor, ConfigFile.load_run, hereOptions, Option.getD_some, hlook]
  simp [ConfigFile.readTree, Tree.text, hread, Except.map, Settings.of, ofName_json, Config.passNames,
    hereSettings, bind, Except.bind, pure, Except.pure]

/-- What is skipped is the configuration, whether it is in force or not. -/
theorem skippedWays_besideTree {passes : List String} (h : passes = [] ∨ passes = defaultPasses) :
    skippedWays besideTree ((hereSettings passes).outcome .plain besideFiles) = [["c.json"]] := by
  rcases h with rfl | rfl <;> decide +kernel

/-- Without what is skipped, the one directory is the other. -/
theorem withoutSkipped_besideTree {passes : List String} (h : passes = [] ∨ passes = defaultPasses) :
    withoutSkipped besideTree ((hereSettings passes).outcome .plain besideFiles) = aloneTree := by
  rw [withoutSkipped, skippedWays_besideTree h]
  simp [besideTree, aloneTree, Tree.without, Tree.entriesWithout]

/-- A text that is no document. -/
def noteTree : Tree := .directory [("notes.txt", .file (some "hello"))]

/-- What is asked for if it is given directly. -/
def noteOptions : ResolveOptions := { input := some "notes.txt", format := some "json" }

end ProgramGraph.Command
