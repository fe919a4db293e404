import ProgramGraph.Proofs.Files.Removal
import ProgramGraph.Proofs.Files.Sorting

set_option autoImplicit false

/-!
# Searching trees

The path with which a file is found leads to the file. So after some of the files were removed, the same
files are found but those that are gone, with the same paths and in the same order.

## Main definitions

* `ProgramGraph.Files.isName` — whether an entry of a directory can have a name.
* `ProgramGraph.Files.Tree.isProper` — whether every entry of every directory has a name of its own.

## Main results

* `ProgramGraph.Files.Tree.locate?_join` — the path of an entry of a directory.
* `ProgramGraph.Files.Tree.exists_fileName?` — the name of a file.
* `ProgramGraph.Files.Tree.leads_of_mem_collectAt` — where a file is found, there it is.
* `ProgramGraph.Files.Tree.collectAt_without` — what is found without the files that were removed.
-/

namespace ProgramGraph

namespace Text

/-! ## Pieces -/

/-- A text without separators is one piece. -/
theorem split_of_notMem {sep : Char} {text : List Char} (h : sep ∉ text) : split sep text = [text] := by
  induction text with
  | nil => rfl
  | cons c rest ih =>
    obtain ⟨hc, hrest⟩ := not_or.mp fun h' => h (List.mem_cons.mpr h')
    rw [split, if_neg (Ne.symm hc), ih hrest]

/-- A text with a separator falls into the pieces in front of it and those behind it. -/
theorem split_append (sep : Char) (first second : List Char) :
    split sep (first ++ sep :: second) = split sep first ++ split sep second := by
  induction first with
  | nil => simp [split]
  | cons c rest ih =>
    rw [List.cons_append, split, split]
    by_cases hc : c = sep
    · rw [if_pos hc, if_pos hc, ih, List.cons_append]
    · rw [if_neg hc, if_neg hc, ih]
      cases hsplit : split sep rest with
      | nil => exact absurd hsplit (split_ne_nil sep rest)
      | cons piece more => rfl

end Text

namespace Files

/-! ## Paths of entries -/

/-- Whether an entry of a directory can have a name. -/
def isName (name : String) : Bool := !Tree.stays name && name ≠ ".." && !name.toList.contains '/'

namespace Tree

variable {root t : Tree} {gone : List (List String)} {way : List String} {path name : String}
  {entries : List (String × Tree)} {layers : List Layer}

/-- A path that ends with a slash. -/
theorem exists_of_endsWith (h : path.endsWith "/" = true) : ∃ front, front ++ ['/'] = path.toList := by
  rw [String.endsWith_eq_endsWith_toSlice, String.Slice.endsWith_string_iff, String.copy_toSlice] at h
  exact h

/-- The pieces of the path of an entry are those of its directory and its name, up to a last piece that
leads nowhere else. -/
theorem pieces_join (hname : isName name = true) (hpath : path.isEmpty = false) :
    ∃ front back, pieces path = front ++ back ∧ pieces (Path.join path name) = front ++ [name] ∧
      (back = [] ∨ back = [""]) := by
  have hslash : '/' ∉ name.toList := by
    simp only [isName, Bool.and_eq_true] at hname
    simpa using hname.2
  rw [Path.join, hpath]
  cases hends : path.endsWith "/" with
  | true =>
    obtain ⟨front, hfront⟩ := exists_of_endsWith hends
    refine ⟨(Text.split '/' front).map String.ofList, [""], ?_, ?_, .inr rfl⟩
    · rw [pieces, ← hfront, Text.split_append]
      simp [Text.split]
    · simp [pieces, ← hfront, Text.split_append, Text.split_of_notMem hslash]
  | false =>
    refine ⟨pieces path, [], (List.append_nil _).symm, ?_, .inl rfl⟩
    simp [pieces, Text.split_append, Text.split_of_notMem hslash]

/-- A path that leads into a tree begins with something else than a slash. -/
theorem isRelative_iff : (path.isEmpty || path.startsWith "/") = false ↔
    ∃ c rest, path.toList = c :: rest ∧ c ≠ '/' := by
  rw [Bool.or_eq_false_iff, String.startsWith_string_eq_false_iff, String.isEmpty_eq_false_iff, Ne,
    ← String.toList_eq_nil_iff]
  cases hpath : path.toList with
  | nil => simp
  | cons c rest =>
    have hslash : "/".toList <+: c :: rest ↔ c = '/' := by
      change ['/'] <+: c :: rest ↔ c = '/'
      rw [List.cons_prefix_cons]
      exact ⟨fun h => h.1.symm, fun h => ⟨h.symm, List.nil_prefix⟩⟩
    rw [hslash]
    exact ⟨fun h => ⟨c, rest, rfl, h.2⟩, fun ⟨_, _, heq, h⟩ =>
      ⟨List.cons_ne_nil c rest, (List.cons.inj heq).1 ▸ h⟩⟩

/-- A path inside of a directory is no more absolute than the path of the directory. -/
theorem isRelative_join (h : (path.isEmpty || path.startsWith "/") = false) (name : String) :
    ((Path.join path name).isEmpty || (Path.join path name).startsWith "/") = false := by
  have hempty := (Bool.or_eq_false_iff.mp h).1
  obtain ⟨c, rest, hpath, hc⟩ := isRelative_iff.mp h
  rw [Path.join, hempty, isRelative_iff]
  by_cases hends : path.endsWith "/" = true
  · exact ⟨c, rest ++ name.toList, by simp [hends, hpath], hc⟩
  · exact ⟨c, rest ++ '/' :: name.toList, by simp [hends, hpath], hc⟩

/-- **The path of an entry** leads to the entry.

**Proof sketch.** The path of the directory ends in its last piece, with or without a slash, and then comes
the name of the entry. What a slash at the end leaves behind leads nowhere else. So the pieces before lead to
the directory, and the name leads to its entry. -/
theorem locate?_join (hway : root.locate? path = some way) (hdir : root.get? way = some (.directory entries))
    (hname : isName name = true) (hentry : (entries.lookup name).isSome = true) :
    root.locate? (Path.join path name) = some (way ++ [name]) := by
  have hrelative : (path.isEmpty || path.startsWith "/") = false := by
    rw [locate?] at hway
    split_ifs at hway with habsolute
    exact Bool.eq_false_iff.mpr habsolute
  obtain ⟨front, back, hpath, hjoin, hback⟩ := pieces_join hname (Bool.or_eq_false_iff.mp hrelative).1
  -- the last piece of the path of the directory may lead nowhere else
  have hfront : follow root [] front = some way := by
    rw [locate?, hrelative, hpath, if_neg (by simp), follow_append] at hway
    obtain ⟨w, hw, hrest⟩ := Option.bind_eq_some_iff.mp hway
    rcases hback with rfl | rfl
    · rw [hw, ← Option.some.inj hrest]
    · rw [follow_cons] at hrest
      obtain ⟨w', hw', hend⟩ := Option.bind_eq_some_iff.mp hrest
      obtain ⟨es, hes⟩ := hasDirectory_of_next? hw'
      rw [next?, hes] at hw'
      have hstays : w = w' := by simpa [stays] using hw'
      rw [hw, hstays, ← Option.some.inj hend]
  have hnext : next? root way name = some (way ++ [name]) := by
    simp only [isName, Bool.and_eq_true, Bool.not_eq_true', decide_eq_true_eq] at hname
    rw [next?, hdir]
    simp [hname.1.1, hname.1.2, hentry]
  rw [locate?, isRelative_join hrelative, if_neg (by simp), hjoin, follow_append, hfront, Option.bind_some,
    follow_cons, hnext]
  rfl

/-! ## Names of files -/

/-- What leads to a file ends with the name of the file.

**Proof sketch.** Only the last piece matters. If it stayed where it is or went up, it would lead to a
directory. -/
theorem exists_name_of_follow {place : List String} {text : Option String} {pieces : List String}
    (h : follow root way pieces = some place) (hpieces : pieces ≠ [])
    (hfile : root.get? place = some (.file text)) :
    ∃ above name, place = above ++ [name] ∧ pieces.getLast? = some name ∧ stays name = false ∧
      name ≠ ".." := by
  rw [← List.dropLast_concat_getLast hpieces] at h ⊢
  generalize pieces.dropLast = front, pieces.getLast hpieces = last at h ⊢
  rw [follow_append] at h
  obtain ⟨w, -, hlast⟩ := Option.bind_eq_some_iff.mp h
  rw [follow_cons] at hlast
  obtain ⟨w', hnext, hend⟩ := Option.bind_eq_some_iff.mp hlast
  obtain rfl : w' = place := Option.some.inj hend
  obtain ⟨es, hes⟩ := hasDirectory_of_next? hnext
  rw [next?, hes] at hnext
  dsimp only at hnext
  split_ifs at hnext with hstays hup hroot hentry
  · -- what stays is a directory
    obtain rfl := Option.some.inj hnext
    exact absurd (hes.symm.trans hfile) (by simp)
  · -- and so is what has something below it
    obtain rfl := Option.some.inj hnext
    rw [← List.dropLast_concat_getLast hroot, get?_concat hfile] at hes
    exact absurd hes (by simp [Tree.entries])
  · exact ⟨w, last, (Option.some.inj hnext).symm, List.getLast?_concat, by simpa using hstays, hup⟩

/-- A name is a component of a path. -/
theorem component?_name (hstays : stays name = false) (hup : name ≠ "..") :
    Path.component? name.toList = some (.name name) := by
  have hne : ∀ other : String, name ≠ other → name.toList ≠ other.toList := fun other hother heq =>
    hother (String.toList_injective heq)
  simp only [stays, Bool.or_eq_false_iff, decide_eq_false_iff_not] at hstays
  have hempty : name.toList ≠ [] := hne "" hstays.1
  have hdot : name.toList ≠ ['.'] := hne "." hstays.2
  have hdots : name.toList ≠ ['.', '.'] := hne ".." hup
  simp [Path.component?, hempty, hdot, hdots]

/-- The name at the end of a path is the name of the file.

**Proof sketch.** The last piece of the path is neither a dot nor empty, so the last component comes from it.
If it is also the first piece, it is the only component, and otherwise the components before it come from the
pieces before it. -/
theorem fileName?_of_pieces (h : (pieces path).getLast? = some name) (hstays : stays name = false)
    (hup : name ≠ "..") : Path.fileName? path = some name := by
  have hcomponent := component?_name hstays hup
  have hlast : (Text.split '/' path.toList).getLast? = some name.toList := by
    rw [pieces, List.getLast?_map] at h
    obtain ⟨piece, hpiece, rfl⟩ := Option.map_eq_some_iff.mp h
    rw [hpiece, String.toList_ofList]
  have hcomponents : ∃ before, Path.components path = before ++ [.name name] := by
    rw [Path.components]
    cases hsplit : Text.split '/' path.toList with
    | nil => exact absurd hsplit (Text.split_ne_nil _ _)
    | cons first rest =>
      rw [hsplit] at hlast
      by_cases hrest : rest = []
      · subst hrest
        obtain rfl : first = name.toList := Option.some.inj hlast
        have hdot : name.toList ≠ ['.'] := fun heq => by
          rw [heq] at hcomponent
          exact absurd hcomponent (by simp [Path.component?])
        exact ⟨[], by simp [hdot, hcomponent]⟩
      · rw [List.getLast?_cons_of_ne_nil hrest] at hlast
        rw [← List.dropLast_append_getLast? _ hlast]
        dsimp only
        rw [List.filterMap_append, List.filterMap_cons_some hcomponent, List.filterMap_nil,
          ← List.append_assoc]
        exact ⟨_, rfl⟩
  obtain ⟨before, hbefore⟩ := hcomponents
  rw [Path.fileName?, hbefore, List.getLast?_concat]

/-- **The name of a file** stands at the end of each path that leads to it. -/
theorem exists_fileName? {text : Option String} (h : root.locate? path = some way)
    (hfile : root.get? way = some (.file text)) :
    ∃ above name, way = above ++ [name] ∧ Path.fileName? path = some name := by
  rw [locate?] at h
  split_ifs at h
  have hpieces : Tree.pieces path ≠ [] := fun hnil =>
    Text.split_ne_nil '/' path.toList (List.map_eq_nil_iff.mp hnil)
  obtain ⟨above, name, hway, hlast, hstays, hup⟩ := exists_name_of_follow h hpieces hfile
  exact ⟨above, name, hway, fileName?_of_pieces hlast hstays hup⟩

/-! ## Proper trees -/

mutual

/-- Whether every entry of every directory has a name of its own. -/
def isProper : Tree → Bool
  | .file _ => true
  | .directory entries => decide (entries.map Prod.fst).Nodup && areProper entries

/-- Whether entries have names, and are proper themselves. -/
def areProper : List (String × Tree) → Bool
  | [] => true
  | (name, t) :: rest => isName name && t.isProper && areProper rest

end

/-- What is in a proper directory has a proper name and is proper itself. -/
theorem isProper_of_mem (h : areProper entries = true) (hmem : (name, t) ∈ entries) :
    isName name = true ∧ t.isProper = true := by
  induction entries with
  | nil => exact absurd hmem List.not_mem_nil
  | cons entry rest ih =>
    obtain ⟨other, t'⟩ := entry
    rw [areProper, Bool.and_eq_true, Bool.and_eq_true] at h
    rcases List.mem_cons.mp hmem with heq | hmem
    · cases heq
      exact h.1
    · exact ih h.2 hmem

/-- An entry with a name of its own is the one that is found under it. -/
theorem lookup_of_mem (hnodup : (entries.map Prod.fst).Nodup) (hmem : (name, t) ∈ entries) :
    entries.lookup name = some t := by
  induction entries with
  | nil => exact absurd hmem List.not_mem_nil
  | cons entry rest ih =>
    obtain ⟨other, t'⟩ := entry
    obtain ⟨hnew, hrest⟩ := List.nodup_cons.mp hnodup
    rcases List.mem_cons.mp hmem with heq | hmem
    · cases heq
      rw [List.lookup_cons_self]
    · have hne : (name == other) = false :=
        beq_eq_false_iff_ne.mpr fun heq => hnew (List.mem_map.mpr ⟨_, hmem, heq⟩)
      rw [List.lookup_cons, hne]
      exact ih hrest hmem

/-- What is looked up by its name is an entry. -/
theorem mem_of_lookup (h : entries.lookup name = some t) : (name, t) ∈ entries := by
  induction entries with
  | nil => exact absurd h (by simp)
  | cons entry rest ih =>
    obtain ⟨other, t'⟩ := entry
    rw [List.lookup_cons] at h
    cases hname : name == other with
    | true =>
      rw [hname] at h
      obtain rfl := eq_of_beq hname
      obtain rfl := Option.some.inj h
      exact List.mem_cons_self
    | false =>
      rw [hname] at h
      exact List.mem_cons_of_mem _ (ih h)

/-- Whatever stands in a proper tree is proper. -/
theorem isProper_get? (h : root.isProper = true) (hway : root.get? way = some t) : t.isProper = true := by
  induction way generalizing root with
  | nil =>
    obtain rfl := Option.some.inj hway
    exact h
  | cons name rest ih =>
    rw [get?] at hway
    obtain ⟨child, hchild, hrest⟩ := Option.bind_eq_some_iff.mp hway
    refine ih ?_ hrest
    cases root with
    | file text => exact absurd hchild (by simp [Tree.entries])
    | directory entries =>
      rw [isProper, Bool.and_eq_true] at h
      exact (isProper_of_mem h.2 (mem_of_lookup hchild)).2

/-! ## Searching -/

/-- A file that was found is where its path leads. -/
def Leads (root : Tree) (file : Found) : Prop :=
  ∃ way, root.locate? file.path = some way ∧ root.get? way = some (.file file.text)

/-- Whether a file that was found is still there. -/
def remains (root : Tree) (gone : List (List String)) (file : Found) : Bool :=
  (root.locate? file.path).all fun way => !gone.contains way

mutual

/-- **What is found** in a tree is where its path leads. -/
theorem leads_of_mem_search (t : Tree) {path : String} {way : List String} {layers : List Layer}
    (proper : t.isProper = true) (hway : root.locate? path = some way) (hplace : root.get? way = some t) :
    ∀ file ∈ t.search path layers, root.Leads file := by
  cases t with
  | file text =>
    intro file hfile
    rw [search, List.mem_singleton] at hfile
    subst hfile
    exact ⟨way, hway, hplace⟩
  | directory entries =>
    rw [isProper, Bool.and_eq_true, decide_eq_true_eq] at proper
    rw [search]
    exact leads_of_mem_searchEntries entries proper.2 hway hplace fun name t => lookup_of_mem proper.1

/-- What is found in some entries of a directory. -/
theorem leads_of_mem_searchEntries (listed : List (String × Tree)) {path : String} {way : List String}
    {layers : List Layer} {entries : List (String × Tree)} (proper : areProper listed = true)
    (hway : root.locate? path = some way) (hplace : root.get? way = some (.directory entries))
    (hlisted : ∀ name t, (name, t) ∈ listed → entries.lookup name = some t) :
    ∀ file ∈ searchEntries path layers listed, root.Leads file := by
  cases listed with
  | nil => simp [searchEntries]
  | cons entry rest =>
    obtain ⟨name, t⟩ := entry
    have hlookup := hlisted name t List.mem_cons_self
    rw [areProper, Bool.and_eq_true, Bool.and_eq_true] at proper
    intro file hfile
    rw [searchEntries, List.mem_append] at hfile
    rcases hfile with hfile | hfile
    · split_ifs at hfile with hignored
      · exact absurd hfile List.not_mem_nil
      · refine leads_of_mem_search t proper.1.2 (locate?_join hway hplace proper.1.1 ?_)
          ((get?_concat hplace name).trans hlookup) file hfile
        rw [hlookup, Option.isSome_some]
    · exact leads_of_mem_searchEntries rest proper.2 hway hplace
        (fun other t ht => hlisted other t (List.mem_cons_of_mem _ ht)) file hfile

end

mutual

/-- **What is found without the files that were removed:** all others. -/
theorem search_without (t : Tree) (layers : List Layer) {path : String} {way : List String}
    (spares : root.Spares gone) (proper : t.isProper = true) (hway : root.locate? path = some way)
    (hplace : root.get? way = some t) (hgone : way ∉ gone) :
    (t.without gone way).search path layers = (t.search path layers).filter (root.remains gone) := by
  cases t with
  | file text => simp [without, search, remains, hway, hgone]
  | directory entries =>
    rw [isProper, Bool.and_eq_true, decide_eq_true_eq] at proper
    rw [without, search, search, layer_without spares]
    exact searchEntries_without entries _ spares proper.2 hway hplace fun name t => lookup_of_mem proper.1

/-- What is found in some entries of a directory.

**Proof sketch.** Recursion on the entries, together with `search_without`. An entry is removed as a whole if
it is a file that is gone, and otherwise the search goes into what is left of it. -/
theorem searchEntries_without (listed : List (String × Tree)) (layers : List Layer) {path : String}
    {way : List String} {entries : List (String × Tree)} (spares : root.Spares gone)
    (proper : areProper listed = true) (hway : root.locate? path = some way)
    (hplace : root.get? way = some (.directory entries))
    (hlisted : ∀ name t, (name, t) ∈ listed → entries.lookup name = some t) :
    searchEntries path layers (entriesWithout gone way listed) =
      (searchEntries path layers listed).filter (root.remains gone) := by
  cases listed with
  | nil => simp [entriesWithout, searchEntries]
  | cons entry rest =>
    obtain ⟨name, t⟩ := entry
    have hlookup := hlisted name t List.mem_cons_self
    rw [areProper, Bool.and_eq_true, Bool.and_eq_true] at proper
    have hentry : (entries.lookup name).isSome = true := by rw [hlookup, Option.isSome_some]
    have hpath := locate?_join hway hplace proper.1.1 hentry
    have hchild : root.get? (way ++ [name]) = some t := (get?_concat hplace name).trans hlookup
    have hrest := searchEntries_without rest layers spares proper.2 hway hplace
      fun other t ht => hlisted other t (List.mem_cons_of_mem _ ht)
    rw [entriesWithout, searchEntries, List.filter_append, ← hrest]
    by_cases hgone : way ++ [name] ∈ gone
    · -- only files are removed, and this one would have been found as the only one
      rw [if_pos hgone]
      cases t with
      | directory es => exact absurd ⟨es, hchild⟩ (spares.directories _ hgone)
      | file text =>
        have hnone : ([{ path := Path.join path name, text }] : List Found).filter (root.remains gone) = [] := by
          simp [remains, hpath, hgone]
        rw [search]
        split_ifs <;> simp [hnone]
    · rw [if_neg hgone, searchEntries, isDirectory_without]
      have hfound := search_without t (layers.map (Layer.enter name)) spares proper.1.2 hpath hchild hgone
      split_ifs with hignored
      · rfl
      · rw [hfound]

end

/-! ## Collecting -/

/-- What the files at or below a path are. -/
def collectAt (root : Tree) (wanted : String → Bool) (path : String) : List Found :=
  match root.look? path with
  | none => []
  | some t => Files.collect wanted path (root.around path) t

/-- Where there is nothing, nothing is collected. -/
theorem collectAt_of_none (h : root.look? path = none) (wanted : String → Bool) :
    root.collectAt wanted path = [] := by
  rw [collectAt, h]

/-- A file itself always counts. -/
theorem collectAt_of_file {text : Option String} (h : root.look? path = some (.file text))
    (wanted : String → Bool) : root.collectAt wanted path = [{ path, text }] := by
  rw [collectAt, h]
  rfl

/-- Below a directory those count that are wanted. -/
theorem collectAt_of_directory (h : root.look? path = some (.directory entries))
    (wanted : String → Bool) : root.collectAt wanted path =
      (((Tree.directory entries).search path ((root.around path).map fun above =>
        Layer.of above.way above.entries)).filter fun file => wanted file.path).mergeSort
          fun a b => Path.le a.path b.path := by
  rw [collectAt, h]
  rfl

/-- **Where a file is found, there it is.** -/
theorem leads_of_mem_collectAt (proper : root.isProper = true) (wanted : String → Bool) :
    ∀ file ∈ root.collectAt wanted path, root.Leads file := by
  intro file hfile
  cases hlook : root.look? path with
  | none => exact absurd hfile (by simp [collectAt_of_none hlook])
  | some t =>
    obtain ⟨way, hway, hplace⟩ := Option.bind_eq_some_iff.mp hlook
    cases t with
    | file text =>
      rw [collectAt_of_file hlook] at hfile
      obtain rfl := List.mem_singleton.mp hfile
      exact ⟨way, hway, hplace⟩
    | directory entries =>
      rw [collectAt_of_directory hlook, List.mem_mergeSort] at hfile
      exact leads_of_mem_search _ (isProper_get? proper hplace) hway hplace file (List.mem_of_mem_filter hfile)

/-- Below a directory only files are found that are wanted. -/
theorem wanted_of_mem_collectAt {wanted : String → Bool} {file : Found}
    (hdir : root.look? path = some (.directory entries)) (h : file ∈ root.collectAt wanted path) :
    wanted file.path = true := by
  rw [collectAt_of_directory hdir, List.mem_mergeSort] at h
  exact (List.mem_filter.mp h).2

/-- **What is collected without the files that were removed:** all others, with the same paths and in the
same order.

**Proof sketch.** By what the path leads to. A file is collected alone, or is gone. For a directory the layers
of ignored patterns above it are the same in both trees, and the search below finds what it found but for the
files that were removed; sorting by path commutes with this. -/
theorem collectAt_without (spares : root.Spares gone) (proper : root.isProper = true)
    (wanted : String → Bool) (path : String) :
    (root.without gone []).collectAt wanted path =
      (root.collectAt wanted path).filter (root.remains gone) := by
  cases hlocate : root.locate? path with
  | none =>
    have hlook : root.look? path = none := by rw [look?, hlocate]; rfl
    rw [collectAt_of_none hlook, collectAt_of_none (look?_without_of_none spares hlocate)]
    rfl
  | some way =>
    obtain ⟨t, hplace⟩ := Option.isSome_iff_exists.mp (isSome_get?_of_locate? hlocate)
    have hlook : root.look? path = some t := by rw [look?, hlocate]; exact hplace
    by_cases hgone : way ∈ gone
    · -- the path leads to a file, which was removed
      cases t with
      | directory entries => exact absurd ⟨entries, hplace⟩ (spares.directories _ hgone)
      | file text =>
        rw [collectAt_of_file hlook, collectAt_of_none (look?_without_of_mem spares hlocate hgone)]
        simp [remains, hlocate, hgone]
    · have hlook' := look?_without_of_notMem spares hlocate hgone
      rw [hlook, Option.map_some] at hlook'
      cases t with
      | file text =>
        rw [collectAt_of_file hlook, collectAt_of_file hlook']
        simp [remains, hlocate, hgone]
      | directory entries =>
        have hroot : root.get? [] = some root := rfl
        have hlayers : ((root.without gone []).around path).map
            (fun above => Layer.of above.way above.entries) =
              (root.around path).map fun above => Layer.of above.way above.entries := by
          rw [around, around, (locate?_without spares).mpr ⟨hlocate, hgone⟩, hlocate]
          exact layers_without spares hroot hplace
        have hfound := search_without (.directory entries)
          ((root.around path).map fun above => Layer.of above.way above.entries) spares
          (isProper_get? proper hplace) hlocate hplace hgone
        rw [collectAt_of_directory hlook, collectAt_of_directory hlook', hlayers, ← without, hfound,
          ← Path.filter_mergeSort Found.path, List.filter_filter, List.filter_filter]
        simp only [Bool.and_comm]

end Tree

end Files

end ProgramGraph
