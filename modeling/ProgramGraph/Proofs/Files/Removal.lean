import Mathlib.Data.List.Induction
import ProgramGraph.Files.Search
import ProgramGraph.Proofs.Files.Ways

set_option autoImplicit false

/-!
# Removing files

A tree without some of its files. As long as only files are removed, all directories stay where they are,
and paths that do not lead to a file that is gone lead to where they led before. If the lists of what is
to be ignored are not among the files that are gone, the same is ignored.

## Main definitions

* `ProgramGraph.Files.Tree.without` — the tree without what stands at the end of some ways.
* `ProgramGraph.Files.Tree.Spares` — only files are removed, and no lists.

## Main results

* `ProgramGraph.Files.Tree.get?_without` — what stands where nothing was removed.
* `ProgramGraph.Files.Tree.locate?_without`, `ProgramGraph.Files.Tree.look?_without_of_notMem` — where
  paths lead.
* `ProgramGraph.Files.Tree.layers_without` — what is ignored.
-/

namespace ProgramGraph.Files

namespace Tree

mutual

/-- The tree at the end of a way without what stands at the end of some ways. -/
def without (gone : List (List String)) (way : List String) : Tree → Tree
  | .file text => .file text
  | .directory entries => .directory (entriesWithout gone way entries)

/-- The entries of the directory at the end of a way without what stands at the end of some ways. -/
def entriesWithout (gone : List (List String)) (way : List String) :
    List (String × Tree) → List (String × Tree)
  | [] => []
  | (name, t) :: rest =>
    if way ++ [name] ∈ gone then entriesWithout gone way rest
    else (name, t.without gone (way ++ [name])) :: entriesWithout gone way rest

end

variable {root t : Tree} {gone : List (List String)} {way more : List String} {path name : String}

/-! ## Entries -/

/-- What stands under a name, if it was not removed.

**Proof sketch.** Induction on the entries; names need not be distinct, the first of several counts in both.
-/
theorem lookup_entriesWithout (gone : List (List String)) (way : List String) (name : String)
    (entries : List (String × Tree)) : (entriesWithout gone way entries).lookup name =
      if way ++ [name] ∈ gone then none else (entries.lookup name).map (without gone (way ++ [name])) := by
  induction entries with
  | nil => simp [entriesWithout]
  | cons entry rest ih =>
    obtain ⟨other, t⟩ := entry
    rw [entriesWithout]
    by_cases hname : name = other
    · subst hname
      by_cases hgone : way ++ [name] ∈ gone
      · rw [if_pos hgone, ih, if_pos hgone, if_pos hgone]
      · rw [if_neg hgone, if_neg hgone]
        simp
    · have hbeq : (name == other) = false := beq_eq_false_iff_ne.mpr hname
      by_cases hgone : way ++ [other] ∈ gone
      · rw [if_pos hgone, ih]
        simp [List.lookup_cons, hbeq]
      · rw [if_neg hgone]
        simp [List.lookup_cons, hbeq, ih]

/-- A directory is one still when something in it is removed. -/
theorem isDirectory_without (t : Tree) (gone : List (List String)) (way : List String) :
    (t.without gone way).isDirectory = t.isDirectory := by
  cases t <;> rfl

/-- What is left in a directory when something is removed. -/
theorem entries_without (t : Tree) (gone : List (List String)) (way : List String) :
    (t.without gone way).entries = entriesWithout gone way t.entries := by
  cases t <;> rfl

/-! ## Ways -/

/-- Only files are removed, and none of those that say what is to be ignored. -/
structure Spares (root : Tree) (gone : List (List String)) : Prop where
  /-- Directories stay. -/
  directories : ∀ way ∈ gone, ¬ root.HasDirectory way
  /-- Lists stay, and so does what marks a repository. -/
  lists : ∀ way, ∀ name ∈ [".ignore", ".gitignore", ".git"], way ++ [name] ∉ gone

/-- What has something below it is a directory. -/
theorem exists_eq_directory {entries : List (String × Tree)} (h : t.get? more = some (.directory entries)) :
    ∃ entries, t = .directory entries := by
  cases t with
  | directory es => exact ⟨es, rfl⟩
  | file text =>
    cases more with
    | nil => simp [get?] at h
    | cons name rest => simp [get?, Tree.entries] at h

/-- **What stands at the end of a way** is there if it was not removed. -/
theorem get?_without (spares : root.Spares gone) (h : root.get? way = some t) (hgone : way ∉ gone) :
    (root.without gone []).get? way = some (t.without gone way) := by
  induction way using List.reverseRecOn generalizing t with
  | nil =>
    obtain rfl := Option.some.inj h
    rfl
  | append_singleton way name ih =>
    have hbelow := h
    rw [get?_append] at hbelow
    obtain ⟨above, habove, hbelow⟩ := Option.bind_eq_some_iff.mp hbelow
    -- above it there is a directory, which was not removed
    have hdir : root.HasDirectory way := by
      cases above with
      | directory entries => exact ⟨entries, habove⟩
      | file text => simp [get?, Tree.entries] at hbelow
    rw [get?_concat (ih habove fun hmem => spares.directories way hmem hdir), entries_without,
      lookup_entriesWithout, if_neg hgone, ← get?_concat habove, h, Option.map_some]

/-- What stands in the tree without some files stood there before. -/
theorem exists_of_get?_without {t' : Tree} (h : (root.without gone []).get? way = some t') :
    ∃ t, root.get? way = some t ∧ t' = t.without gone way ∧ (way = [] ∨ way ∉ gone) := by
  induction way using List.reverseRecOn generalizing t' with
  | nil => exact ⟨root, rfl, (Option.some.inj h).symm, .inl rfl⟩
  | append_singleton way name ih =>
    have hbelow := h
    rw [get?_append] at hbelow
    obtain ⟨above, habove, -⟩ := Option.bind_eq_some_iff.mp hbelow
    obtain ⟨t, ht, rfl, -⟩ := ih habove
    rw [get?_concat habove, entries_without, lookup_entriesWithout] at h
    split_ifs at h with hgone
    obtain ⟨child, hchild, rfl⟩ := Option.map_eq_some_iff.mp h
    exact ⟨child, (get?_concat ht name).trans hchild, rfl, .inr hgone⟩

/-- The directories of a tree stay when files are removed. -/
theorem keeps_without (spares : root.Spares gone) : root.Keeps (root.without gone []) := by
  intro way hway
  obtain ⟨entries, hentries⟩ := hway
  exact ⟨_, get?_without spares hentries fun hmem => spares.directories way hmem ⟨entries, hentries⟩⟩

/-- No directory is new when files are removed. -/
theorem without_keeps (root : Tree) (gone : List (List String)) : (root.without gone []).Keeps root := by
  rintro way ⟨entries, hentries⟩
  obtain ⟨t, ht, heq, -⟩ := exists_of_get?_without hentries
  cases t with
  | directory es => exact ⟨es, ht⟩
  | file text => exact absurd heq (by simp [without])

/-- A path begins at a directory. -/
theorem hasDirectory_nil (h : root.locate? path = some way) : root.HasDirectory [] := by
  rw [locate?] at h
  split_ifs at h
  cases hpieces : Tree.pieces path with
  | nil => exact absurd (List.map_eq_nil_iff.mp hpieces) (Text.split_ne_nil '/' path.toList)
  | cons piece rest =>
    rw [hpieces, follow_cons] at h
    obtain ⟨w, hw, -⟩ := Option.bind_eq_some_iff.mp h
    exact hasDirectory_of_next? hw

/-- **A path leads to where it led before,** unless this was removed. -/
theorem locate?_without (spares : root.Spares gone) :
    (root.without gone []).locate? path = some way ↔ root.locate? path = some way ∧ way ∉ gone := by
  constructor
  · intro h
    have hsome := isSome_get?_of_locate? h
    obtain ⟨t', ht'⟩ := Option.isSome_iff_exists.mp hsome
    obtain ⟨t, ht, -, hway⟩ := exists_of_get?_without ht'
    have hroot := locate?_of_keeps (without_keeps root gone) h (by rw [ht, Option.isSome_some])
    refine ⟨hroot, hway.elim (fun hnil hmem => ?_) id⟩
    exact spares.directories way hmem (hnil ▸ hasDirectory_nil hroot)
  · rintro ⟨h, hgone⟩
    obtain ⟨t, ht⟩ := Option.isSome_iff_exists.mp (isSome_get?_of_locate? h)
    refine locate?_of_keeps (keeps_without spares) h ?_
    rw [get?_without spares ht hgone, Option.isSome_some]

/-- Where a path led to something that was removed, there is nothing now. -/
theorem look?_without_of_mem (spares : root.Spares gone) (h : root.locate? path = some way)
    (hgone : way ∈ gone) : (root.without gone []).look? path = none := by
  rw [look?]
  cases hlocate : (root.without gone []).locate? path with
  | none => rfl
  | some other =>
    obtain ⟨hother, hkept⟩ := (locate?_without spares).mp hlocate
    obtain rfl := Option.some.inj (h.symm.trans hother)
    exact absurd hgone hkept

/-- Where a path led to something that was not removed, there it is. -/
theorem look?_without_of_notMem (spares : root.Spares gone) (h : root.locate? path = some way)
    (hgone : way ∉ gone) : (root.without gone []).look? path = (root.look? path).map (without gone way) := by
  obtain ⟨t, hplace⟩ := Option.isSome_iff_exists.mp (isSome_get?_of_locate? h)
  have hlook : root.look? path = some t := by
    rw [look?, h]
    exact hplace
  rw [look?, (locate?_without spares).mpr ⟨h, hgone⟩, hlook]
  exact get?_without spares hplace hgone

/-- Where a path led nowhere, it leads nowhere. -/
theorem look?_without_of_none (spares : root.Spares gone) (h : root.locate? path = none) :
    (root.without gone []).look? path = none := by
  rw [look?]
  cases hlocate : (root.without gone []).locate? path with
  | none => rfl
  | some other => exact absurd (h.symm.trans ((locate?_without spares).mp hlocate).1) (by simp)

/-! ## What is ignored -/

/-- A list that was not removed says the same. -/
theorem listUnder_without (hgone : way ++ [name] ∉ gone) (entries : List (String × Tree)) :
    listUnder name (entriesWithout gone way entries) = listUnder name entries := by
  rw [listUnder, listUnder, lookup_entriesWithout, if_neg hgone]
  cases entries.lookup name with
  | none => rfl
  | some t => cases t <;> rfl

/-- A directory ignores what it ignored before. -/
theorem layer_without (spares : root.Spares gone) (way below : List String)
    (entries : List (String × Tree)) :
    Layer.of below (entriesWithout gone way entries) = Layer.of below entries := by
  have hrepository : ((entriesWithout gone way entries).lookup ".git").isSome =
      (entries.lookup ".git").isSome := by
    rw [lookup_entriesWithout, if_neg (spares.lists way ".git" (by simp)), Option.isSome_map]
  rw [Layer.of, Layer.of, listUnder_without (spares.lists way ".ignore" (by simp)),
    listUnder_without (spares.lists way ".gitignore" (by simp)), hrepository]

/-- **The directories above a directory** ignore what they ignored before.

**Proof sketch.** Induction on the way down. No directory is on the list of what is removed, so each is
entered in both trees, and its ignored patterns are the same as the files that hold these are spared. -/
theorem layers_without (spares : root.Spares gone) (hroot : root.get? way = some t)
    {entries : List (String × Tree)} (hmore : t.get? more = some (.directory entries)) :
    (enclosing more (t.without gone way)).map (fun above => Layer.of above.way above.entries) =
      (enclosing more t).map fun above => Layer.of above.way above.entries := by
  induction more generalizing way t with
  | nil => rfl
  | cons name rest ih =>
    obtain ⟨es, rfl⟩ := exists_eq_directory hmore
    simp only [get?, entries_directory] at hmore
    obtain ⟨child, hchild, hmore⟩ := Option.bind_eq_some_iff.mp hmore
    have hplace : root.get? (way ++ [name]) = some child := (get?_concat hroot name).trans hchild
    have hgone : way ++ [name] ∉ gone := fun hmem => by
      obtain ⟨inner, rfl⟩ := exists_eq_directory hmore
      exact spares.directories _ hmem ⟨inner, hplace⟩
    simp only [enclosing, entries_without, entries_directory, lookup_entriesWithout, if_neg hgone, hchild,
      Option.map_some, Option.getD_some, List.map_append, List.map_cons, List.map_nil, ih hplace hmore,
      layer_without spares]

end Tree

end ProgramGraph.Files
