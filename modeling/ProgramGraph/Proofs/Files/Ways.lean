import Mathlib.Data.List.Basic
import Mathlib.Data.Option.Basic
import ProgramGraph.Files.Tree

set_option autoImplicit false

/-!
# Ways through trees

A path is followed from one directory to the next. So it leads to the same place in every tree that has
the same directories, if there is something in that place, whatever else there is. A file that is written
keeps all directories, and is where its path leads afterwards.

## Main definitions

* `ProgramGraph.Files.Tree.HasDirectory` — a directory stands at the end of a way.
* `ProgramGraph.Files.Tree.Keeps` — the directories of a tree stand in another tree as well.
* `ProgramGraph.Files.Tree.Writable` — a file can be written where a path leads.

## Main results

* `ProgramGraph.Files.Tree.locate?_of_keeps` — a path leads to the same place.
* `ProgramGraph.Files.Tree.keeps_put` — putting a file somewhere keeps the directories.
* `ProgramGraph.Files.Tree.look?_write` — a file that was written is there.
-/

namespace ProgramGraph.Files.Tree

variable {root root' : Tree} {way dir pieces : List String} {path name text : String}

/-! ## Ways -/

/-- A directory stands at the end of a way. -/
def HasDirectory (root : Tree) (way : List String) : Prop :=
  ∃ entries, root.get? way = some (.directory entries)

/-- A way and what is behind it are followed one after the other. -/
theorem get?_append (way more : List String) (t : Tree) :
    t.get? (way ++ more) = (t.get? way).bind (get? more) := by
  induction way generalizing t with
  | nil => rfl
  | cons name rest ih =>
    cases hchild : t.entries.lookup name with
    | none => simp [get?, hchild]
    | some child => simpa [get?, hchild] using ih child

/-- The entries of a directory are those that it is made of. -/
theorem entries_directory (entries : List (String × Tree)) : (directory entries).entries = entries := rfl

/-- What stands under a name in a directory. -/
theorem get?_concat {here : Tree} (h : root.get? way = some here) (name : String) :
    root.get? (way ++ [name]) = here.entries.lookup name := by
  rw [get?_append, h]
  cases hchild : here.entries.lookup name with
  | none => simp [get?, hchild]
  | some child => simp [get?, hchild]

/-- The directories of a tree stand in another tree as well. -/
def Keeps (root root' : Tree) : Prop := ∀ way, root.HasDirectory way → root'.HasDirectory way

/-! ## Following a path -/

/-- Where a piece of a path leads to from the end of a way. -/
def next? (root : Tree) (way : List String) (piece : String) : Option (List String) :=
  match root.get? way with
  | some (.directory entries) =>
    if stays piece then some way
    else if piece = ".." then (if way = [] then none else some way.dropLast)
    else if (entries.lookup piece).isSome then some (way ++ [piece])
    else none
  | _ => none

/-- A condition in front of a search fails it, or makes no difference. -/
theorem guard_bind {α : Type} (p : Prop) [Decidable p] (x : Option α) :
    ((guard p : Option Unit).bind fun _ => x) = if p then x else none := by
  by_cases hp : p
  · rw [if_pos hp, guard, if_pos hp]
    rfl
  · rw [if_neg hp, guard, if_neg hp]
    rfl

/-- A path is followed piece by piece.

**Proof sketch.** By cases on what is at the beginning and on the piece: whether it stays, goes up or goes
down. The function that follows a path and the one for a single step go through the same cases. -/
theorem follow_cons (root : Tree) (way : List String) (piece : String) (rest : List String) :
    follow root way (piece :: rest) = (next? root way piece).bind fun w => follow root w rest := by
  cases hhere : root.get? way with
  | none => rw [follow, next?, hhere]; rfl
  | some here =>
    cases here with
    | file _ => rw [follow, next?, hhere]; rfl
    | directory entries =>
      have hnext : next? root way piece = if stays piece then some way
          else if piece = ".." then (if way = [] then none else some way.dropLast)
          else if (entries.lookup piece).isSome then some (way ++ [piece]) else none := by
        rw [next?, hhere]
      have hdirectory : (directory entries).isDirectory = true := rfl
      rw [hnext, follow, hhere, Option.bind_eq_bind, Option.bind_some, Option.bind_eq_bind, guard_bind,
        if_pos hdirectory]
      by_cases hstays : stays piece = true
      · rw [if_pos hstays, if_pos hstays, Option.bind_some]
      · rw [if_neg hstays, if_neg hstays]
        by_cases hup : piece = ".."
        · rw [if_pos hup, if_pos hup, guard_bind]
          by_cases htop : way = [] <;> simp [htop]
        · rw [if_neg hup, if_neg hup, guard_bind, entries_directory]
          by_cases hentry : (entries.lookup piece).isSome = true
          · rw [if_pos hentry, if_pos hentry, Option.bind_some]
          · rw [if_neg hentry, if_neg hentry, Option.bind_none]

/-- The components of a path are followed one after the other. -/
theorem follow_append (root : Tree) (way first second : List String) :
    follow root way (first ++ second) = (follow root way first).bind fun w => follow root w second := by
  induction first generalizing way with
  | nil => rfl
  | cons piece rest ih =>
    rw [List.cons_append, follow_cons, follow_cons]
    cases next? root way piece with
    | none => rfl
    | some w => exact ih w

/-- What leads somewhere begins at a directory. -/
theorem hasDirectory_of_next? {w : List String} (h : next? root way name = some w) : root.HasDirectory way := by
  rw [next?] at h
  split at h
  · next entries hhere => exact ⟨entries, hhere⟩
  · exact absurd h (by simp)

/-- A piece that leads somewhere leads there in every tree that has the same directories and something in
that place. -/
theorem next?_of_keeps (keeps : root.Keeps root') {w : List String} (h : next? root way name = some w)
    (hplace : (root'.get? w).isSome = true) : next? root' way name = some w := by
  obtain ⟨entries, hhere⟩ := hasDirectory_of_next? h
  obtain ⟨entries', hhere'⟩ := keeps way ⟨entries, hhere⟩
  rw [next?, hhere] at h
  rw [next?, hhere']
  dsimp only at h ⊢
  by_cases hstays : stays name = true
  · rwa [if_pos hstays] at h ⊢
  · rw [if_neg hstays] at h ⊢
    by_cases hup : name = ".."
    · rwa [if_pos hup] at h ⊢
    · rw [if_neg hup] at h ⊢
      obtain ⟨-, rfl⟩ : (entries.lookup name).isSome = true ∧ way ++ [name] = w := by
        split_ifs at h with hentry
        exact ⟨hentry, Option.some.inj h⟩
      rw [get?_concat hhere', entries_directory] at hplace
      rw [if_pos hplace]

/-- **A path leads to the same place in every tree that has the same directories,** if there is something
in that place.

**Proof sketch.** By induction on the pieces of the path. As long as something follows, each step leads to a
directory, which is one in the other tree too, and the last step leads to the place itself. -/
theorem follow_of_keeps (keeps : root.Keeps root') {place : List String}
    (h : follow root way pieces = some place) (hplace : (root'.get? place).isSome = true) :
    follow root' way pieces = some place := by
  induction pieces generalizing way with
  | nil => exact h
  | cons piece rest ih =>
    rw [follow_cons] at h ⊢
    cases hnext : next? root way piece with
    | none => simp [hnext] at h
    | some w =>
      rw [hnext] at h
      have hw : (root'.get? w).isSome = true := by
        cases rest with
        | nil =>
          obtain rfl : w = place := Option.some.inj h
          exact hplace
        | cons second rest =>
          -- what leads on is a directory
          rw [Option.bind_some, follow_cons] at h
          obtain ⟨w', hw', -⟩ := Option.bind_eq_some_iff.mp h
          obtain ⟨entries, hentries⟩ := keeps w (hasDirectory_of_next? hw')
          rw [hentries, Option.isSome_some]
      rw [next?_of_keeps keeps hnext hw]
      exact ih h

/-- There is something above whatever there is. -/
theorem isSome_get?_dropLast (h : (root.get? way).isSome = true) : (root.get? way.dropLast).isSome = true := by
  by_cases hway : way = []
  · subst hway
    exact h
  · rw [← List.dropLast_concat_getLast hway, get?_append] at h
    cases habove : root.get? way.dropLast with
    | none => simp [habove] at h
    | some above => rfl

/-- A path leads to something. -/
theorem isSome_get?_of_follow {place : List String} (h : follow root way pieces = some place)
    (hway : (root.get? way).isSome = true) : (root.get? place).isSome = true := by
  induction pieces generalizing way with
  | nil =>
    obtain rfl := Option.some.inj h
    exact hway
  | cons piece rest ih =>
    rw [follow_cons] at h
    obtain ⟨w, hw, hrest⟩ := Option.bind_eq_some_iff.mp h
    refine ih hrest ?_
    obtain ⟨entries, hhere⟩ := hasDirectory_of_next? hw
    rw [next?, hhere] at hw
    dsimp only at hw
    split_ifs at hw with hstays hup hroot hentry
    · obtain rfl := Option.some.inj hw
      exact hway
    · obtain rfl := Option.some.inj hw
      exact isSome_get?_dropLast hway
    · obtain rfl := Option.some.inj hw
      rw [get?_concat hhere]
      exact hentry

/-- A path leads to something. -/
theorem isSome_get?_of_locate? (h : root.locate? path = some way) : (root.get? way).isSome = true := by
  rw [locate?] at h
  split_ifs at h
  exact isSome_get?_of_follow h rfl

/-- **A path leads to the same place in every tree that has the same directories,** from the root on. -/
theorem locate?_of_keeps (keeps : root.Keeps root') (h : root.locate? path = some way)
    (hplace : (root'.get? way).isSome = true) : root'.locate? path = some way := by
  rw [locate?] at h ⊢
  split_ifs at h with habsolute
  rw [if_neg habsolute]
  exact follow_of_keeps keeps h hplace

/-! ## Writing a file -/

/-- **Putting a file where no directory stands keeps all directories.**

**Proof sketch.** Induction on the way of the new file, for all ways to directories. The two part at some
name, and then nothing changes, or one ends: there is no directory where the file is put, and nothing below a
file. -/
theorem keeps_put (hplace : ¬ root.HasDirectory way) (text : String) : root.Keeps (root.put text way) := by
  intro w hw
  induction way generalizing root w with
  | nil =>
    -- a file has nothing below it
    obtain ⟨entries, hentries⟩ := hw
    cases root with
    | directory es => exact absurd ⟨es, rfl⟩ hplace
    | file t => cases w with
      | nil => exact absurd hentries (by simp [get?])
      | cons n ns => simp [get?, Tree.entries] at hentries
  | cons name rest ih =>
    cases w with
    | nil => exact ⟨_, rfl⟩
    | cons n ns =>
      obtain ⟨entries, hentries⟩ := hw
      simp only [get?] at hentries
      obtain ⟨child, hchild, hinner⟩ := Option.bind_eq_some_iff.mp hentries
      by_cases hn : n = name
      · subst hn
        have hbelow : ¬ child.HasDirectory rest := by
          rintro ⟨es, hes⟩
          exact hplace ⟨es, by rw [get?, hchild]; exact hes⟩
        obtain ⟨es, hes⟩ := ih hbelow ns ⟨entries, hinner⟩
        refine ⟨es, ?_⟩
        rw [put, get?, entries_directory, lookup_setEntry_self, hchild]
        exact hes
      · refine ⟨entries, ?_⟩
        rw [put, get?, entries_directory, lookup_setEntry_of_ne hn, hchild]
        exact hinner

/-- What the place for a file is like: its directory is there, and the path has its name at the end. -/
theorem follow_of_placeFor (h : root.placeFor path = .ok (way, name)) :
    (path.isEmpty || path.startsWith "/") = false ∧ stays name = false ∧ name ≠ ".." ∧
      Tree.pieces path = (Tree.pieces path).dropLast ++ [name] ∧
      follow root [] (Tree.pieces path).dropLast = some way ∧ root.HasDirectory way := by
  rw [placeFor] at h
  split at h
  · exact absurd h (by simp)
  · next last hlast =>
    split_ifs at h with habsolute hname
    split at h
    · exact absurd h (by simp)
    · next w hfollow =>
      split at h
      · next entries hentries =>
        obtain ⟨rfl, rfl⟩ := Prod.mk.inj (Except.ok.inj h)
        obtain ⟨hstays, hup⟩ : stays last = false ∧ last ≠ ".." := by simpa using hname
        exact ⟨by simpa using habsolute, hstays, hup,
          (List.dropLast_append_getLast? _ hlast).symm, hfollow, entries, hentries⟩
      · exact absurd h (by simp)

/-- A file can be written where a path leads: the directory for it is there, and no directory stands in
its place. -/
def Writable (path : String) (root : Tree) : Prop :=
  ∃ way name, root.placeFor path = .ok (way, name) ∧ ¬ root.HasDirectory (way ++ [name])

/-- Writing a file puts it in its place. -/
theorem exists_put_of_write (h : root.write path text = .ok root') :
    ∃ way name, root.placeFor path = .ok (way, name) ∧ ¬ root.HasDirectory (way ++ [name]) ∧
      root' = root.put text (way ++ [name]) := by
  rw [write] at h
  cases hplace : root.placeFor path with
  | error refusal => simp [hplace, bind, Except.bind] at h
  | ok place =>
    obtain ⟨way, name⟩ := place
    simp only [hplace, bind, Except.bind] at h
    split at h
    · exact absurd h (by simp)
    · next hnone =>
      exact ⟨way, name, rfl, fun ⟨entries, hentries⟩ => hnone entries hentries, (Except.ok.inj h).symm⟩

/-- A file can be written where its path is writable, whatever the text is. -/
theorem exists_write (h : root.Writable path) (text : String) :
    ∃ root', root.write path text = .ok root' := by
  obtain ⟨way, name, hplace, hnone⟩ := h
  rw [write, hplace]
  simp only [bind, Except.bind]
  split
  · next entries hentries => exact absurd ⟨entries, hentries⟩ hnone
  · exact ⟨_, rfl⟩

/-- **A file that was written is where its path leads.** -/
theorem look?_write (h : root.write path text = .ok root') : root'.look? path = some (.file (some text)) := by
  obtain ⟨way, name, hplace, hnone, rfl⟩ := exists_put_of_write h
  obtain ⟨habsolute, hstays, hup, hpieces, hfollow, hdir⟩ := follow_of_placeFor hplace
  have hkeeps := keeps_put hnone text
  have hfile := get?_put text (way ++ [name]) root
  obtain ⟨entries, hentries⟩ := hkeeps way hdir
  have hentry : entries.lookup name = some (.file (some text)) := by
    rwa [get?_concat hentries, entries_directory] at hfile
  have hnext : next? (root.put text (way ++ [name])) way name = some (way ++ [name]) := by
    rw [next?, hentries]
    simp [hstays, hup, hentry]
  have hplace : ((root.put text (way ++ [name])).get? way).isSome = true := by
    rw [hentries, Option.isSome_some]
  have hlocate : (root.put text (way ++ [name])).locate? path = some (way ++ [name]) := by
    rw [locate?, habsolute, hpieces, follow_append, follow_of_keeps hkeeps hfollow hplace, Option.bind_some,
      follow_cons, hnext]
    rfl
  rw [look?, hlocate]
  exact hfile

end ProgramGraph.Files.Tree
