import ProgramGraph.ConfigFile
import ProgramGraph.Proofs.Configurations.Assignments
import ProgramGraph.Proofs.Files.Ways

set_option autoImplicit false

/-!
# Configuration files

A configuration that was saved is loaded again as it is, whatever texts it holds. A file that is not
written over stays as it is, and so does everything else when nothing is saved.

## Main results

* `ProgramGraph.ConfigFile.save_run`, `ProgramGraph.ConfigFile.load_run` — what saving and loading come to
  in a tree of files.
* `ProgramGraph.ConfigFile.load_save` — what was saved is loaded again, and a refusal changes nothing.
-/

namespace ProgramGraph.ConfigFile

open Files

/-- Saving refuses to write over a file, unless that is asked for, and writes the text otherwise. -/
theorem save_run (root : Tree) (path : Option String) (c : Config) (overwrite : Bool) :
    (save Access.inTree path c overwrite).run root =
      if overwrite = false ∧ (root.look? (path.getD defaultPath)).isSome = true then
        (.error (.exists (path.getD defaultPath)), root)
      else match root.write (path.getD defaultPath) c.render with
        | .ok root' => (.ok (), root')
        | .error refusal => (.error (.refused refusal), root) := by
  cases overwrite with
  | true =>
    rw [if_neg (by simp)]
    cases hwrite : root.write (path.getD defaultPath) c.render <;>
      (simp [save, Access.inTree, hwrite]; rfl)
  | false =>
    cases hlook : root.look? (path.getD defaultPath) with
    | some t =>
      simp [save, Access.inTree, hlook]
      rfl
    | none =>
      rw [if_neg (by simp)]
      cases hwrite : root.write (path.getD defaultPath) c.render <;>
        (simp [save, Access.inTree, hlook, hwrite]; rfl)

/-- Loading reads what stands where the path leads. -/
theorem load_run (root : Tree) (path : Option String) :
    (load Access.inTree path).run root =
      (match root.look? (path.getD defaultPath) with
        | none => .ok none
        | some t => (readTree t).map some, root) := by
  cases hlook : root.look? (path.getD defaultPath) <;> (simp [load, Access.inTree, hlook]; rfl)

/-- The file that a configuration was written to is read as the configuration. -/
theorem readTree_render (c : Config) : readTree (.file (some c.render)) = .ok c := by
  simp [readTree, Tree.text, c.read_render]

/-- **Configurations survive the file.** After a configuration was saved, loading answers the same
configuration, whatever texts stand in it. If saving is refused, nothing has changed; and it is only
refused because something stands there that is not to be written over, or because no file can be written
there.

**Proof sketch.** Saving writes the rendered configuration if nothing stands in the way. A tree that was
written to answers what was written (`look?_write`), and rendered configurations are read back
(`readTree_render`), which goes by the forms of quoted texts and the two layouts of arrays. Where writing is
refused the tree is answered as it was. -/
theorem load_save (root : Tree) (path : Option String) (c : Config) (overwrite : Bool) :
    match (save Access.inTree path c overwrite).run root with
    | (.ok (), root') =>
      (overwrite = true ∨ root.look? (path.getD defaultPath) = none) ∧
        (load Access.inTree path).run root' = (.ok (some c), root')
    | (.error failure, root') =>
      root' = root ∧
        (failure = .exists (path.getD defaultPath) ∧ overwrite = false ∧
            (root.look? (path.getD defaultPath)).isSome = true ∨
          (∃ refusal, failure = .refused refusal) ∧ ¬ root.Writable (path.getD defaultPath)) := by
  rw [save_run]
  by_cases hexists : overwrite = false ∧ (root.look? (path.getD defaultPath)).isSome = true
  · rw [if_pos hexists]
    exact ⟨rfl, .inl ⟨rfl, hexists⟩⟩
  · rw [if_neg hexists]
    cases hwrite : root.write (path.getD defaultPath) c.render with
    | ok root' =>
      have hfree : overwrite = true ∨ root.look? (path.getD defaultPath) = none := by
        cases overwrite <;> simp_all
      refine ⟨hfree, ?_⟩
      rw [load_run, Tree.look?_write hwrite]
      simp [readTree_render, Except.map]
    | error refusal =>
      refine ⟨rfl, .inr ⟨⟨refusal, rfl⟩, fun hwritable => ?_⟩⟩
      obtain ⟨root', hroot'⟩ := Tree.exists_write hwritable c.render
      exact absurd (hwrite.symm.trans hroot') (by simp)

end ProgramGraph.ConfigFile
