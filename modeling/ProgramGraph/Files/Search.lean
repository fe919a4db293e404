import ProgramGraph.Files.Ignoring
import ProgramGraph.Files.Path

set_option autoImplicit false

/-!
# Searching directories

All files in and below a directory that are not ignored. A directory that is ignored is not
entered, so nothing in it can be exempt. The place where the search begins is never ignored.

## Main definitions

* `ProgramGraph.Files.Found` — a file that was found.
* `ProgramGraph.Files.Tree.search` — the files in a tree.
* `ProgramGraph.Files.collect` — the files at or below a path, in the order of their paths.
-/

namespace ProgramGraph.Files

/-- A file that was found. -/
structure Found where
  /-- The path that leads to it. -/
  path : String
  /-- Its text, if it holds one. -/
  text : Option String
deriving DecidableEq, Repr

/-- The layer for an entry of the directory that is looked at. -/
def Layer.enter (name : String) (layer : Layer) : Layer :=
  { layer with way := layer.way ++ [name] }

mutual

/-- The files in a tree that stands at a path, with the layers of the directories above. -/
def Tree.search (path : String) (layers : List Layer) : Tree → List Found
  | .file text => [{ path, text }]
  | .directory entries => searchEntries path (Layer.of [] entries :: layers) entries

/-- The files in some entries of the directory at a path, with the layers of that directory and of
those above. -/
def searchEntries (path : String) (layers : List Layer) : List (String × Tree) → List Found
  | [] => []
  | (name, t) :: rest =>
    let found :=
      if isIgnored layers name t.isDirectory then []
      else t.search (Path.join path name) (layers.map (Layer.enter name))
    found ++ searchEntries path layers rest

end

/-- The files at or below a path, in the order of their paths. Below a directory only those count
whose paths are wanted; a file itself always counts. -/
def collect (wanted : String → Bool) (path : String) (around : List Enclosing) (t : Tree) :
    List Found :=
  match t with
  | .file text => [{ path, text }]
  | .directory _ =>
    let layers := around.map fun above => Layer.of above.way above.entries
    let found := (t.search path layers).filter fun file => wanted file.path
    found.mergeSort fun a b => Path.le a.path b.path

end ProgramGraph.Files
