import ProgramGraph.Text.Split

set_option autoImplicit false

/-!
# Paths

A path is a text with slashes between its components. Repeated and trailing slashes do not count,
and neither do dots, except for a leading one. Paths are ordered component by component, so a
directory comes before everything whose name merely begins like its own.

## Main definitions

* `ProgramGraph.Path.Component` — a component, with its order.
* `ProgramGraph.Path.components` — the components of a path.
* `ProgramGraph.Path.extension?` — the part of the last name behind its last dot.
* `ProgramGraph.Path.le` — the order of paths.
* `ProgramGraph.Path.join` — a path inside a directory.
-/

namespace ProgramGraph.Path

/-- A component of a path. -/
inductive Component where
  /-- The root, at the start of an absolute path. -/
  | root
  /-- The directory itself, at the start of a relative path. -/
  | current
  /-- The directory above. -/
  | parent
  /-- A name. -/
  | name (s : String)
deriving DecidableEq, Repr

/-- The place of a sort of component in the order. -/
def Component.rank : Component → Nat
  | .root => 0
  | .current => 1
  | .parent => 2
  | .name _ => 3

/-- Whether a component comes before another: names by code points, all others by their sort. -/
def Component.lt : Component → Component → Bool
  | .name a, .name b => a < b
  | a, b => a.rank < b.rank

/-- The component for a piece behind the start of a path. -/
def component? (piece : List Char) : Option Component :=
  if piece = [] || piece = ['.'] then none
  else if piece = ['.', '.'] then some .parent
  else some (.name (String.ofList piece))

/-- The components of a path. -/
def components (path : String) : List Component :=
  match Text.split '/' path.toList with
  | [] => []
  | first :: rest =>
    let start := if first = [] && rest ≠ [] then [.root]
      else if first = ['.'] then [.current]
      else (component? first).toList
    start ++ rest.filterMap component?

/-- The last component of a path, if it is a name. -/
def fileName? (path : String) : Option String :=
  match (components path).getLast? with
  | some (.name s) => some s
  | _ => none

/-- The part of the last name behind its last dot, unless that dot is all it starts with. -/
def extension? (path : String) : Option String := do
  let name ← fileName? path
  let reversed := name.toList.reverse
  match reversed.dropWhile (· ≠ '.') with
  | _ :: _ :: _ => some (String.ofList (reversed.takeWhile (· ≠ '.')).reverse)
  | _ => none

/-- Whether components come before others or are the same. -/
def leComponents : List Component → List Component → Bool
  | [], _ => true
  | _ :: _, [] => false
  | a :: as, b :: bs => a.lt b || (a == b && leComponents as bs)

/-- Whether a path comes before another or is the same. -/
def le (a b : String) : Bool := leComponents (components a) (components b)

/-- A path inside a directory. -/
def join (directory path : String) : String :=
  if directory.isEmpty then path
  else if directory.endsWith "/" then directory ++ path
  else directory ++ "/" ++ path

end ProgramGraph.Path
