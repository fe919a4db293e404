import ProgramGraph.Document.Build
import ProgramGraph.Document.Decode
import ProgramGraph.Error
import ProgramGraph.Files.Path

set_option autoImplicit false

/-!
# Front ends

A front end turns files of one language into compilation units. Which front end is in charge of a
file is decided by the extension of its path; at present there is one, for unit documents.

## Main definitions

* `ProgramGraph.Frontend` — a front end, and `ProgramGraph.Frontend.all`.
* `ProgramGraph.Frontend.forPath?` — the front end in charge of a path.
* `ProgramGraph.parseInto` — handing a file to the front end in charge of it.
* `ProgramGraph.parseFile` — the unit of a file.

## Design

A front end that fails leaves a graph behind as well, which need not be the one it was given. So
what it answers and the graph it leaves are a pair, and not a choice between the two.
-/

namespace ProgramGraph

/-- A front end. -/
structure Frontend where
  /-- The language it reads. -/
  language : String
  /-- The extensions of the files it is in charge of. -/
  extensions : List String
  /-- Adds the unit of a file to a graph, from the path and the contents of the file: the unit, or
  why there is none, and the graph that is left behind. -/
  parse : String → String → Graph → Except Error NodeId × Graph

namespace Frontend

/-- The front end for unit documents. -/
def document : Frontend where
  language := "Document"
  extensions := ["json"]
  parse := fun path contents g =>
    match Document.read contents with
    | .ok d => let (unit, g) := d.build path g; (.ok unit, g)
    | .error failure => (.error (.notADocument path failure), g)

/-- All front ends. -/
def all : List Frontend := [document]

/-- Whether a front end is in charge of a path. -/
def handles (frontend : Frontend) (path : String) : Bool :=
  (Path.extension? path).any fun extension => frontend.extensions.contains extension

/-- The first front end that is in charge of a path. -/
def forPath? (path : String) : Option Frontend := all.find? fun frontend => frontend.handles path

end Frontend

/-- Hands a file to the front end in charge of its path: the unit, if there is a front end, or why it
failed, and the graph that is left behind. -/
def parseInto (path contents : String) (g : Graph) : Except Error (Option NodeId) × Graph :=
  match Frontend.forPath? path with
  | some frontend => let (unit, g) := frontend.parse path contents g; (unit.map some, g)
  | none => (.ok none, g)

/-- Adds the unit of a file to a graph. There is none if no front end is in charge of the path. -/
def parseFile (path contents : String) (g : Graph) : Except Error (Option NodeId × Graph) :=
  let (outcome, g) := parseInto path contents g
  outcome.map fun unit? => (unit?, g)

end ProgramGraph
