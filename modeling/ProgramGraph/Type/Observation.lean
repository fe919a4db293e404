import ProgramGraph.Type.Join
import ProgramGraph.Type.Parse

set_option autoImplicit false

/-!
# Observed types

A type is observed together with an origin, which says how it came to be known. The origin takes
no part in comparing types: a set of observed types holds every type once, with the origin it was
first observed with.

## Main definitions

* `ProgramGraph.Origin` — how a type came to be known.
* `ProgramGraph.Observation` — a type and its origin.
* `ProgramGraph.TypeSet` — a set of observed types, in order of first observation.
* `ProgramGraph.TypeSet.insert`, `ProgramGraph.TypeSet.insertAll` — adding observations.
* `ProgramGraph.TypeSet.join?` — the join of the types of a set.

## Main results

* `ProgramGraph.TypeSet.types_insert` — what an insertion does to the types of a set.
-/

namespace ProgramGraph

/-- How a type came to be known. -/
inductive Origin where
  /-- Spelled out, or given by a symbol solver. -/
  | resolved
  /-- Found by following the flow of data. -/
  | dataflow
  /-- Guessed, for instance from a name. -/
  | guessed
  /-- Nothing is known. -/
  | unresolved
deriving DecidableEq, Repr

/-- The word an origin is shown with. -/
def Origin.label : Origin → String
  | .resolved => "resolved"
  | .dataflow => "dataflow"
  | .guessed => "guessed"
  | .unresolved => "unresolved"

/-- A type together with its origin. -/
structure Observation where
  /-- The type. -/
  type : Descriptor
  /-- How it came to be known. -/
  origin : Origin := .unresolved
deriving DecidableEq, Repr

/-- The observation that says nothing. -/
def Observation.unknown : Observation := { type := .unknown }

/-- The type spelled by a text, known from its spelling. -/
def Observation.spelled (text : String) : Observation :=
  { type := .parse text, origin := .resolved }

/-- The type spelled by a text, if there is one, and otherwise nothing. -/
def Observation.ofText? : Option String → Observation
  | some text => .spelled text
  | none => .unknown

/-- A set of observed types: no type stands in it twice. -/
structure TypeSet where
  /-- The members, in order of first observation. -/
  observations : List Observation
  /-- No type is held twice. -/
  distinct : (observations.map Observation.type).Nodup
deriving DecidableEq

namespace TypeSet

/-- The set without members. -/
def empty : TypeSet := ⟨[], .nil⟩

/-- The set without members. -/
instance : EmptyCollection TypeSet := ⟨empty⟩

/-- The set without members, in case any set will do. -/
instance : Inhabited TypeSet := ⟨empty⟩

/-- The types of a set, in order of first observation. -/
def types (s : TypeSet) : List Descriptor := s.observations.map Observation.type

/-- The number of types. -/
def size (s : TypeSet) : Nat := s.observations.length

/-- Adds an observation; a type that is there already keeps its first origin. -/
def insert (s : TypeSet) (o : Observation) : TypeSet :=
  if h : o.type ∈ s.types then s
  else
    { observations := s.observations ++ [o]
      distinct := by
        have hs : (s.observations.map Observation.type).Nodup := s.distinct
        rw [List.map_append, List.nodup_append]
        refine ⟨hs, by simp, ?_⟩
        rintro a ha b hb rfl
        have : a = o.type := by simpa using hb
        exact h (this ▸ ha) }

/-- Adds observations one after the other. -/
def insertAll (s : TypeSet) (os : List Observation) : TypeSet :=
  os.foldl insert s

/-- The set of the types observed in a list. -/
def ofList (os : List Observation) : TypeSet := empty.insertAll os

/-- The join of the types, with the origin of the first one unless they are joined to the unknown
type for lack of a common shape. -/
def join? (s : TypeSet) : Option Observation :=
  match s.observations with
  | [] => none
  | first :: rest =>
    (Descriptor.common? s.types).map fun type =>
      { type
        origin := if rest.all fun o => first.type.sameShape o.type then first.origin
          else .unresolved }

/-- **Insertion on the types.** A new type goes to the end, a known one changes nothing. -/
theorem types_insert (s : TypeSet) (o : Observation) :
    (s.insert o).types = if o.type ∈ s.types then s.types else s.types ++ [o.type] := by
  unfold insert
  split <;> simp [types]

end TypeSet

end ProgramGraph
