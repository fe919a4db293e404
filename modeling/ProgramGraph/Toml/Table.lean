import ProgramGraph.Toml.Value

set_option autoImplicit false

/-!
# Putting tables together

A text defines its tables piece by piece: a header opens a table, an assignment adds a value to the
table that is open, and a key of several parts reaches through tables that need not have been
defined. No table is defined twice, and none is extended in another way than it was defined.

## Main definitions

* `ProgramGraph.Toml.Node` — what stands under a key so far.
* `ProgramGraph.Toml.assign` — adds a value under a key of several parts.
* `ProgramGraph.Toml.openTable`, `ProgramGraph.Toml.appendTable` — what headers do.
* `ProgramGraph.Toml.Statement`, `ProgramGraph.Toml.tableOf` — the table that statements define.
-/

namespace ProgramGraph.Toml

/-! ## Tables under construction -/

/-- How a table came about. -/
inductive Origin where
  /-- By its own header. -/
  | header
  /-- By the header of a table inside of it. -/
  | implied
  /-- By a key of several parts. -/
  | dotted
deriving DecidableEq, Repr

/-- What stands under a key so far. -/
inductive Node where
  /-- A value, which nothing is added to. -/
  | value (v : Value)
  /-- A table. -/
  | table (origin : Origin) (entries : List (String × Node))
  /-- An array of tables with headers of their own, the latest first. -/
  | series (latest : List (String × Node)) (earlier : List (List (String × Node)))

/-- The entries of a table, in the order of their definition. -/
abbrev Entries := List (String × Node)

/-- The entries with another node under a key that is there. -/
def Entries.replace (entries : Entries) (key : String) (node : Node) : Entries :=
  entries.map fun entry => if entry.1 = key then (key, node) else entry

/-- Adds a value under a key of several parts. The flag says whether values may be added to the
table itself, and not just to tables inside of it. -/
def assign (v : Value) : Bool → List String → Entries → Option Entries
  | _, [], _ => none
  | isOpen, [key], entries =>
    if isOpen && (entries.lookup key).isNone then some (entries ++ [(key, .value v)]) else none
  | _, key :: next :: rest, entries =>
    match entries.lookup key with
    | none => (assign v true (next :: rest) []).map fun inner =>
        entries ++ [(key, .table .dotted inner)]
    | some (.table .dotted inner) => (assign v true (next :: rest) inner).map fun inner =>
        entries.replace key (.table .dotted inner)
    | some (.table .implied inner) => (assign v false (next :: rest) inner).map fun inner =>
        entries.replace key (.table .implied inner)
    | some (.series latest earlier) => (assign v false (next :: rest) latest).map fun latest =>
        entries.replace key (.series latest earlier)
    | some (.table .header _) | some (.value _) => none

/-- Changes the table under a path of keys, where tables that are missing are implied. -/
def within (change : Entries → Option Entries) : List String → Entries → Option Entries
  | [], entries => change entries
  | key :: rest, entries =>
    match entries.lookup key with
    | none => (within change rest []).map fun inner => entries ++ [(key, .table .implied inner)]
    | some (.table origin inner) => (within change rest inner).map fun inner =>
        entries.replace key (.table origin inner)
    | some (.series latest earlier) => (within change rest latest).map fun latest =>
        entries.replace key (.series latest earlier)
    | some (.value _) => none

/-- Defines the table under a key. -/
def openKey (key : String) (entries : Entries) : Option Entries :=
  match entries.lookup key with
  | none => some (entries ++ [(key, .table .header [])])
  | some (.table .implied inner) => some (entries.replace key (.table .header inner))
  | _ => none

/-- Begins another table in the array under a key. -/
def appendKey (key : String) (entries : Entries) : Option Entries :=
  match entries.lookup key with
  | none => some (entries ++ [(key, .series [] [])])
  | some (.series latest earlier) => some (entries.replace key (.series [] (latest :: earlier)))
  | _ => none

/-- Defines the table under a path. -/
def openTable (path : List String) (entries : Entries) : Option Entries := do
  within (openKey (← path.getLast?)) path.dropLast entries

/-- Begins another table in the array under a path. -/
def appendTable (path : List String) (entries : Entries) : Option Entries := do
  within (appendKey (← path.getLast?)) path.dropLast entries

/-! ## Finished tables -/

mutual

/-- The value of a node. -/
def Node.toValue : Node → Value
  | .value v => v
  | .table _ entries => .table (valuesOf entries)
  | .series latest earlier => .array (tablesOf earlier ++ [.table (valuesOf latest)])

/-- The values of entries. -/
def valuesOf : List (String × Node) → List (String × Value)
  | [] => []
  | (key, node) :: rest => (key, node.toValue) :: valuesOf rest

/-- The values of tables of which the latest comes first, in the order of their definition. -/
def tablesOf : List (List (String × Node)) → List Value
  | [] => []
  | entries :: rest => tablesOf rest ++ [.table (valuesOf entries)]

end

/-! ## Statements -/

/-- A statement of a text. -/
inductive Statement where
  /-- Opens a table. -/
  | table (path : List String)
  /-- Opens another table of an array. -/
  | element (path : List String)
  /-- Adds a value to the table that is open. -/
  | assignment (path : List String) (v : Value)

/-- The tables so far, and the path of the one that is open. -/
structure Assembly where
  entries : Entries := []
  path : List String := []

/-- The tables after a statement. -/
def Assembly.add (a : Assembly) : Statement → Option Assembly
  | .table path => (openTable path a.entries).map fun entries => { entries, path }
  | .element path => (appendTable path a.entries).map fun entries => { entries, path }
  | .assignment path v =>
    (within (assign v true path) a.path a.entries).map fun entries => { a with entries }

/-- The table that statements define. -/
def tableOf (statements : List Statement) : Option (List (String × Value)) :=
  (statements.foldlM Assembly.add {}).map fun a => valuesOf a.entries

/-- The table that assignments between braces define. -/
def inlineTable (assignments : List (List String × Value)) : Option (List (String × Value)) :=
  (assignments.foldlM (fun entries (path, v) => assign v true path entries) []).map valuesOf

end ProgramGraph.Toml
