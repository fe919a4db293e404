import ProgramGraph.Text.Split

set_option autoImplicit false

/-!
# Trees of files

Directories with their entries, and files with their texts. A path leads from one directory of a
tree to another one, or to a file. It leads upwards where it has two dots, but never out of the
tree.

## Main definitions

* `ProgramGraph.Files.Tree` — a file or a directory.
* `ProgramGraph.Files.Tree.locate?` — the names on the way to where a path leads.
* `ProgramGraph.Files.Tree.look?` — what stands where a path leads.
* `ProgramGraph.Files.Tree.around` — the directories above that place.
* `ProgramGraph.Files.Tree.write` — the tree with another text where a path leads.
* `ProgramGraph.Files.Access` — looking at files and writing them.

## Main results

* `ProgramGraph.Files.Tree.get?_put` — a file that was put somewhere is there.
-/

namespace ProgramGraph.Files

/-! ## Trees -/

/-- A file or a directory. -/
inductive Tree where
  /-- A file with its text, which is missing if the file does not hold a text. -/
  | file (text : Option String)
  /-- A directory with the names of its entries. -/
  | directory (entries : List (String × Tree))

/-- A directory above another place. -/
structure Enclosing where
  /-- The names on the way from the directory to the place. -/
  way : List String
  /-- The entries of the directory. -/
  entries : List (String × Tree)

/-- Why a file can be neither read nor written. -/
inductive Refusal where
  /-- There is no directory for it. -/
  | missing
  /-- A directory stands in its place. -/
  | isDirectory
  /-- A file stands where its directory should. -/
  | notDirectory
  /-- The file does not hold a text. -/
  | notText
  /-- Another reason, in words. -/
  | other (reason : String)
deriving DecidableEq, Repr

/-- What is said about a refusal. -/
def Refusal.message : Refusal → String
  | .missing => "No such file or directory (os error 2)"
  | .isDirectory => "Is a directory (os error 21)"
  | .notDirectory => "Not a directory (os error 20)"
  | .notText => "stream did not contain valid UTF-8"
  | .other reason => reason

namespace Tree

/-- The empty directory. -/
def empty : Tree := .directory []

/-- Whether a tree is a directory. -/
def isDirectory : Tree → Bool
  | .directory _ => true
  | .file _ => false

/-- The text of a file. -/
def text : Tree → Except Refusal String
  | .file (some text) => .ok text
  | .file none => .error .notText
  | .directory _ => .error .isDirectory

/-- The entries of a directory. A file has none. -/
def entries : Tree → List (String × Tree)
  | .directory entries => entries
  | .file _ => []

/-- What stands at the end of a way of names. -/
def get? : List String → Tree → Option Tree
  | [], t => some t
  | name :: rest, t => do get? rest (← t.entries.lookup name)

/-- Entries with a tree under a name. -/
def setEntry (name : String) (t : Tree) : List (String × Tree) → List (String × Tree)
  | [] => [(name, t)]
  | (other, old) :: rest =>
    if other = name then (name, t) :: rest else (other, old) :: setEntry name t rest

/-- The tree with a file at the end of a way of names. Directories that are missing are made. -/
def put (text : String) : List String → Tree → Tree
  | [], _ => .file (some text)
  | name :: rest, t =>
    .directory (setEntry name (put text rest ((t.entries.lookup name).getD empty)) t.entries)

/-- Setting an entry makes it the one that is found under its name. -/
@[simp] theorem lookup_setEntry_self (name : String) (t : Tree) (entries : List (String × Tree)) :
    (setEntry name t entries).lookup name = some t := by
  induction entries with
  | nil => simp [setEntry]
  | cons entry rest ih =>
    obtain ⟨other, old⟩ := entry
    by_cases h : other = name
    · simp [setEntry, h]
    · have hne : (name == other) = false := by simpa using Ne.symm h
      simp [setEntry, h, List.lookup_cons, hne, ih]

/-- Setting an entry leaves all others as they are. -/
theorem lookup_setEntry_of_ne {name other : String} (h : other ≠ name) (t : Tree)
    (entries : List (String × Tree)) :
    (setEntry name t entries).lookup other = entries.lookup other := by
  have hne : (other == name) = false := by simpa using h
  induction entries with
  | nil => simp [setEntry, List.lookup_cons, hne]
  | cons entry rest ih =>
    obtain ⟨first, old⟩ := entry
    by_cases hf : first = name
    · subst hf
      simp [setEntry, List.lookup_cons, hne]
    · by_cases ho : other == first <;> simp [setEntry, hf, List.lookup_cons, ho, ih]

/-- A file that was put at the end of a way is there. -/
@[simp] theorem get?_put (text : String) (way : List String) (t : Tree) :
    (t.put text way).get? way = some (.file (some text)) := by
  induction way generalizing t with
  | nil => rfl
  | cons name rest ih => simp [put, get?, entries, ih]

/-! ## Paths -/

/-- The pieces of a path between its slashes. -/
def pieces (path : String) : List String := (Text.split '/' path.toList).map String.ofList

/-- Whether a piece of a path leads nowhere else. -/
def stays (piece : String) : Bool := piece = "" || piece = "."

/-- Follows the pieces of a path from the end of a way of names. -/
def follow (root : Tree) (way : List String) : List String → Option (List String)
  | [] => some way
  | piece :: rest => do
    let here ← root.get? way
    guard here.isDirectory
    if stays piece then follow root way rest
    else if piece = ".." then
      guard (way ≠ [])
      follow root way.dropLast rest
    else
      guard (here.entries.lookup piece).isSome
      follow root (way ++ [piece]) rest

/-- The names on the way to where a path leads. Absolute paths lead out of the tree. -/
def locate? (path : String) (root : Tree) : Option (List String) :=
  if path.isEmpty || path.startsWith "/" then none else follow root [] (pieces path)

/-- What stands where a path leads. -/
def look? (path : String) (root : Tree) : Option Tree := do root.get? (← root.locate? path)

/-- The directories above the end of a way of names, the nearest first. -/
def enclosing : List String → Tree → List Enclosing
  | [], _ => []
  | name :: rest, t =>
    (((t.entries.lookup name).map (enclosing rest)).getD []) ++
      [{ way := name :: rest, entries := t.entries }]

/-- The directories above the place where a path leads, the nearest first. -/
def around (path : String) (root : Tree) : List Enclosing :=
  match root.locate? path with
  | some way => enclosing way root
  | none => []

/-- The place for a file: the way to its directory, and its name. -/
def placeFor (path : String) (root : Tree) : Except Refusal (List String × String) :=
  match (pieces path).getLast? with
  | none => .error .missing
  | some name =>
    if path.isEmpty || path.startsWith "/" then .error .missing
    else if stays name || name = ".." then .error .isDirectory
    else match follow root [] (pieces path).dropLast with
      | none => .error .missing
      | some way =>
        match root.get? way with
        | some (.directory _) => .ok (way, name)
        | _ => .error .notDirectory

/-- The tree with another text where a path leads. The directory must be there. -/
def write (path text : String) (root : Tree) : Except Refusal Tree := do
  let (way, name) ← root.placeFor path
  match root.get? (way ++ [name]) with
  | some (.directory _) => .error .isDirectory
  | _ => .ok (root.put text (way ++ [name]))

end Tree

/-! ## Access -/

/-- Looking at files and writing them. -/
structure Access (m : Type → Type) where
  /-- What stands where a path leads. Of the texts in a directory only those are needed whose names
  satisfy the condition. -/
  look : (String → Bool) → String → m (Option Tree)
  /-- The directories above the place where a path leads, the nearest first. -/
  around : String → m (List Enclosing)
  /-- Writes a text where a path leads. -/
  write : String → String → m (Except Refusal Unit)

/-- Access to the files of a tree. -/
def Access.inTree : Access (StateM Tree) where
  look := fun _ path => return (← get).look? path
  around := fun path => return (← get).around path
  write := fun path text => do
    match (← get).write path text with
    | .ok t =>
      set t
      return .ok ()
    | .error refusal => return .error refusal

end ProgramGraph.Files
