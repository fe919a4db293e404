import ProgramGraph.Command.Run

set_option autoImplicit false

/-!
# The program

Reads the command line, gets at the files on disk, and prints.
-/

namespace ProgramGraph.Main

open Files

/-- Whether anything stands at a path on disk. -/
def isThere (path : String) : IO Bool := do
  try
    let _ ← IO.FS.realPath path
    return true
  catch _ => return false

/-- The text of a file on disk, if it holds one. -/
def textAt (path : String) : IO (Option String) := do
  try return String.fromUTF8? (← IO.FS.readBinFile path)
  catch _ => return none

/-- What stands at a path on disk, with the texts of the files whose names satisfy a condition.
Links inside of directories are left out. -/
partial def treeAt (relevant : String → Bool) (path : String) : IO Tree := do
  let here ← IO.FS.realPath path
  unless ← here.isDir do return .file (← textAt path)
  let mut entries : List (String × Tree) := []
  for entry in ← here.readDir do
    let name := entry.fileName
    match (← entry.path.symlinkMetadata).type with
    | .dir => entries := (name, ← treeAt relevant (Path.join path name)) :: entries
    | .file =>
      let text ← if relevant name then textAt (Path.join path name) else pure none
      entries := (name, .file text) :: entries
    | _ => pure ()
  return .directory entries

/-- What stands at a path on disk, if anything does. -/
def lookAt (relevant : String → Bool) (path : String) : IO (Option Tree) := do
  if ← isThere path then return some (← treeAt relevant path) else return none

/-- The entries of a directory on disk that matter to the directories below it. -/
def listsIn (directory : String) : IO (List (String × Tree)) := do
  let mut entries : List (String × Tree) := []
  for name in [".ignore", ".gitignore", ".git"] do
    if ← isThere (Path.join directory name) then
      entries := (name, .file (← textAt (Path.join directory name))) :: entries
  return entries

/-- The directories on disk above a path, the nearest first. -/
def aroundAt (path : String) : IO (List Enclosing) := do
  let names := (Tree.pieces (toString (← IO.FS.realPath path))).filter (· ≠ "")
  (List.range names.length).reverse.mapM fun i => do
    return { way := names.drop i, entries := ← listsIn ("/" ++ "/".intercalate (names.take i)) }

/-- Writes a text to a path on disk. -/
def writeAt (path text : String) : IO (Except Refusal Unit) := do
  try
    IO.FS.writeFile path text
    return .ok ()
  catch e => return .error (.other (toString e))

/-- Access to the files on disk. -/
def onDisk : Access IO where
  look := lookAt
  around := aroundAt
  write := writeAt

/-- Prints what a command leaves behind, and answers its exit code. -/
def report (theme : Terminal.Theme) (outcome : Command.Outcome) : IO UInt32 := do
  IO.print outcome.output
  for file in outcome.skipped do
    IO.eprintln (theme.warningLine s!"Skipping {file.path}: {file.reason}")
  if let some failure := outcome.failure then
    IO.eprintln s!"Error: {failure.message}"
  return outcome.code.toUInt32

end ProgramGraph.Main

open ProgramGraph

/-- The program. -/
def main (arguments : List String) : IO UInt32 := do
  let theme := if ← (← IO.getStdout).isTty then Terminal.Theme.colored else .plain
  match Command.parse arguments with
  | .error misuse =>
    IO.eprintln s!"error: {misuse.message}"
    return 2
  | .ok .version =>
    IO.println Command.versionText
    return 0
  | .ok (.help command) =>
    IO.println (Command.helpText command)
    return 0
  | .ok (.run command) => Main.report theme (← Command.run Main.onDisk theme command)
