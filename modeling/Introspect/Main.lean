import Introspect.Command.Console
import Introspect.Json.Reader
import Introspect.CompilationUnit.Description

/-! The program. Files at or below the working directory are taken up as a tree, the command
works on the tree, and what it changed is put back. The report of the compiler front end comes
from standard input. -/
namespace Introspect.Program

def named (place : List String) : String := (Path.absolute place).toString

/-- Takes up an entry of a directory with all that lies below it. Files that are not text are left
alone. -/
partial def load (above : List String) (t : FileTree) (entry : IO.FS.DirEntry) :
    IO FileTree := do
  let place := above ++ [entry.fileName]
  if ← entry.path.isDir then
    (← entry.path.readDir).foldlM (load place) ⟨t.nodes.insert place .directory⟩
  else
    try
      return ⟨t.nodes.insert place (.file (← IO.FS.readFile entry.path))⟩
    catch _ => return t

/-- Puts back what differs between two trees. -/
def store (before after : FileTree) : IO Unit := do
  for (place, _) in before.nodes.entries.reverse do
    if (after.find? place).isNone then
      if before.isDirectory place then
        try IO.FS.removeDir (named place) catch _ => pure ()
      else IO.FS.removeFile (named place)
  for (place, node) in after.nodes.entries do
    match node with
    | .directory => if (before.find? place).isNone then IO.FS.createDirAll (named place)
    | .file text =>
      unless before.text? place == some text do
        IO.FS.createDirAll (named place.dropLast)
        IO.FS.writeFile (named place) text

/-- The front end of a report on standard input; for commands that need none, an empty one. -/
def frontEnd (site : Site) (words : List String) : IO FrontEnd := do
  match words with
  | "file" :: _ =>
    let text ← (← IO.getStdin).readToEnd
    return Description.frontEndOf site.cwd ((Json.parse? text).getD .null)
  | _ => return Description.frontEndOf site.cwd .null

/-- The home directories of the users of the system. -/
def accounts : IO (List (String × Path)) := do
  try
    return Site.accountsOf (← IO.FS.readFile "/etc/passwd")
  catch _ => return []

/-- Runs a command line on the files of the working directory. -/
def run (words : List String) : IO UInt32 := do
  let directory ← IO.currentDir
  let cwd := (Path.ofString directory.toString).parts
  let site : Site := ⟨cwd, Path.ofString ((← IO.getEnv "HOME").getD "/"), ← accounts⟩
  let above := (FileTree.above cwd ++ [cwd]).foldl
    (fun t p => ⟨t.nodes.insert p .directory⟩) FileTree.empty
  let tree ← (← directory.readDir).foldlM (load cwd) above
  let (outcome, w) := Command.run (← frontEnd site words) words (.start site tree)
  store tree w.tree
  outcome.output.forM fun p => p.lines.forM IO.println
  outcome.errors.forM IO.eprintln
  outcome.logLevels.forM fun l => (Command.eventLines l w.events).forM IO.eprintln
  match outcome.failure with
  | some e => IO.eprintln e.message
  | none => pure ()
  return outcome.exitCode.toUInt32

end Introspect.Program

/-- Runs the command line that the program was started with. -/
def main (words : List String) : IO UInt32 := Introspect.Program.run words
