import Introspect.Event
import Introspect.FileTree
import Introspect.FileTree.Pattern
import Introspect.Site
import Introspect.Text.Lines

/-! Work on a file tree: its state, and the operations on files by path. -/
namespace Introspect

/-- What the compiler front end was asked to parse. -/
structure ParseRequest where
  path : Path
  arguments : List String
deriving DecidableEq, Repr

/-- The files, what was reported, and what the front end was asked for. -/
structure Workspace where
  site : Site
  tree : FileTree
  events : List Event
  requests : List ParseRequest

def Workspace.start (site : Site) (tree : FileTree) : Workspace := ⟨site, tree, [], []⟩

instance : Inhabited Workspace := ⟨.start ⟨[], default, []⟩ default⟩

/-- A step of work. What was done before a failure stays done. -/
abbrev Job := EStateM Failure Workspace

namespace Job

def cwd : Job (List String) := do return (← get).site.cwd

def report (es : List Event) : Job Unit :=
  modify fun w => { w with events := w.events ++ es }

def ofExcept {α : Type} : Except Failure α → Job α
  | .ok a => return a
  | .error e => throw e

def ofSystem {α : Type} : Except SystemFault α → Job α
  | .ok a => return a
  | .error e => throw (.system e)

/-- Refuses a path that the system cannot know. -/
def requireKnown (p : Path) : Job Unit := ofExcept p.requireKnown

/-- Changes the file tree, or fails and leaves it as it was. -/
def change (f : FileTree → List String → Except SystemFault FileTree) : Job Unit := do
  let w ← get
  let tree ← ofSystem (f w.tree w.site.cwd)
  set { w with tree }

/-- Changes the file tree in a way that cannot fail. -/
def adjust (f : FileTree → FileTree) : Job Unit := modify fun w => { w with tree := f w.tree }

def isThere (test : Node → Bool) (p : Path) : Job Bool := do
  if p.hasNull then return false
  let w ← get
  ofSystem (w.tree.isThere test w.site.cwd p)

def isPresent (p : Path) : Job Bool := isThere (fun _ => true) p

def isDirectory (p : Path) : Job Bool := isThere (· == .directory) p

/-- The text of a file, with every line end read as a line feed. -/
def readText (p : Path) : Job String := do
  requireKnown p
  let w ← get
  let text ← ofSystem (w.tree.read w.site.cwd p)
  return String.ofList (Text.unifyNewlines text.toList)

def writeText (p : Path) (text : String) : Job Unit := do
  requireKnown p
  change fun t cwd => t.write cwd p text

/-- Creates a directory and all missing ones above it. -/
def makeDirectory (p : Path) : Job Unit := do
  requireKnown p
  let w ← get
  let (tree, fault) := w.tree.makeDirectory w.site.cwd p
  set { w with tree }
  match fault with
  | some fault => throw (.system fault)
  | none => return

def remove (p : Path) : Job Unit := do
  requireKnown p
  change fun t cwd => t.remove cwd p

/-- The paths below a directory whose names fit a pattern. -/
def search (directory : Path) (pattern : String) : Job (List Path) := do
  unless ← isDirectory directory do
    return []
  let w ← get
  let place ← ofSystem (w.tree.locate w.site.cwd directory)
  return (w.tree.search place pattern).map fun q =>
    { directory with parts := directory.parts ++ q.drop place.length }

/-- The paths below a directory that fit a pattern. -/
def select (directory : Path) (pattern : PathPattern) : Job (List Path) := do
  unless ← isDirectory directory do
    return []
  let w ← get
  ofSystem (w.tree.select w.site.cwd directory pattern)

end Job
end Introspect
