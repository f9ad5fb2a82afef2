import Introspect.Document.Decode
import Introspect.Registry.Merge
import Introspect.Store.Attempt
import Introspect.Workspace

/-! Registry files: reading, writing, and adding to what is there. -/
namespace Introspect.Store

/-- Opens a file with patience, where every try has the same outcome. A path that the system
cannot know fails at the first one. -/
def opened {α : Type} (path : Path) (patience : Patience) (outcome : Except SystemFault α) :
    Job α := do
  if 0 < patience.attempts then Job.requireKnown path
  let trial := tryOpen path patience fun _ => outcome
  Job.report trial.events
  Job.ofExcept trial.result

/-- The text of a file that may be held by something else. -/
def readText (path : Path) (patience : Patience) : Job String := do
  let w ← get
  let text ← opened path patience (w.tree.read w.site.cwd path)
  return String.ofList (Text.unifyNewlines text.toList)

/-- A fault of the file at a path says so. -/
def locate (path : Path) : Failure → Failure
  | .registryFile f => .registryFile (.inFile path f)
  | e => e

def read (path : Path) (hash : NameHash) (patience : Patience) : Job Registry := do
  let text ← readText path patience
  match Document.ofText hash text with
  | .ok r => return r
  | .error e => throw (locate path e)

def indentation : String := Json.blanks 2

/-- Puts a registry into a file, in directories created where needed. -/
def write (path : Path) (r : Registry) (patience : Patience) : Job Unit := do
  Job.makeDirectory path.parent
  let text := Document.toText r (some indentation)
  let w ← get
  let tree ← opened path patience (w.tree.write w.site.cwd path text)
  Job.adjust fun _ => tree

/-- Adds a registry to the one in a file, over whose records its own win, and answers with
both together. A missing file counts as empty. -/
def append (path : Path) (r : Registry) (patience : Patience) : Job Registry := do
  let stored ←
    if ← Job.isPresent path then read path r.hash patience
    else pure (Registry.empty r.hash)
  let combined := ((Registry.empty r.hash).union stored).union r
  write path combined patience
  return combined

end Introspect.Store
