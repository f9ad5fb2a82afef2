import Introspect.Annotation
import Introspect.Comment
import Introspect.Event
import Introspect.Registry.Basic
import Introspect.CompilationUnit.Basic

/-! What a walk over a compilation unit starts from and what it has done so far. -/
namespace Introspect.Reflection

/-- The unit that is walked and the settings of the walk. Declarations outside the module
directory are not looked at. -/
structure Context where
  unit : CompilationUnit
  cwd : List String
  moduleDirectory : Path
  marker : String
  bodyMarker : String

/-- The records so far, the declaration that each named type was first resolved from, the
template arguments that each class gives to each of its generic bases, and what was reported. -/
structure Progress where
  registry : Registry
  origins : Table String CursorId
  baseArguments : Table (String × String) (List CppType)
  events : List Event

def Progress.start (r : Registry) : Progress := ⟨r, .empty, .empty, []⟩

instance : Inhabited Progress := ⟨.start default⟩

/-- A step of the walk. What was done before a failure stays done. -/
abbrev Walk := EStateM Failure Progress

namespace Walk

/-- Changes the registry, or fails and leaves it as it was. -/
def update (f : Registry → Except Failure Registry) : Walk Unit := do
  let p ← get
  match f p.registry with
  | .ok r => set { p with registry := r }
  | .error e => throw e

def report (e : Event) : Walk Unit :=
  modify fun p => { p with events := p.events ++ [e] }

def registry : Walk Registry := do return (← get).registry

end Walk

namespace Context
variable (c : Context)

/-- The metadata of a declaration: its place, its annotations and its comment. -/
def metadata (d : Cursor) : Metadata :=
  let m := Metadata.bare (d.file.getD default) d.line
  { m.annotateAll c.marker (c.unit.annotations d) with comment := d.comment.bind Comment.clean }

/-- The metadata of a declaration that is marked for reflection. -/
def reflected? (d : Cursor) : Option Metadata :=
  let m := c.metadata d
  if m.isReflected then some m else none

/-- Whether a declaration is in a known file inside the module directory. -/
def isInModule (d : Cursor) : Bool :=
  d.file.any fun f => f.isWithin c.cwd c.moduleDirectory

end Context
end Introspect.Reflection
