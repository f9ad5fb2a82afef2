import Introspect.Diagnostic
import Introspect.CompilationUnit.Basic
import Introspect.Workspace

/-! The compiler front end as a run meets it. -/
namespace Introspect

/-- The answer of a front end: a unit and complaints. One that reads the input itself wants it
to be there and reports that it parses. -/
structure FrontEnd where
  unit : CompilationUnit
  diagnostics : List Diagnostic
  readsInput : Bool

/-- Parses an input file. The request is noted whatever comes of it. -/
def FrontEnd.parse (f : FrontEnd) (input : Path) (arguments : List String) :
    Job CompilationUnit := do
  modify fun w => { w with requests := w.requests ++ [⟨input, arguments⟩] }
  if f.readsInput then
    unless ← Job.isPresent input do
      throw (.missingInput input)
    Job.report [.parsing input arguments]
  return f.unit

end Introspect
