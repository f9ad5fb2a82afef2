import Introspect.GeneratedPath
import Introspect.Settings.Basic
import Introspect.Store.Basic

/-! The registry files of a module, and what they are together. -/
namespace Introspect.Store

/-- The registry files below a directory, in the order of their paths. -/
def find (output : Path) : Job (List Path) := do
  return (← Job.search output ("*" ++ GeneratedPath.registryExtension)).mergeSort Path.le

/-- The file that a generated file belongs to, if it is there. -/
def sourceOf? (generated moduleDirectory output : Path) (extension : String)
    (sourceExtensions : List String) : Job (Option Path) := do
  Job.requireKnown generated
  let cwd ← Job.cwd
  if (GeneratedPath.stemOf? (generated.resolve cwd).name extension).isSome then
    Job.requireKnown output
  let candidates :=
    GeneratedPath.candidates cwd generated moduleDirectory output extension sourceExtensions
  candidates.findM? fun p => do
    Job.requireKnown moduleDirectory
    Job.requireKnown p
    Job.isPresent p

def aggregatePath (moduleName : String) (output : Path) : Path :=
  output.child (moduleName ++ GeneratedPath.registryExtension)

/-- What is collected: the files of a module by their extensions, into registries with a hash,
strictly or not. -/
structure Collection where
  moduleName : String
  moduleDirectory : Path
  output : Path
  sourceExtensions : List String
  hash : NameHash
  strict : Bool

/-- Adds one registry file to what was collected. The registry of the module itself is passed
over, and one whose source file is gone is removed. -/
def collectFile (c : Collection) (r : Registry) (file : Path) : Job Registry := do
  let cwd ← Job.cwd
  if file.sameAs cwd (aggregatePath c.moduleName c.output) then return r
  let extensions := c.sourceExtensions ++ GeneratedPath.implementationExtensions
  match ← sourceOf? file c.moduleDirectory c.output GeneratedPath.registryExtension extensions with
  | none =>
    Job.report [.staleRegistryRemoved file]
    Job.remove file
    return r
  | some _ =>
    let stored ← read file c.hash Settings.defaultPatience
    match r.merge stored c.strict with
    | (merged, none) => return merged
    | (_, some e) => throw e

/-- The registries of all files of a module together, later paths over earlier ones. -/
def collect (c : Collection) : Job Registry := do
  Job.requireKnown (aggregatePath c.moduleName c.output)
  (← find c.output).foldlM (collectFile c) (Registry.empty c.hash)

end Introspect.Store
