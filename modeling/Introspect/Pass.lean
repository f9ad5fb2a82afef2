import Introspect.Emission.ModuleCode
import Introspect.FrontEnd
import Introspect.Reflection.Declare
import Introspect.Store.Collect

/-! The two passes over a module: one for every file, and one for the module as a whole. -/
namespace Introspect.Pass

variable (s : Settings)

def outputPath (source : Path) (extension : String) : Job Path := do
  return GeneratedPath.ofSource (← Job.cwd) source s.moduleDirectory s.outputDirectory extension

/-- The headers of the module with a given extension, those in the output directory left out. The
extension is the end of a pattern for paths. -/
def headers (extension : String) : Job (List Path) := do
  let cwd ← Job.cwd
  match PathPattern.ofString? ("*" ++ extension) with
  | none => throw .misplacedStars
  | some pattern =>
    return (← Job.select s.moduleDirectory pattern).filter fun p =>
      !p.isWithin cwd s.outputDirectory

/-- Creates an empty generated header for a header that has none. -/
def ensurePlaceholder (header : Path) : Job Unit := do
  let path ← outputPath s header GeneratedPath.headerExtension
  unless ← Job.isPresent path do
    Job.makeDirectory path.parent
    let w ← get
    match w.tree.write w.site.cwd path "" with
    | .ok tree => set { w with tree }
    | .error fault => Job.report [.placeholderFailed path fault]

/-- Removes what was generated for an input before, and gives every header of the module a
generated header, since sources include theirs. -/
def prepare (input : Path) : Job Unit := do
  Job.makeDirectory s.outputDirectory
  [GeneratedPath.headerExtension, GeneratedPath.sourceExtension,
    GeneratedPath.registryExtension].forM fun e => do Job.remove (← outputPath s input e)
  s.sourceExtensions.forM fun e => do (← headers s e).forM (ensurePlaceholder s)

def reflectUnit (hash : NameHash) (unit : CompilationUnit) : Job Registry := do
  let context : Reflection.Context :=
    ⟨unit, ← Job.cwd, s.moduleDirectory, s.marker, s.bodyMarker⟩
  match (Reflection.reflect context unit.root).run (.start (.empty hash)) with
  | .ok _ p =>
    Job.report p.events
    return p.registry
  | .error e p =>
    Job.report p.events
    throw e

/-- Writes generated files, in directories created where needed. -/
def writeFiles (files : List Emission.GeneratedFile) : Job Unit :=
  files.forM fun f => do
    Job.makeDirectory f.path.parent
    Job.writeText f.path f.text

/-- The extensions of generated files that are not kept empty. -/
def expendable : List String :=
  (if s.deleteEmptyHeaders then [GeneratedPath.headerExtension] else []) ++
    if s.deleteEmptySources then [GeneratedPath.sourceExtension] else []

/-- Removes empty generated files and empty directories below the output directory. -/
def cleanUp : Job Unit := do
  if ← Job.isPresent s.outputDirectory then
    let output := s.outputDirectory.fold (← Job.cwd)
    Job.adjust fun t =>
      let places := (expendable s).flatMap fun e => t.search output ("*" ++ e)
      (t.removeEmptyFiles places).removeEmptyDirectories output

/-- Reflects one file: writes its registry, its generated header and its generated source. -/
def reflectFile (hash : NameHash) (frontEnd : FrontEnd) (input : Path) : Job Registry := do
  Job.requireKnown input
  let input := input.resolve (← Job.cwd)
  prepare s input
  let unit ← frontEnd.parse input s.frontEndArguments
  Job.ofExcept (checkDiagnostics s.policy frontEnd.diagnostics)
  let r ← reflectUnit s hash unit
  Store.write (← outputPath s input GeneratedPath.registryExtension) r s.patience
  writeFiles (← Job.ofExcept
    (Emission.generate (← Job.cwd) r s.moduleDirectory s.outputDirectory input))
  cleanUp s
  Job.report [.fileReflected input r.classes.size r.enums.size r.aliases.size r.functions.size]
  return r

/-- Puts the registries of all files together, adds them to the registry of the module, and
writes the code of the module. -/
def reflectModule (hash : NameHash) : Job Registry := do
  let r ← Store.collect
    ⟨s.moduleName, s.moduleDirectory, s.outputDirectory, s.sourceExtensions, hash, s.strictMerge⟩
  discard (Store.append (Store.aggregatePath s.moduleName s.outputDirectory) r s.patience)
  writeFiles
    (Emission.moduleCode (← Job.cwd) r s.moduleName s.moduleDirectory s.outputDirectory)
  Job.report [.moduleReflected s.moduleName r.classes.size]
  return r

end Introspect.Pass
