import Introspect.Diagnostic
import Introspect.Event
import Introspect.Site

/-! The settings of a run. -/
namespace Introspect

/-- What a run is about, where it reads and writes, and how strict it is. -/
structure Settings where
  moduleName : String
  moduleDirectory : Path
  outputDirectory : Path
  includePaths : List Path
  definitions : List String
  compilerArguments : List String
  raiseWarnings : Bool
  raiseErrors : Bool
  marker : String
  bodyMarker : String
  sourceExtensions : List String
  openAttempts : Int
  openDelay : Delay
  strictMerge : Bool
  deleteEmptySources : Bool
  deleteEmptyHeaders : Bool
  logLevel : String
  compilerLibrary : Option Path
deriving DecidableEq

namespace Settings

/-- The name of the method that marks the place for generated members. -/
def defaultBodyMarker : String := "__CppReflGeneratedReflectionCodeMarker"

/-- The definition under which headers leave out generated members. -/
def buildDefinition : String := "CPPREFL_BUILD_REFLECTION()=1"

/-- The arguments of the compiler unless others are set. -/
def defaultCompilerArguments : List String :=
  ["-Wall", "-Wno-c++98-compat", "-Wno-c++98-compat-pedantic", "-Wno-newline-eof",
    "-Wno-pragma-once-outside-header", "-Wno-unused-variable", "--language=c++", "-std=c++20"]

/-- The patience with a registry file unless another is set: a hundred tries, a twentieth of a
second apart. -/
def defaultPatience : Patience := ⟨100, .fractional ⟨false, 5, -2⟩⟩

/-- The settings when nothing is set. The module is the working directory. -/
def default (site : Site) : Settings where
  moduleName := "Module"
  moduleDirectory := (Path.ofString ".").resolve site.cwd
  outputDirectory := (Path.ofString "generated").resolve site.cwd
  includePaths := []
  definitions := []
  compilerArguments := defaultCompilerArguments
  raiseWarnings := true
  raiseErrors := true
  marker := "cpprefl"
  bodyMarker := defaultBodyMarker
  sourceExtensions := [".h", ".hpp"]
  openAttempts := defaultPatience.attempts
  openDelay := defaultPatience.delay
  strictMerge := false
  deleteEmptySources := true
  deleteEmptyHeaders := false
  logLevel := "INFO"
  compilerLibrary := none

variable (s : Settings)

/-- The arguments for every parse: the compiler's own, then include paths, then definitions that
are not empty, and last the definition of a reflection build. -/
def frontEndArguments : List String :=
  s.compilerArguments ++ s.includePaths.map (fun p => "-I" ++ p.toString) ++
    ((s.definitions.filter fun d => !d.isEmpty).map fun d => "-D" ++ d) ++
    ["-D" ++ buildDefinition]

def policy : DiagnosticPolicy := ⟨s.raiseWarnings, s.raiseErrors⟩

def patience : Patience := ⟨s.openAttempts, s.openDelay⟩

def members : List (String × Json) :=
  [("module_name", .text s.moduleName),
    ("module_directory", .text s.moduleDirectory.toString),
    ("output_directory", .text s.outputDirectory.toString),
    ("include_paths", Json.texts (s.includePaths.map Path.toString)),
    ("definitions", Json.texts s.definitions),
    ("clang_args", Json.texts s.compilerArguments),
    ("raise_warnings", .bool s.raiseWarnings),
    ("raise_errors", .bool s.raiseErrors),
    ("annotation_marker", .text s.marker),
    ("body_marker", .text s.bodyMarker),
    ("source_extensions", Json.texts s.sourceExtensions),
    ("registry_open_attempts", .int s.openAttempts),
    ("registry_open_delay", s.openDelay.json),
    ("strict_merge", .bool s.strictMerge),
    ("delete_empty_sources", .bool s.deleteEmptySources),
    ("delete_empty_headers", .bool s.deleteEmptyHeaders),
    ("log_level", .text s.logLevel),
    ("libclang_file", .ofOption (fun p => .text p.toString) s.compilerLibrary)]

end Settings
end Introspect
