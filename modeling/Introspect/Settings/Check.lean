import Introspect.Settings.Value

/-! Settings from data. Names that no setting has are passed over; settings without a value have
their default. -/
namespace Introspect.Settings

open Yaml (Value)

/-- Reading one setting after another. Faults are collected and do not end the reading. -/
abbrev Checking := EStateM Failure (List SettingFault)

/-- The setting of the given name, or its default where there is none or it is refused. -/
def setting {α : Type} (data : Table String Value) (name : String) (default : α)
    (check : Value → Verdict α) : Checking α :=
  match data.find? name with
  | none => return default
  | some v =>
    match check v with
    | .accepted a => return a
    | .refused faults => do
      modify fun all => all ++ faults.map fun f => ⟨name, f.1, f.2⟩
      return default
    | .broken e => throw e

def read (site : Site) (data : Table String Value) : Checking Settings := do
  let standard := Settings.default site
  return {
    moduleName := ← setting data "module_name" standard.moduleName textValue
    moduleDirectory :=
      ← setting data "module_directory" standard.moduleDirectory (directoryValue site)
    outputDirectory :=
      ← setting data "output_directory" standard.outputDirectory (directoryValue site)
    includePaths := ← setting data "include_paths" standard.includePaths (directoriesValue site)
    definitions := ← setting data "definitions" standard.definitions textsValue
    compilerArguments := ← setting data "clang_args" standard.compilerArguments textsValue
    raiseWarnings := ← setting data "raise_warnings" standard.raiseWarnings flagValue
    raiseErrors := ← setting data "raise_errors" standard.raiseErrors flagValue
    marker := ← setting data "annotation_marker" standard.marker textValue
    bodyMarker := ← setting data "body_marker" standard.bodyMarker textValue
    sourceExtensions :=
      ← setting data "source_extensions" standard.sourceExtensions extensionsValue
    openAttempts := ← setting data "registry_open_attempts" standard.openAttempts countValue
    openDelay := ← setting data "registry_open_delay" standard.openDelay delayValue
    strictMerge := ← setting data "strict_merge" standard.strictMerge flagValue
    deleteEmptySources :=
      ← setting data "delete_empty_sources" standard.deleteEmptySources flagValue
    deleteEmptyHeaders :=
      ← setting data "delete_empty_headers" standard.deleteEmptyHeaders flagValue
    logLevel := ← setting data "log_level" standard.logLevel textValue
    compilerLibrary := ← setting data "libclang_file" standard.compilerLibrary fileValue }

/-- Settings from data, or every fault in the order of the settings. -/
def ofTable (site : Site) (data : Table String Value) : Except Failure Settings :=
  match (read site data).run [] with
  | .ok s [] => .ok s
  | .ok _ faults => .error (.settings faults)
  | .error e _ => .error e

def ofMembers (site : Site) (members : List (String × Json)) : Except Failure Settings :=
  ofTable site (.ofList (members.map fun m => (m.1, Value.ofJson m.2)))

def override (site : Site) (s : Settings) (changes : List (String × Json)) :
    Except Failure Settings :=
  ofMembers site (s.members ++ changes)

end Introspect.Settings
