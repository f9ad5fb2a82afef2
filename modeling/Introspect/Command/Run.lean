import Introspect.Command.Arguments
import Introspect.Pass
import Introspect.Settings.File

/-! The commands: reflect one file, put a module together, show a registry file. -/
namespace Introspect.Command

/-- Something printed: a line, or a table with a title. -/
inductive Print where
  | line (text : String)
  | table (title : String) (columns : List String) (rows : List (List String))

/-- What a command leaves on the console: its exit code, what it printed, the errors, the levels
that logging was set to, and a failure that it did not report itself. -/
structure Outcome where
  exitCode : Nat
  output : List Print
  errors : List String
  logLevels : List String
  failure : Option Failure

namespace Outcome

def printed (code : Nat) (output : List Print) : Outcome := ⟨code, output, [], [], none⟩

/-- A command that ended in a failure that it does not report. -/
def crashed (e : Failure) : Outcome := ⟨1, [], [], [], some e⟩

/-- A command line that asks for help or makes no sense. -/
def refused : Refusal → Outcome
  | .help => printed 0 []
  | .usage => printed 2 []

/-- The lines for a failure; complaints of the compiler have one each. -/
def failureLines : Failure → List String
  | .diagnostics messages => messages
  | e => [e.message]

def failureHeader : String :=
  "One or more compile errors occurred during reflection generation."

def reported (e : Failure) : Outcome :=
  let lines := failureLines e
  ⟨1, .line failureHeader :: lines.map .line, lines, [], none⟩

end Outcome

/-- The settings in a configuration file. A missing one sets nothing. -/
def loadSettings (config : Option Path) : Job Settings := do
  let path := config.getD Settings.defaultFile
  let site := (← get).site
  if ← Job.isPresent path then Job.ofExcept (Settings.ofText site (← Job.readText path))
  else Job.ofExcept (Settings.ofTable site .empty)

/-- The settings in a configuration file with changes. -/
def resolveSettings (config : Option Path) (changes : List (String × Json)) : Job Settings := do
  let s ← loadSettings config
  Job.ofExcept (s.override (← get).site changes)

/-- Does a job under some settings, and prints what `summary` makes of its result. Failures of
reflection and of the file system are reported. -/
def perform {α : Type} (s : Settings) (job : Job α) (summary : α → String) : Job Outcome :=
  fun w =>
    match job w with
    | .ok a w => .ok { Outcome.printed 0 [.line (summary a)] with logLevels := [s.logLevel] } w
    | .error e w =>
      let outcome :=
        if e.isReflection || e.isSystem then Outcome.reported e else .crashed e
      .ok { outcome with logLevels := [s.logLevel] } w

def runFile (frontEnd : FrontEnd) (entry : Path) (config : Option Path)
    (changes : List (String × Json)) (compilerArguments : List String) : Job Outcome := do
  let s ← resolveSettings config changes
  let s := { s with compilerArguments := s.compilerArguments ++ compilerArguments }
  perform s (Pass.reflectFile s NameHash.crc32 frontEnd entry) fun r =>
    "[green]Reflected[/green] " ++ entry.toString ++ ": " ++
      toString r.classes.size ++ " classes, " ++ toString r.enums.size ++ " enums, " ++
      toString r.aliases.size ++ " aliases, " ++ toString r.functions.size ++ " functions"

def runModule (config : Option Path) (changes : List (String × Json)) : Job Outcome := do
  let s ← resolveSettings config changes
  perform s (Pass.reflectModule s NameHash.crc32) fun r =>
    "[green]Module " ++ s.moduleName ++ "[/green]: " ++ toString r.classes.size ++ " classes, " ++
      toString r.enums.size ++ " enums"

private def listed (l : List String) : String := ", ".intercalate l

def classRow (c : ClassRecord) : List String :=
  [c.qualifiedName, c.key.label,
    listed (c.fields.map fun f => f.name ++ ": " ++ f.use.type.qualifiedName),
    listed (c.methods.map (·.name)), listed c.baseNames,
    if c.metadata.isReflected then "yes" else "no"]

def enumRow (e : EnumRecord) : List String :=
  [e.qualifiedName, listed (e.values.map fun v => v.name.text ++ "=" ++ v.value.text)]

/-- The tables for a registry; those of classes always, the others where there is something. -/
def tables (name : String) (r : Registry) : List Print :=
  let optional (title : String) (columns : List String) (rows : List (List String)) : List Print :=
    if rows.isEmpty then [] else [.table title columns rows]
  .table ("Classes in " ++ name) ["Name", "Kind", "Fields", "Methods", "Bases", "Reflected"]
      (r.classes.items.map classRow) ::
    optional "Enums" ["Name", "Values"] (r.enums.items.map enumRow) ++
    optional "Aliases" ["Name", "Aliased type"]
      (r.aliases.items.map fun a => [a.qualifiedName, a.target.qualifiedName]) ++
    optional "Functions" ["Name", "Signature"]
      (r.functions.items.map fun f => [f.qualifiedName, f.signature])

/-- What is printed for a registry. Bases that are no names cannot be listed. -/
def shown (name : String) (r : Registry) : Except Failure (List Print) :=
  if r.classes.items.all fun c => c.bases.all fun b => b.proper?.isSome then .ok (tables name r)
  else .error .wrongShape

def runShow (file : Path) : Job Outcome := do
  if ← Job.isPresent file then
    try
      let r ← Store.read file NameHash.crc32 Settings.defaultPatience
      return .printed 0 (← Job.ofExcept (shown file.name r))
    catch e => return if e.isReflection then .reported e else .crashed e
  else return .printed 1 [.line ("[red]Registry not found:[/red] " ++ file.toString)]

def execute (frontEnd : FrontEnd) : Request → Job Outcome
  | .file entry config changes arguments => runFile frontEnd entry config changes arguments
  | .module config changes => runModule config changes
  | .show file => runShow file

def run (frontEnd : FrontEnd) (words : List String) (w : Workspace) : Outcome × Workspace :=
  match parse false words with
  | .error refusal => (.refused refusal, w)
  | .ok request =>
    match execute frontEnd request w with
    | .ok outcome w => (outcome, w)
    | .error e w => (.crashed e, w)

end Introspect.Command
