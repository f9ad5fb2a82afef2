import Introspect.NameHash
import Introspect.Path
import Introspect.Text.Numeral
import Introspect.Text.Quoted
import Introspect.CompilationUnit.Kind
import Introspect.Yaml.Fault

/-! Everything that can go wrong, with the wording of each case. -/
namespace Introspect

/-- The five kinds of record in a registry. -/
inductive Category where
  | types
  | classes
  | enums
  | aliases
  | functions
deriving DecidableEq, Repr

def Category.label : Category → String
  | .types => "type"
  | .classes => "class"
  | .enums => "enum"
  | .aliases => "alias"
  | .functions => "function"

/-- What kind of name two colliding names are. -/
inductive NameKind where
  | type
  | function
  | field
  | method
deriving DecidableEq, Repr

def NameKind.label : NameKind → String
  | .type => "Type"
  | .function => "Function"
  | .field => "Field"
  | .method => "Method"

/-- Why a declaration cannot be reflected. -/
inductive Unsupported where
  | cursorWithoutType (kind : CursorKind) (spelling : String)
  | typeWithoutDeclaration (spelling : String)
  | aliasWithoutType (spelling : String)
  | member (kind : CursorKind) (spelling className : String)
  | baseWithoutType (spelling : String)
  | baseWithoutDeclaration (spelling : String)
  | baseKind (kind : CursorKind) (className : String)
  | fieldWithoutType (spelling : String)
  | functionWithoutResult (spelling : String)
  | argumentWithoutType (argument function : String)
deriving DecidableEq, Repr

def Unsupported.message : Unsupported → String
  | .cursorWithoutType k s => "Cannot resolve a type for " ++ k.label ++ " cursor '" ++ s ++ "'"
  | .typeWithoutDeclaration s => "Type '" ++ s ++ "' has no declaration"
  | .aliasWithoutType s => "Alias '" ++ s ++ "' has no type"
  | .member k s c => "Unhandled class member type: " ++ k.label ++ " '" ++ s ++ "' in " ++ c
  | .baseWithoutType s => "Base specifier '" ++ s ++ "' has no type"
  | .baseWithoutDeclaration s => "Base specifier '" ++ s ++ "' has no declaration"
  | .baseKind k c => "Unhandled base class kind " ++ k.label ++ " for " ++ c
  | .fieldWithoutType s => "Field '" ++ s ++ "' has no type"
  | .functionWithoutResult s => "Function '" ++ s ++ "' has no result type"
  | .argumentWithoutType a f => "Argument '" ++ a ++ "' of '" ++ f ++ "' has no type"

/-- What the file system refuses. -/
inductive SystemFault where
  | notFound (path : Path)
  | exists (path : Path)
  | notDirectory (path : Path)
  | isDirectory (path : Path)
  | nameTooLong (path : Path)
deriving DecidableEq, Repr

def shownPath (p : Path) : String := Text.quoted p.toString

/-- The wording with the number the system gives the fault. -/
def SystemFault.message : SystemFault → String
  | .notFound p => "[Errno 2] No such file or directory: " ++ shownPath p
  | .exists p => "[Errno 17] File exists: " ++ shownPath p
  | .notDirectory p => "[Errno 20] Not a directory: " ++ shownPath p
  | .isDirectory p => "[Errno 21] Is a directory: " ++ shownPath p
  | .nameTooLong p => "[Errno 36] File name too long: " ++ shownPath p

/-- What is wrong with the data of a registry file. Values are given as they are shown. -/
inductive Malformation where
  | missingKey (shown : String)
  | unknownName (shown : String)
  | notTemplateKind (shown : String)
  | notClassKey (shown : String)
  | emptyTemplate
  | wrongShape
deriving DecidableEq, Repr

/-- The statement that a template has no arguments. -/
def emptyTemplateMessage : String := "A template needs at least one argument"

/-- The wording of a malformation; a value of the wrong shape is not described. -/
def Malformation.message : Malformation → String
  | .missingKey s => ": " ++ s
  | .unknownName s => ": " ++ s
  | .notTemplateKind s => ": " ++ s ++ " is not a valid TemplateKind"
  | .notClassKey s => ": " ++ s ++ " is not a valid ClassType"
  | .emptyTemplate => ": " ++ emptyTemplateMessage
  | .wrongShape => ""

/-- Why a registry file cannot be opened or understood. -/
inductive RegistryFault where
  | openFailed (path : Path) (attempts : Int) (last : Option SystemFault)
  | notJson
  | version (shown : String)
  | unknownType (shown : String)
  | malformed (cause : Malformation)
  | inFile (path : Path) (cause : RegistryFault)
deriving DecidableEq, Repr

/-- The wording of a fault. Faults found in a file start with its path. -/
def RegistryFault.message : RegistryFault → String
  | .openFailed p n last =>
    "Failed to open '" ++ p.toString ++ "' after " ++ toString n ++ " attempts: " ++
      ((last.map SystemFault.message).getD "None")
  | .notJson => "Invalid registry JSON"
  | .version s => "Unsupported registry format version: " ++ s
  | .unknownType s => "Unknown type reference '" ++ s ++ "'"
  | .malformed c => "Malformed registry data" ++ c.message
  | .inFile p c => p.toString ++ ": " ++ c.message

/-- One setting, or one item of a list, that was not accepted. -/
structure SettingFault where
  field : String
  item : Option Nat
  kind : String
deriving DecidableEq, Repr

/-- A failure. Those from `diagnostics` to `mergeConflict` are failures of reflection itself,
which the commands report; the others are not foreseen by them, file system faults apart. A path
with a `nullByte` is none that the system knows. Data are of the `wrongKind` when they lack what
objects or texts have, and otherwise of the `wrongShape`. -/
inductive Failure where
  | diagnostics (messages : List String)
  | collision (kind : NameKind) (names : Collision)
  | unsupported (cause : Unsupported)
  | missingTemplate (name : String)
  | registryFile (fault : RegistryFault)
  | mergeConflict (category : Category) (key : String)
  | system (fault : SystemFault)
  | missingInput (path : Path)
  | emptyTemplate
  | settings (faults : List SettingFault)
  | document (fault : Yaml.Fault)
  | longNumber (digits : Nat)
  | nullByte
  | unknownUser
  | misplacedStars
  | wrongKind
  | wrongShape
  | endlessRecursion
deriving DecidableEq, Repr

/-- The wording of a failure; none for those that are not described. -/
def Failure.message : Failure → String
  | .diagnostics ms => "\n".intercalate ms
  | .collision k c =>
    k.label ++ " hash collision between '" ++ c.first ++ "' and '" ++ c.second ++ "' (" ++
      toString c.value ++ ")"
  | .unsupported c => c.message
  | .missingTemplate n => "Template type for '" ++ n ++ "' was not found. Is it reflected?"
  | .registryFile f => f.message
  | .mergeConflict c k => "Conflicting " ++ c.label ++ " '" ++ k ++ "' while merging registries"
  | .system f => f.message
  | .missingInput p => "Entrypoint file not found: " ++ p.toString
  | .emptyTemplate => emptyTemplateMessage
  | .settings _ => ""
  | .document f => f.message
  | .longNumber n => Text.tooLong n
  | .nullByte => "embedded null byte"
  | .unknownUser => ""
  | .misplacedStars => "Invalid pattern: '**' can only be an entire path component"
  | .wrongKind => ""
  | .wrongShape => ""
  | .endlessRecursion => ""

/-- Whether a failure comes from the file system. -/
def Failure.isSystem : Failure → Bool
  | .system _ | .missingInput _ => true
  | _ => false

/-- Whether a failure is one of reflection itself. -/
def Failure.isReflection : Failure → Bool
  | .diagnostics _ | .collision _ _ | .unsupported _ | .missingTemplate _ | .registryFile _
  | .mergeConflict _ _ => true
  | _ => false

/-- Refuses a path that the system cannot know. -/
def Path.requireKnown (p : Path) : Except Failure Unit :=
  if p.hasNull then .error .nullByte else .ok ()

end Introspect
