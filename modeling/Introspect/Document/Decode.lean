import Introspect.Document.Encode
import Introspect.Json.Shown
import Introspect.Json.Reader
import Introspect.Registry.Basic
import Introspect.Text.Case

/-! Registries from JSON documents. Types are built by following names through the type table. -/
namespace Introspect.Document

private def fail {α : Type} (m : Malformation) : Except Failure α :=
  .error (.registryFile (.malformed m))

def required (j : Json) (name : String) : Except Failure Json :=
  match j with
  | .object _ =>
    match j.member? name with
    | some v => .ok v
    | none => fail (.missingKey (Text.quoted name))
  | _ => fail .wrongShape

/-- A member that has to be there, as `read` reads it. -/
def requiredAs {α : Type} (read : Json → Except Failure α) (j : Json) (name : String) :
    Except Failure α :=
  required j name >>= read

/-- A member, or a value to take in its place. -/
def optional (j : Json) (name : String) (default : Json) : Json := (j.member? name).getD default

def itemsOf (j : Json) : Except Failure (List Json) :=
  match j.parts? with
  | some items => .ok items
  | none => fail .wrongShape

/-- A text; values of another kind are refused. -/
def textOf : Json → Except Failure String
  | .text s => .ok s
  | _ => fail .wrongShape

def itemsAt (j : Json) (name : String) : Except Failure (List Json) :=
  itemsOf (optional j name (.array []))

/-- The items of a list that may be missing, each as `read` reads it. -/
def listAt {α : Type} (read : Json → Except Failure α) (j : Json) (name : String) :
    Except Failure (List α) := do
  (← itemsAt j name).mapM read

def kindOf (j : Json) : Except Failure TypeKind :=
  match j with
  | .text s =>
    match TypeKind.ofLabel? s with
    | some k => .ok k
    | none => fail (.unknownName j.shown)
  | _ => fail (if j.isKey then .unknownName j.shown else .wrongShape)

def templateKindOf (j : Json) : Except Failure TemplateKind :=
  match j with
  | .text s =>
    match TemplateKind.ofLabel? s with
    | some k => .ok k
    | none => fail (.notTemplateKind j.shown)
  | _ => fail (.notTemplateKind j.shown)

def classKeyOf (j : Json) : Except Failure ClassKey :=
  match j with
  | .text s =>
    match ClassKey.ofLabel? s with
    | some k => .ok k
    | none => fail (.notClassKey j.shown)
  | _ => fail (.notClassKey j.shown)

/-- A lifetime by its name in any case. -/
def lifetimeOf : Json → Except Failure Lifetime
  | .text s =>
    let name := Text.capitals s
    if name = "COMPILE" then .ok .compile
    else if name = "RUNTIME" then .ok .runtime
    else fail (.unknownName (Text.quoted name))
  | _ => .error .wrongKind

def noteOf (j : Json) : Except Failure Note := do
  let value ← required j "value"
  let lifetime ← requiredAs lifetimeOf j "lifetime"
  return ⟨.ofJson value, lifetime⟩

def attributesOf : Json → Except Failure (Table String Note)
  | .object members => do
    let entries ← members.mapM fun m => do return (m.1, ← noteOf m.2)
    return .ofList entries
  | _ => .error .wrongKind

/-- Metadata; only the file has to be given. -/
def metadataOf (j : Json) : Except Failure Metadata := do
  let file ← requiredAs textOf j "file"
  let tags ← listAt noteOf j "tags"
  let attributes ← attributesOf (optional j "attributes" (.object []))
  return ⟨Path.ofString file, .ofJson (optional j "line" (.int 0)),
    .ofJson (optional j "is_reflected" (.bool false)), tags, attributes,
    .ofJson (optional j "comment" .null)⟩

/-- Reading with the types that were built before, under the ids of their entries. -/
abbrev Decoding := StateT (Table Json CppType) (Except Failure)

/-- The id of a type in the form in which ids are compared. -/
def idOf (j : Json) : Except Failure Json :=
  if j.isKey then .ok j.canonical else fail .wrongShape

/-- The entries of a type table under their ids. The last entry of an id counts. -/
def typeEntries (j : Json) : Except Failure (Table Json Json) := do
  let named ← listAt (fun e => do return (← requiredAs idOf e "id", e)) j "types"
  return .ofList named

/-- The template of a table entry with its arguments looked up. -/
def templateOf (look : Json → Decoding CppType) (j : Json) :
    Decoding (Option (TemplateKind × List CppType)) := do
  let template := optional j "template" .null
  if template.isVacant then
    return none
  let kind ← requiredAs templateKindOf template "kind"
  let names ← requiredAs itemsOf template "arguments"
  let arguments ← names.mapM look
  if arguments.isEmpty then
    fail .emptyTemplate
  return some (kind, arguments)

def typeOfEntry (look : Json → Decoding CppType) (j : Json) : Decoding CppType := do
  let template ← templateOf look j
  let name ← required j "name"
  let kind ← requiredAs kindOf j "kind"
  let id : QualifiedName := ⟨.ofJson name, .ofJson (optional j "namespace" (.text ""))⟩
  match template with
  | none => return .plain id kind
  | some (t, arguments) => return .build id kind t arguments

/-- The type that an id stands for, each one built once. A chain of arguments longer than the
table goes round in a circle and never ends. -/
def lookUp (entries : Table Json Json) : Nat → Json → Decoding CppType
  | 0, _ => throw .endlessRecursion
  | n + 1, j => do
    let id ← idOf j
    match (← get).find? id with
    | some t => return t
    | none =>
      match entries.find? id with
      | none => throw (.registryFile (.unknownType j.plainly))
      | some entry =>
        let t ← typeOfEntry (lookUp entries n) entry
        modify (·.insert id t)
        return t

def typeNamed (entries : Table Json Json) (j : Json) : Decoding CppType :=
  lookUp entries (entries.size + 1) j

/-- The name of a member, an enumerator or a function. -/
def nameOf (j : Json) : Except Failure (Given String) := .ofJson <$> required j "name"

section records
variable (look : Json → Decoding CppType)

def useOf (j : Json) : Decoding TypeUse := do
  let type ← look (← required j "type")
  return ⟨type, .ofJson (optional j "const" (.bool false))⟩

/-- The uses of types in a list that may be missing. -/
def usesOf (j : Json) (name : String) : Decoding (List TypeUse) := do
  (← itemsAt j name).mapM (useOf look)

def fieldOf (j : Json) : Decoding Field := do
  let name ← nameOf j
  let use ← useOf look (← required j "type")
  let metadata ← requiredAs metadataOf j "metadata"
  return ⟨name.text, use, metadata⟩

def methodOf (j : Json) : Decoding Method := do
  let name ← nameOf j
  let result ← useOf look (← required j "return_type")
  let arguments ← usesOf look j "argument_types"
  let metadata ← requiredAs metadataOf j "metadata"
  return ⟨name.text, result, arguments, metadata⟩

def classOf (j : Json) : Decoding ClassRecord := do
  let type ← look (← required j "type")
  let metadata ← requiredAs metadataOf j "metadata"
  let key ← classKeyOf (optional j "class_type" (.text ClassKey.classKey.label))
  let fields ← (← itemsAt j "fields").mapM (fieldOf look)
  let methods ← (← itemsAt j "methods").mapM (methodOf look)
  let bases ← itemsAt j "base_classes"
  return ⟨type, metadata, key, .ofJson (optional j "is_abstract" (.bool false)), fields, methods,
    bases.map .ofJson, .ofJson (optional j "generated_body_line" .null)⟩

def enumeratorOf (j : Json) : Except Failure Enumerator := do
  let name ← nameOf j
  let value ← required j "value"
  let metadata ← requiredAs metadataOf j "metadata"
  return ⟨name, .ofJson value, metadata⟩

def enumOf (j : Json) : Decoding EnumRecord := do
  let type ← look (← required j "type")
  let metadata ← requiredAs metadataOf j "metadata"
  let values ← listAt enumeratorOf j "values"
  return ⟨type, metadata, values, .ofJson (optional j "generated_body_line" .null)⟩

def aliasOf (j : Json) : Decoding AliasRecord := do
  let type ← look (← required j "type")
  let target ← look (← required j "alias_type")
  let metadata ← requiredAs metadataOf j "metadata"
  return ⟨type, target, metadata, .ofJson (optional j "alias_class" .null),
    .ofJson (optional j "alias_enum" .null)⟩

def functionOf (j : Json) : Decoding FunctionRecord := do
  let name ← nameOf j
  let result ← useOf look (← required j "return_type")
  let arguments ← usesOf look j "argument_types"
  let metadata ← requiredAs metadataOf j "metadata"
  return ⟨⟨name, .ofJson (optional j "namespace" (.text ""))⟩, result, arguments, metadata⟩

end records

/-- Refuses a name at the top that is no text. Only texts have numbers. -/
def requireNumber (q : QualifiedName) : Except Failure Unit :=
  if q.isGlobal && q.givenName.proper?.isNone then .error .wrongKind else .ok ()

def addType (r : Registry) (t : CppType) : Except Failure Registry := do
  requireNumber t.id
  r.addType t

def addFunction (r : Registry) (f : FunctionRecord) : Except Failure Registry := do
  requireNumber f.id
  r.addFunction f

/-- Refuses members of a class that have no number, or share one. -/
def requireNumbers (r : Registry) (kind : NameKind) (members : List Json) :
    Except Failure Unit := do
  let names ← members.mapM nameOf
  let texts := (names.takeWhile fun g => g.proper?.isSome).filterMap Given.proper?
  r.requireDistinct kind texts
  if texts.length < names.length then throw .wrongKind

def addClass (r : Registry) (entry : Json × ClassRecord) : Except Failure Registry := do
  requireNumbers r .field (← itemsAt entry.1 "fields")
  requireNumbers r .method (← itemsAt entry.1 "methods")
  r.addClass entry.2

/-- Reads the entries of one category and adds them one after another. -/
def addEntries {α : Type} (j : Json) (name : String) (read : Json → Decoding α)
    (add : Registry → α → Except Failure Registry) (r : Registry) : Decoding Registry := do
  (← itemsAt j name).foldlM (fun r e => do add r (← read e)) r

/-- The registry of a document whose version is known to be right. -/
def records (hash : NameHash) (j : Json) : Except Failure Registry := do
  let entries ← typeEntries j
  let look := typeNamed entries
  let decoding : Decoding Registry := do
    let types ← entries.keys.mapM look
    let r ← types.foldlM (fun r t => addType r t) (Registry.empty hash)
    let r ← addEntries j "classes" (fun e => do return (e, ← classOf look e)) addClass r
    let r ← addEntries j "enums" (enumOf look) Registry.addEnum r
    let r ← addEntries j "aliases" (aliasOf look) Registry.addAlias r
    addEntries j "functions" (functionOf look) addFunction r
  decoding.run' .empty

/-- Whether a value equals the number of the format as data. -/
def isVersion (j : Json) : Bool := j.agrees (.int version)

def decode (hash : NameHash) (j : Json) : Except Failure Registry :=
  match j with
  | .object _ =>
    let given := optional j "version" .null
    if isVersion given then records hash j
    else .error (.registryFile (.version given.plainly))
  | _ => .error .wrongKind

def ofText (hash : NameHash) (s : String) : Except Failure Registry :=
  match Json.parse s with
  | .ok j => decode hash j
  | .error .malformed => .error (.registryFile .notJson)
  | .error (.longNumber digits) => .error (.longNumber digits)

end Introspect.Document
