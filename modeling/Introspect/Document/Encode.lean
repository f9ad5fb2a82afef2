import Introspect.Json.Printer
import Introspect.Registry.Basic

/-! Registries as JSON documents. All types stand once in one table; everywhere else a type is
given by its qualified name. -/
namespace Introspect.Document

def version : Int := 1

def noteJson (n : Note) : Json :=
  .object [("value", n.value.toJson), ("lifetime", .text n.lifetime.label)]

def metadataJson (m : Metadata) : Json :=
  .object [
    ("is_reflected", m.reflected.toJson),
    ("tags", .array (m.tags.map noteJson)),
    ("attributes", .object (m.attributes.entries.map fun e => (e.1, noteJson e.2))),
    ("file", .text m.file.toString),
    ("line", m.line.toJson),
    ("comment", m.comment.toJson)]

def useJson (u : TypeUse) : Json :=
  .object [("type", .text u.type.qualifiedName), ("const", u.constness.toJson)]

def fieldJson (f : Field) : Json :=
  .object [("name", .text f.name), ("type", useJson f.use), ("metadata", metadataJson f.metadata)]

def callableMembers (name : Given String) (result : TypeUse) (arguments : List TypeUse)
    (metadata : Metadata) : List (String × Json) :=
  [("name", name.toJson), ("return_type", useJson result),
    ("argument_types", .array (arguments.map useJson)), ("metadata", metadataJson metadata)]

def methodJson (m : Method) : Json :=
  .object (callableMembers m.name m.result m.arguments m.metadata)

def classJson (c : ClassRecord) : Json :=
  .object [
    ("type", .text c.type.qualifiedName),
    ("metadata", metadataJson c.metadata),
    ("class_type", .text c.key.label),
    ("is_abstract", c.abstractness.toJson),
    ("fields", .array (c.fields.map fieldJson)),
    ("methods", .array (c.methods.map methodJson)),
    ("base_classes", .array (c.bases.map Given.toJson)),
    ("generated_body_line", c.bodyLine.toJson)]

def enumeratorJson (v : Enumerator) : Json :=
  .object [
    ("name", v.name.toJson),
    ("value", v.value.toJson),
    ("metadata", metadataJson v.metadata)]

def enumJson (e : EnumRecord) : Json :=
  .object [
    ("type", .text e.type.qualifiedName),
    ("metadata", metadataJson e.metadata),
    ("values", .array (e.values.map enumeratorJson)),
    ("generated_body_line", e.bodyLine.toJson)]

def aliasJson (a : AliasRecord) : Json :=
  .object [
    ("type", .text a.type.qualifiedName),
    ("alias_type", .text a.target.qualifiedName),
    ("metadata", metadataJson a.metadata),
    ("alias_class", a.targetClass.toJson),
    ("alias_enum", a.targetEnum.toJson)]

def functionJson (f : FunctionRecord) : Json :=
  .object (callableMembers f.id.givenName f.result f.arguments f.metadata ++
    [("namespace", f.id.givenScope.toJson)])

def typeJson (t : CppType) : Json :=
  .object ([
    ("id", .text t.qualifiedName),
    ("name", t.id.givenName.toJson),
    ("namespace", t.id.givenScope.toJson),
    ("kind", .text t.kind.label)] ++
    match t.template? with
    | none => []
    | some k =>
      [("template", .object [("kind", .text k.label),
        ("arguments", Json.texts (t.arguments.map CppType.qualifiedName))])])

mutual
/-- Enters a type and all its arguments into a table, unless their names are there. -/
def enter (table : Catalog CppType.qualifiedName) : CppType → Catalog CppType.qualifiedName
  | .plain i k =>
    if table.contains i.text then table else table.insert (.plain i k)
  | .templated i k t a as =>
    enterAll
      (enter (if table.contains i.text then table else table.insert (.templated i k t a as)) a) as
def enterAll (table : Catalog CppType.qualifiedName) :
    List CppType → Catalog CppType.qualifiedName
  | [] => table
  | t :: ts => enterAll (enter table t) ts
end

/-- The types that a class names, in order. -/
def classTypes (c : ClassRecord) : List CppType :=
  c.type :: (c.fields.map fun f => f.use.type) ++
    c.methods.flatMap fun m => m.result.type :: m.arguments.map (·.type)

/-- The types that the records of a registry name, in the order of the document. -/
def recordTypes (r : Registry) : List CppType :=
  r.classes.items.flatMap classTypes ++
    r.enums.items.map (·.type) ++
    r.aliases.items.flatMap (fun a => [a.type, a.target]) ++
    r.functions.items.flatMap fun f => f.result.type :: f.arguments.map (·.type)

/-- The table of types: those of the registry, then those that only records name, then those
that only stand among template arguments. -/
def typeTable (r : Registry) : Catalog CppType.qualifiedName :=
  let table := enterAll r.types (recordTypes r)
  enterAll table table.items

def encode (r : Registry) : Json :=
  .object [
    ("version", .int version),
    ("types", .array ((typeTable r).items.map typeJson)),
    ("classes", .array (r.classes.items.map classJson)),
    ("enums", .array (r.enums.items.map enumJson)),
    ("aliases", .array (r.aliases.items.map aliasJson)),
    ("functions", .array (r.functions.items.map functionJson))]

/-- The text of a registry: on one line, or indented. -/
def toText (r : Registry) (indent : Option String) : String := (encode r).print indent

end Introspect.Document
