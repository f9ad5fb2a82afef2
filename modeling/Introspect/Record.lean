import Introspect.CppType
import Introspect.Path
import Introspect.Table

/-! The records that reflection leaves of classes, enums, aliases and functions. Records name
one another by qualified name. -/
namespace Introspect

/-- Where a tag or an attribute can be seen. Runtime metadata is also there at compile time. -/
inductive Lifetime where
  | compile
  | runtime
deriving DecidableEq, Repr

/-- The name of a lifetime in annotations and registry files. -/
def Lifetime.label : Lifetime → String
  | .compile => "compile"
  | .runtime => "runtime"

/-- A tag, or the value of an attribute. -/
structure Note where
  value : Given String
  lifetime : Lifetime
deriving DecidableEq

namespace Note

def isRuntime (n : Note) : Bool := n.lifetime == .runtime

def agrees (a b : Note) : Bool := a.value.agrees b.value && a.lifetime == b.lifetime

end Note

/-- What is known of a declaration apart from its shape: its place, its annotations and its
comment. -/
structure Metadata where
  file : Path
  line : Given Int
  reflected : Given Bool
  tags : List Note
  attributes : Table String Note
  comment : Given (Option String)
deriving DecidableEq

namespace Metadata

/-- Metadata of a declaration at a place, before any annotation is read. -/
def bare (file : Path) (line : Int) : Metadata := ⟨file, line, false, [], Table.empty, .proper none⟩

/-- Whether the declaration is marked for reflection. -/
def isReflected (m : Metadata) : Bool := m.reflected.holds

def runtimeTags (m : Metadata) : List Note := m.tags.filter Note.isRuntime

/-- The attributes that live at run time, in order. -/
def runtimeAttributes (m : Metadata) : List (String × Note) :=
  m.attributes.entries.filter fun e => e.2.isRuntime

/-- The tags that can be seen at compile time: all of them. -/
def compileTags (m : Metadata) : List Note := m.tags

/-- The attributes that can be seen at compile time: all of them, in order. -/
def compileAttributes (m : Metadata) : List (String × Note) := m.attributes.entries

def hasTag (m : Metadata) (tag : String) : Bool := m.tags.any fun t => t.value.proper? == some tag

/-- The place in the form that editors turn into a link. -/
def ideDiagnostic (m : Metadata) : String :=
  m.file.toString ++ "(" ++ m.line.text ++ "):"

/-- Equality as data, up to the order of attributes. -/
def agrees (a b : Metadata) : Bool :=
  a.file == b.file && a.line.agrees b.line && a.reflected.agrees b.reflected &&
    a.tags.isEqv b.tags Note.agrees && a.attributes.Matches Note.agrees b.attributes &&
    a.comment.agrees b.comment

end Metadata

/-- A data member of a class. -/
structure Field where
  name : String
  use : TypeUse
  metadata : Metadata
deriving DecidableEq

/-- Equality as data, up to the order of attributes. -/
def Field.agrees (a b : Field) : Bool :=
  a.name == b.name && a.use.agrees b.use && a.metadata.agrees b.metadata

/-- A member function of a class. -/
structure Method where
  name : String
  result : TypeUse
  arguments : List TypeUse
  metadata : Metadata
deriving DecidableEq

namespace Method

/-- Result and argument types as written in code. -/
def signature (m : Method) : String :=
  m.result.signature ++ "(" ++ ", ".intercalate (m.arguments.map TypeUse.signature) ++ ")"

/-- Equality as data, up to the order of attributes. -/
def agrees (a b : Method) : Bool :=
  a.name == b.name && a.result.agrees b.result &&
    a.arguments.isEqv b.arguments TypeUse.agrees && a.metadata.agrees b.metadata

end Method

/-- A function outside any class. -/
structure FunctionRecord where
  id : QualifiedName
  result : TypeUse
  arguments : List TypeUse
  metadata : Metadata
deriving DecidableEq

namespace FunctionRecord

/-- The qualified name, by which a registry knows the function. -/
def qualifiedName (f : FunctionRecord) : String := f.id.text

def argumentText (f : FunctionRecord) : String :=
  ", ".intercalate (f.arguments.map TypeUse.signature)

/-- Result and argument types as written in code. -/
def signature (f : FunctionRecord) : String :=
  f.result.signature ++ "(" ++ f.argumentText ++ ")"

/-- The declaration of the function inside its namespace. -/
def declaration (f : FunctionRecord) : String :=
  f.result.signature ++ " " ++ f.id.name ++ "(" ++ f.argumentText ++ ");"

/-- Equality as data, up to the order of attributes. -/
def agrees (a b : FunctionRecord) : Bool :=
  a.id.agrees b.id && a.result.agrees b.result &&
    a.arguments.isEqv b.arguments TypeUse.agrees && a.metadata.agrees b.metadata

end FunctionRecord

/-- The keyword a class is declared with. -/
inductive ClassKey where
  | structKey
  | classKey
deriving DecidableEq, Repr

def ClassKey.label : ClassKey → String
  | .structKey => "struct"
  | .classKey => "class"

def ClassKey.ofLabel? (s : String) : Option ClassKey :=
  [ClassKey.structKey, .classKey].find? fun k => k.label == s

/-- A class, a struct or a class template. Bases are qualified names; `bodyLine` is the line of
the marker for generated members. -/
structure ClassRecord where
  type : CppType
  metadata : Metadata
  key : ClassKey
  abstractness : Given Bool
  fields : List Field
  methods : List Method
  bases : List (Given String)
  bodyLine : Given (Option Int)
deriving DecidableEq

namespace ClassRecord

def isAbstract (c : ClassRecord) : Bool := c.abstractness.holds

def baseNames (c : ClassRecord) : List String := c.bases.filterMap Given.proper?

/-- The qualified name, by which a registry knows the class. -/
def qualifiedName (c : ClassRecord) : String := c.type.qualifiedName

/-- The declaration of the class without its body, inside its namespace. -/
def forwardDeclaration (c : ClassRecord) : String :=
  (if c.type.isGeneric then c.type.templateHeader ++ " " else "") ++
    c.key.label ++ " " ++ c.type.name ++ ";"

/-- Equality as data, up to the order of attributes. -/
def agrees (a b : ClassRecord) : Bool :=
  a.type.agrees b.type && a.metadata.agrees b.metadata && a.key == b.key &&
    a.abstractness.agrees b.abstractness && a.fields.isEqv b.fields Field.agrees &&
    a.methods.isEqv b.methods Method.agrees && a.bases.isEqv b.bases Given.agrees &&
    a.bodyLine.agrees b.bodyLine

end ClassRecord

/-- One named value of an enum. -/
structure Enumerator where
  name : Given String
  value : Given Int
  metadata : Metadata
deriving DecidableEq

/-- Equality as data, up to the order of attributes. -/
def Enumerator.agrees (a b : Enumerator) : Bool :=
  a.name.agrees b.name && a.value.agrees b.value && a.metadata.agrees b.metadata

/-- An enum. -/
structure EnumRecord where
  type : CppType
  metadata : Metadata
  values : List Enumerator
  bodyLine : Given (Option Int)
deriving DecidableEq

/-- The qualified name, by which a registry knows the enum. -/
def EnumRecord.qualifiedName (e : EnumRecord) : String := e.type.qualifiedName

/-- Equality as data, up to the order of attributes. -/
def EnumRecord.agrees (a b : EnumRecord) : Bool :=
  a.type.agrees b.type && a.metadata.agrees b.metadata &&
    a.values.isEqv b.values Enumerator.agrees && a.bodyLine.agrees b.bodyLine

/-- A second name for a type. `targetClass` and `targetEnum` are the qualified names of the
class or enum that the alias stood for when it was recorded. -/
structure AliasRecord where
  type : CppType
  target : CppType
  metadata : Metadata
  targetClass : Given (Option String)
  targetEnum : Given (Option String)
deriving DecidableEq

namespace AliasRecord

/-- The qualified name, by which a registry knows the alias. -/
def qualifiedName (a : AliasRecord) : String := a.type.qualifiedName

/-- The class that the alias stands for, if it is named. -/
def className? (a : AliasRecord) : Option String := a.targetClass.proper?.join

/-- The enum that the alias stands for, if it is named. -/
def enumName? (a : AliasRecord) : Option String := a.targetEnum.proper?.join

/-- Equality as data, up to the order of attributes. -/
def agrees (a b : AliasRecord) : Bool :=
  a.type.agrees b.type && a.target.agrees b.target && a.metadata.agrees b.metadata &&
    a.targetClass.agrees b.targetClass && a.targetEnum.agrees b.targetEnum

end AliasRecord
end Introspect
