import Introspect.Emission.Writer
import Introspect.Text.Numeral

/-! Code for types, tags and attributes. -/
namespace Introspect.Emission

def runtimeNamespace : String := "cpprefl"

/-- A name of the runtime library. -/
def runtime (name : String) : String := runtimeNamespace ++ "::" ++ name

/-- The namespace for what generated code keeps to itself. -/
def privateNamespace : String := "CppReflPrivate"

/-- A text in double quotes as it is; characters are not escaped. -/
def literal (s : String) : String := "\"" ++ s ++ "\""

def stripQuotes (s : String) : String := String.ofList (Text.trimWhile (· == '"') s.toList)

/-- The value of an attribute in code: in quotes, unless it begins with one or is a number. -/
def attributeLiteral (s : String) : String :=
  if s.toList.head? = some '"' || Text.isNumeral s.toList then s else literal s

def typeExpression (t : CppType) : String :=
  if t.kind.isPrimitive then
    runtime "GetReflectedType<" ++ t.qualifiedName ++ ">()"
  else
    privateNamespace ++ "::MaybeCreateReflectedType<" ++ t.codeName ++ ">(" ++
      literal t.qualifiedName ++ ")"

/-- What the names of dynamic array types begin with. -/
def dynamicArrayPrefix : String := "std::vector<"

/-- Whether a type is a dynamic array with known element type. -/
def isDynamicArray (t : CppType) : Bool :=
  t.isTemplated && Text.startsWith dynamicArrayPrefix t.qualifiedName

/-- Code that defines the tags and attributes of a declaration, and the expressions for them. -/
structure MetadataCode where
  code : List Code
  tags : String
  attributes : String

/-- The definition of an array of tags or attributes. -/
def arrayLine (element name : String) (items : List String) : Code :=
  .line ("static const std::array<" ++ runtime element ++ ", " ++ toString items.length ++ "> " ++
    name ++ " = \x7b" ++ ",".intercalate items ++ "\x7d;")

/-- Code for the tags and attributes that live at run time. Without any, the expressions are
those of empty views. -/
def metadataCode (name : String) (m : Metadata) : MetadataCode :=
  let tags := m.runtimeTags.map fun t => literal (stripQuotes t.value.text)
  let attributes := m.runtimeAttributes.map fun e =>
    "std::make_pair(" ++ literal e.1 ++ ", " ++ runtime "MetadataAttributeValue(" ++
      attributeLiteral e.2.value.text ++ "))"
  let tagName := name ++ "Tags"
  let attributeName := name ++ "Attributes"
  { code :=
      (if tags.isEmpty then [] else [arrayLine "MetadataTag" tagName tags]) ++
        if attributes.isEmpty then [] else [arrayLine "MetadataAttribute" attributeName attributes]
    tags := if tags.isEmpty then runtime "MetadataTagView()" else tagName
    attributes :=
      if attributes.isEmpty then runtime "MetadataAttributeView()" else attributeName }

end Introspect.Emission
