import Introspect.Emission.Metadata
import Introspect.GeneratedPath
import Introspect.Registry.Query

/-! The header and the source generated for one file. -/
namespace Introspect.Emission

/-- A file to be written. -/
structure GeneratedFile where
  path : Path
  text : String
deriving DecidableEq

def macroPrefix : String := "CPPREFL_INTERNAL_REFLECTION"

/-- The macro that is defined while reflection data are generated. -/
def buildMacro : String := "CPPREFL_BUILD_REFLECTION()"

/-- The macro that stands for the generated members of a class, named for the file and the line
of the body marker. -/
def bodyMacroName (c : ClassRecord) : String :=
  macroPrefix ++ "_" ++ c.metadata.file.stem ++ c.bodyLine.text

def specialization : Code := .line "template <>"

/-- The head of a function that answers with reflection data of a kind. -/
def getter (result function argument : String) : String :=
  "const " ++ result ++ "& " ++ function ++ "<" ++ argument ++ ">()"

def typeGetter (t : CppType) : String := getter "TypeInfo" "GetReflectedType" t.id.globalText

def classGetter (t : CppType) : String := getter "ClassInfo" "GetReflectedClass" t.id.globalText

def enumGetter (t : CppType) : String := getter "EnumInfo" "GetReflectedEnum" t.id.globalText

def functionGetter (f : FunctionRecord) : String :=
  getter "FunctionInfo" "GetReflectedFunction" ("&" ++ f.id.globalText)

/-- Declarations of getters in the namespace of the runtime library, with blank lines between. -/
def declareGetters (first : String) (others : List String) : Code :=
  let declaration (g : String) : List Code := [specialization, .line (g ++ ";")]
  .scope runtimeNamespace
    (declaration first ++ others.flatMap fun g => .blank :: declaration g)

/-- The declarations of a class. Generic templates are only declared themselves, and
specialisations not at all. -/
def declareClass (c : ClassRecord) : List Code :=
  if c.type.isTemplated then
    if c.type.isGeneric then [.declareClass c] else []
  else [.declareClass c, declareGetters (typeGetter c.type) [classGetter c.type]]

def declareEnum (e : EnumRecord) : List Code :=
  [.declareEnum e, declareGetters (typeGetter e.type) [enumGetter e.type]]

def declareFunction (f : FunctionRecord) : List Code :=
  [.declareFunction f, declareGetters (functionGetter f) []]

/-- The base that `Super` stands for: the first registered one that is not abstract, unless it is
a generic template, which cannot be named without arguments. -/
def superClass? (r : Registry) (c : ClassRecord) : Option ClassRecord :=
  match (r.directBases c).find? fun b => !b.isAbstract with
  | none => none
  | some b => if b.type.isInstantiable then some b else none

/-- The members that generated code gives a class. Structs are plain data and get no virtual
ones. -/
def accessors (r : Registry) (c : ClassRecord) : List Code :=
  let name := c.type.name
  let typeResult := "const " ++ runtime "TypeInfo& "
  let classResult := "const " ++ runtime "ClassInfo& "
  let typeBody := "\x7b return " ++ runtime "GetReflectedType<" ++ name ++ ">(); \x7d"
  let classBody := "\x7b return " ++ runtime "GetReflectedClass<" ++ name ++ ">(); \x7d"
  (match superClass? r c with
    | none => []
    | some b => [.line ("using Super = " ++ b.type.id.globalText ++ ";")]) ++
  [.line ("static inline " ++ typeResult ++ "StaticReflectedType() " ++ typeBody),
    .line ("static inline " ++ classResult ++ "StaticReflectedClass() " ++ classBody)] ++
  if c.key = .classKey then
    [.line ("virtual " ++ typeResult ++ "GetReflectedType()const " ++ typeBody),
      .line ("virtual " ++ classResult ++ "GetReflectedClass()const " ++ classBody),
      .line ("virtual const " ++ runtime "Name GetClassName()const \x7b return " ++
        runtime "GetTypeName<" ++ name ++ ">(); \x7d")]
  else []

/-- The definition of the body macro of a class, empty while reflection data are generated. -/
def bodyMacro (r : Registry) (c : ClassRecord) : List Code :=
  let macroName := bodyMacroName c
  let friendLine (result function : String) : Code :=
    .line ("friend const " ++ runtime result ++ "& " ++ runtime function ++ "<" ++ c.type.name ++
      ">();")
  [.blank,
    .line ("// " ++ c.qualifiedName ++ " class declaration"),
    .line ("#if !" ++ buildMacro),
    .line ("#define " ++ macroName ++ "()\\"),
    .postfixed "\\" [.indented 2
      [friendLine "TypeInfo" "GetReflectedType",
        friendLine "ClassInfo" "GetReflectedClass",
        .line "public:",
        .indented 1 (accessors r c)]],
    .blank,
    .line "#else",
    .line ("#define " ++ macroName ++ "()"),
    .line "#endif"]

def headerCode (r : Registry) (s : Selection) : List Code :=
  [.line "#pragma once", .blank, .includes "CppReflStatics.h" false, .blank] ++
    s.classes.flatMap declareClass ++
    s.enums.flatMap declareEnum ++
    s.functions.flatMap declareFunction ++
    (s.classes.filter (·.bodyLine.isPresent)).flatMap (bodyMacro r)

/-- An array with one entry to a line. -/
def entries (element : String) (count : Nat) (name : String) (items : List String) : Code :=
  .block ("static const std::array<" ++ element ++ ", " ++ toString count ++ "> " ++ name ++ " =")
    "\x7b" "\x7d;" (items.map fun i => .line i)

/-- The definition of a getter, with a blank line behind it. -/
def define (head : String) (body : List Code) : List Code :=
  [specialization, .braced head body, .blank]

/-- The definition of the getter of a type that the runtime library does not know yet. -/
def defineType (t : CppType) (kind : String) : List Code :=
  define (typeGetter t)
    [.line ("static auto& type = Registry::GetSystemRegistry().EmplaceType(" ++
      literal t.qualifiedName ++ ", TypeKind::" ++ kind ++ ", sizeof(" ++ t.id.globalText ++
      "));"),
      .line "return type;"]

/-- The entry of a field in the array of fields of its class. -/
def fieldEntry (className : String) (f : Field) : String :=
  let m := metadataCode f.name f.metadata
  "FieldInfo(MakeTypeInstance<decltype(" ++ className ++ "::" ++ f.name ++ ")>(" ++
    typeExpression f.use.type ++ "), offsetof(" ++ className ++ ", " ++ f.name ++ "), " ++
    literal f.name ++ ", " ++ m.tags ++ ", " ++ m.attributes ++ "),"

/-- The bases that the registration of a class names: registered, marked for reflection and not
generic. -/
def registeredBases (r : Registry) (c : ClassRecord) : List ClassRecord :=
  (r.directBases c).filter fun b => b.type.isInstantiable && b.metadata.isReflected

def classBody (r : Registry) (c : ClassRecord) : List Code :=
  let name := c.type.id.globalText
  let m := metadataCode "Class" c.metadata
  let bases := (registeredBases r c).map fun b =>
    "&GetReflectedClass<" ++ b.type.id.globalText ++ ">()"
  m.code ++
    (if c.fields.isEmpty then []
      else c.fields.flatMap (fun f => (metadataCode f.name f.metadata).code) ++
        [entries "FieldInfo" c.fields.length "Fields" (c.fields.map (fieldEntry name))]) ++
    [.line ("static auto& classInfo = Registry::GetSystemRegistry().EmplaceClass(" ++
      "GetReflectedType<" ++ name ++ ">(), " ++
      (if c.fields.isEmpty then "FieldView()" else "Fields") ++ ", \x7b" ++
      ", ".intercalate bases ++ "\x7d, " ++ m.tags ++ ", " ++ m.attributes ++ ");"),
      .line "return classInfo;"]

def defineClass (r : Registry) (c : ClassRecord) : List Code :=
  defineType c.type "Class" ++ define (classGetter c.type) (classBody r c)

def defineEnum (e : EnumRecord) : List Code :=
  let m := metadataCode "Enum" e.metadata
  let items := e.values.map fun v =>
    "EnumValueInfo(" ++ literal v.name.text ++ ", " ++ v.value.text ++ "),"
  defineType e.type "Enum" ++
    define (enumGetter e.type)
      (m.code ++ [entries "EnumValueInfo" e.values.length "Values" items,
        .line ("static auto& enumInfo = Registry::GetSystemRegistry().EmplaceEnum(" ++
          "GetReflectedType<" ++ e.type.id.globalText ++ ">(), Values, " ++ m.tags ++ ", " ++
          m.attributes ++ ");"),
        .line "return enumInfo;"])

def defineFunction (f : FunctionRecord) : List Code :=
  let m := metadataCode "Function" f.metadata
  let items := f.arguments.map fun a => "&" ++ typeExpression a.type ++ ","
  let arguments :=
    if items.isEmpty then "FunctionArgTypesView()" else "FunctionArgTypesView(functionArgs)"
  define (functionGetter f)
    (m.code ++
      (if items.isEmpty then []
        else [entries "const TypeInfo*" items.length "functionArgs" items]) ++
      [.line ("static auto& functionInfo = Registry::GetSystemRegistry().EmplaceFunction(" ++
        literal f.qualifiedName ++ ", (void*)&" ++ f.id.globalText ++ ", " ++
        typeExpression f.result.type ++ ", " ++ arguments ++ ", " ++ m.tags ++ ", " ++
        m.attributes ++ ");"),
        .line "return functionInfo;"])

/-- The variable that the functions of a dynamic array field are registered with. -/
def dynamicArrayName (c : ClassRecord) (f : Field) : String :=
  c.type.id.flatText ++ f.name ++ "_DynamicArray"

/-- The registration of the functions of a dynamic array field. -/
def dynamicArray (c : ClassRecord) (f : Field) : Code :=
  let element := f.use.type.arguments.headD default
  .line ("const auto& " ++ dynamicArrayName c f ++ " = " ++
    runtime "Registry::GetSystemRegistry().AddDynamicArrayFunctions(" ++
    literal f.use.type.qualifiedName ++ ", " ++
    runtime "StdVectorFunctionsFactory::Create<" ++ element.codeName ++ ">(" ++
    literal element.qualifiedName ++ "));")

/-- The headers of the runtime library that generated sources need. -/
def runtimeHeaders : List String :=
  ["Reflection/ClassInfo.h", "Reflection/EnumInfo.h", "Reflection/FieldInfo.h",
    "Reflection/FunctionInfo.h", "Reflection/Registry.h", "Reflection/TypeInfo.h"]

/-- The code of the generated source, for a file included by the given path. -/
def sourceCode (r : Registry) (s : Selection) (path : String) : List Code :=
  let classes := s.classes.filter fun c => !c.type.isTemplated
  let arrays := classes.flatMap fun c =>
    (c.fields.filter fun f => isDynamicArray f.use.type).map (dynamicArray c)
  [.includes path false, .includes "array" true] ++
    runtimeHeaders.map (fun h => .includes h false) ++
    [.blank,
      .scope runtimeNamespace
        (classes.flatMap (defineClass r) ++ s.enums.flatMap defineEnum ++
          s.functions.flatMap defineFunction)] ++
    if arrays.isEmpty then [] else [.blank, .scope privateNamespace arrays]

/-- The header and the source generated for a file. Both are empty when nothing in the file is
marked for reflection. -/
def fileCode (cwd : List String) (r : Registry) (moduleDirectory output input : Path) :
    List GeneratedFile :=
  let s := r.inFile cwd input true
  let place := GeneratedPath.ofSource cwd input moduleDirectory output
  let code (c : List Code) : String := if s.any then render c else ""
  [⟨place GeneratedPath.headerExtension, code (headerCode r s)⟩,
    ⟨place GeneratedPath.sourceExtension,
      code (sourceCode r s (GeneratedPath.includePath cwd input moduleDirectory))⟩]

/-- Refuses metadata with a note for run time that is no text. -/
def requireTexts (m : Metadata) : Except Failure Unit :=
  let notes := m.runtimeTags ++ m.runtimeAttributes.map Prod.snd
  if notes.all fun n => n.value.proper?.isSome then .ok () else .error .wrongKind

/-- Refuses records that no code can be written for. -/
def requireWritable (r : Registry) (s : Selection) : Except Failure Unit := do
  (s.classes.filter (·.bodyLine.isPresent)).forM fun c => discard (r.askBases c false)
  (s.classes.filter fun c => !c.type.isTemplated).forM fun c => do
    requireTexts c.metadata
    c.fields.forM fun f => requireTexts f.metadata
    discard (r.askBases c false)
  s.enums.forM fun e => requireTexts e.metadata
  s.functions.forM fun f => requireTexts f.metadata

/-- The files generated for a file, where its records allow it and the system can know all
paths. -/
def generate (cwd : List String) (r : Registry) (moduleDirectory output input : Path) :
    Except Failure (List GeneratedFile) := do
  requireWritable r (← r.askFile cwd input true)
  [input, moduleDirectory, output].forM Path.requireKnown
  return fileCode cwd r moduleDirectory output input

end Introspect.Emission
