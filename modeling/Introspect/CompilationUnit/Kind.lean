/-! The kinds of declarations and types that a compiler front end tells apart. -/
namespace Introspect

/-- What a node of the declaration tree is. Kinds that reflection does not tell apart are
`other`. -/
inductive CursorKind where
  | unit | namespace | classDecl | structDecl | classTemplate | enumDecl
  | enumConstant | typeAlias | typedef | functionDecl | fieldDecl | method | constructor
  | destructor | baseSpecifier | accessSpecifier | annotationNode | templateTypeParameter
  | templateValueParameter | parameter | other
deriving DecidableEq, Repr

namespace CursorKind

def all : List CursorKind :=
  [unit, .namespace, classDecl, structDecl, classTemplate, enumDecl, enumConstant,
    typeAlias, typedef, functionDecl, fieldDecl, method, constructor, destructor, baseSpecifier,
    accessSpecifier, annotationNode, templateTypeParameter, templateValueParameter, parameter,
    other]

def label : CursorKind → String
  | unit => "TRANSLATION_UNIT"
  | .namespace => "NAMESPACE"
  | classDecl => "CLASS_DECL"
  | structDecl => "STRUCT_DECL"
  | classTemplate => "CLASS_TEMPLATE"
  | enumDecl => "ENUM_DECL"
  | enumConstant => "ENUM_CONSTANT_DECL"
  | typeAlias => "TYPE_ALIAS_DECL"
  | typedef => "TYPEDEF_DECL"
  | functionDecl => "FUNCTION_DECL"
  | fieldDecl => "FIELD_DECL"
  | method => "CXX_METHOD"
  | constructor => "CONSTRUCTOR"
  | destructor => "DESTRUCTOR"
  | baseSpecifier => "CXX_BASE_SPECIFIER"
  | accessSpecifier => "CXX_ACCESS_SPEC_DECL"
  | annotationNode => "ANNOTATE_ATTR"
  | templateTypeParameter => "TEMPLATE_TYPE_PARAMETER"
  | templateValueParameter => "TEMPLATE_NON_TYPE_PARAMETER"
  | parameter => "PARM_DECL"
  | other => "OTHER"

/-- The kind with a given name; `other` for every name that no kind has. -/
def ofLabel (s : String) : CursorKind := (all.find? fun k => k.label == s).getD other

def tag (k : CursorKind) : String := k.label.map Char.toLower

def ofTag (s : String) : CursorKind := (all.find? fun k => k.tag == s).getD other

def isClass (k : CursorKind) : Bool := k ∈ [classDecl, structDecl, classTemplate]

def isAlias (k : CursorKind) : Bool := k ∈ [typeAlias, typedef]

/-- A declaration that counts only where it is the definition. -/
def needsDefinition (k : CursorKind) : Bool := k.isClass || k.isAlias || k == enumDecl

theorem ofLabel_label (k : CursorKind) : ofLabel k.label = k := by
  cases k <;> decide

end CursorKind

/-- What a type is to the front end. Kinds that reflection does not tell apart are `other`. -/
inductive FrontKind where
  | invalid | void | bool | charU | uchar | char16 | char32 | ushort | uint | ulong | ulonglong
  | charS | schar | wchar | short | int | long | longlong | float | double | longdouble | record
  | enum | typedef | elaborated | unexposed | pointer | lvalueReference | constantArray | other
deriving DecidableEq, Repr

namespace FrontKind

def all : List FrontKind :=
  [invalid, void, bool, charU, uchar, char16, char32, ushort, uint, ulong, ulonglong, charS,
    schar, wchar, short, int, long, longlong, float, double, longdouble, record, enum, typedef,
    elaborated, unexposed, pointer, lvalueReference, constantArray, other]

def tag : FrontKind → String
  | invalid => "invalid"
  | void => "void"
  | bool => "bool"
  | charU => "char_u"
  | uchar => "uchar"
  | char16 => "char16"
  | char32 => "char32"
  | ushort => "ushort"
  | uint => "uint"
  | ulong => "ulong"
  | ulonglong => "ulonglong"
  | charS => "char_s"
  | schar => "schar"
  | wchar => "wchar"
  | short => "short"
  | int => "int"
  | long => "long"
  | longlong => "longlong"
  | float => "float"
  | double => "double"
  | longdouble => "longdouble"
  | record => "record"
  | enum => "enum"
  | typedef => "typedef"
  | elaborated => "elaborated"
  | unexposed => "unexposed"
  | pointer => "pointer"
  | lvalueReference => "lvalue_reference"
  | constantArray => "constant_array"
  | other => "other"

/-- The kind with a given lower case name; `other` for every name that no kind has. -/
def ofTag (s : String) : FrontKind := (all.find? fun k => k.tag == s).getD other

def compilerLabel : FrontKind → String
  | lvalueReference => "LVALUEREFERENCE"
  | constantArray => "CONSTANTARRAY"
  | k => k.tag.map Char.toUpper

/-- The kind that a name of the compiler stands for; `other` for names that reflection does not
tell apart. -/
def ofCompilerLabel (s : String) : FrontKind :=
  (all.find? fun k => k != other && k.compilerLabel == s).getD other

end FrontKind
end Introspect
