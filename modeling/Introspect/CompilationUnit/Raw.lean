import Introspect.Table
import Introspect.CompilationUnit.Basic
import Introspect.CompilationUnit.Qualifiers

/-! Compilation units as the compiler library reports them, and what reflection makes of them. -/
namespace Introspect

/-- A declaration as reported. Kinds go by the names of the compiler library. -/
structure RawCursor where
  kind : String
  spelling : String
  type : Option String
  resultType : Option String
  isDefinition : Bool
  children : List String
  arguments : List String
  parent : Option String
  file : Option String
  line : Int
  isAbstract : Bool
  tokens : List String
  enumValue : Int
  comment : Option String

/-- A type as reported. Without a declaration, element, canonical or named type the library
answers with none, with an invalid type or with the type itself. A negative number of arguments
says that the type is no specialisation; arguments that are no types are missing. -/
structure RawType where
  kind : String
  spelling : String
  isConst : Bool
  declaration : Option String
  canonical : Option String
  element : Option String
  named : Option String
  arguments : List (Option String)
  argumentCount : Int

/-- Declarations and types under their identifiers. -/
structure RawUnit where
  cursors : Table String RawCursor
  types : Table String RawType
  root : String

/-- The keyword behind the parameter list of a class template. Only single brackets are counted;
without any keyword outside brackets the template declares a class. -/
def classKeyFrom : Int → List String → CursorKind
  | _, [] => .classDecl
  | depth, t :: r =>
    if t = "<" then classKeyFrom (depth + 1) r
    else if t = ">" then classKeyFrom (depth - 1) r
    else if depth = 0 ∧ t = "struct" then .structDecl
    else if depth = 0 ∧ t = "class" then .classDecl
    else classKeyFrom depth r

namespace RawUnit
variable (u : RawUnit)

/-- The number of a declaration: its place in the table. -/
def cursorId? (id : String) : Option CursorId := u.cursors.keys.findIdx? (· == id)

/-- The number of a type: its place in the table. -/
def typeId? (id : String) : Option TypeId := u.types.keys.findIdx? (· == id)

/-- The reported type, when it is not invalid. -/
def validType? (id : String) : Option TypeId :=
  match u.types.find? id with
  | none => none
  | some t => if t.kind = "INVALID" then none else u.typeId? id

/-- The declaration of a type, when there is one. -/
def declaration? (t : RawType) : Option (String × RawCursor) :=
  match t.declaration with
  | none => none
  | some id =>
    match u.cursors.find? id with
    | none => none
    | some c => if c.kind = "NO_DECL_FOUND" then none else some (id, c)

/-- The names from a declaration upwards to the compilation unit, innermost first. -/
def namesFrom : Nat → Option String → List String
  | 0, _ => []
  | _, none => []
  | n + 1, some id =>
    match u.cursors.find? id with
    | none => []
    | some c =>
      if c.kind = "TRANSLATION_UNIT" then []
      else (if c.spelling.isEmpty then [] else [c.spelling]) ++ namesFrom n c.parent

/-- The scopes and the name of a declaration, outermost first. -/
def scopedName (id : String) : String :=
  "::".intercalate (u.namesFrom (u.cursors.size + 1) (some id)).reverse

/-- The spelling of a type. Typedefs, which are reported as written, go by their declaration. -/
def typeSpelling (t : RawType) : String :=
  match t.kind, u.declaration? t with
  | "TYPEDEF", some d => u.scopedName d.1
  | _, _ => Qualifiers.stripped t.spelling

/-- The spelling of the canonical type as reported. -/
def canonicalSpelling (t : RawType) : String :=
  ((t.canonical.bind u.types.find?).getD t).spelling

/-- Whether a type is taken for a template parameter: by its declaration or by the spelling of
its canonical type. -/
def isParameter (t : RawType) : Bool :=
  (u.declaration? t).any (fun d => d.2.kind == "TEMPLATE_TYPE_PARAMETER") ||
    Text.startsWith "type-parameter-" (u.canonicalSpelling t)

/-- The type whose template arguments count: of a type written with an elaboration, the type it
names. -/
def argumentHolder (t : RawType) : RawType :=
  if t.argumentCount < 0 ∧ t.kind = "ELABORATED" then
    (t.named.bind u.types.find?).getD t
  else t

/-- The template arguments that are types; those that are values leave no gap. -/
def templateArguments (t : RawType) : List TypeId :=
  let holder := u.argumentHolder t
  (holder.arguments.take holder.argumentCount.toNat).filterMap fun a => a.bind u.validType?

def frontType (i : TypeId) (t : RawType) : FrontType where
  kind := .ofCompilerLabel t.kind
  spelling := u.typeSpelling t
  isConst := t.isConst
  isParameter := u.isParameter t
  canonical := (t.canonical.bind u.typeId?).getD i
  element := t.element.bind u.validType?
  declaration := (u.declaration? t).bind fun d => u.cursorId? d.1
  arguments := u.templateArguments t

/-- A declaration as reflection sees it. Only classes and structs can be abstract. -/
def cursor (cwd : List String) (c : RawCursor) : Cursor where
  kind := .ofLabel c.kind
  spelling := c.spelling
  type := c.type.bind u.validType?
  isDefinition := c.isDefinition
  children := c.children.filterMap u.cursorId?
  file := c.file.map fun f => (Path.ofString f).resolve cwd
  line := c.line
  parent := c.parent.bind u.cursorId?
  isAbstract := c.isAbstract && (c.kind == "CLASS_DECL" || c.kind == "STRUCT_DECL")
  templateKind := classKeyFrom 0 c.tokens
  enumValue := c.enumValue
  resultType := c.resultType.bind u.validType?
  arguments := c.arguments.filterMap u.cursorId?
  comment := c.comment

/-- The unit as reflection sees it. Files become absolute from the working directory. -/
def toUnit (cwd : List String) : CompilationUnit where
  cursors := (u.cursors.entries.map fun e => u.cursor cwd e.2).toArray
  types := (u.types.entries.zipIdx.map fun e => u.frontType e.2 e.1.2).toArray
  root := (u.cursorId? u.root).getD 0

end RawUnit
end Introspect
