import Introspect.Path
import Introspect.CompilationUnit.Kind

/-! Parsed compilation units: a finite graph of declarations and types that refer to one
another by number. -/
namespace Introspect

/-- The number of a declaration. -/
abbrev CursorId := Nat

/-- The number of a type. -/
abbrev TypeId := Nat

/-- A node of the declaration tree. `type` is missing where the compiler reports none;
`templateKind` is what a class template declares. -/
structure Cursor where
  kind : CursorKind
  spelling : String
  type : Option TypeId
  isDefinition : Bool
  children : List CursorId
  file : Option Path
  line : Int
  parent : Option CursorId
  isAbstract : Bool
  templateKind : CursorKind
  enumValue : Int
  resultType : Option TypeId
  arguments : List CursorId
  comment : Option String

/-- A type of the compiler. The spelling is qualified and free of qualifiers of constness. -/
structure FrontType where
  kind : FrontKind
  spelling : String
  isConst : Bool
  isParameter : Bool
  canonical : TypeId
  element : Option TypeId
  declaration : Option CursorId
  arguments : List TypeId

/-- Declarations, types and the topmost declaration. -/
structure CompilationUnit where
  cursors : Array Cursor
  types : Array FrontType
  root : CursorId

def Cursor.unknown : Cursor :=
  ⟨.other, "", none, false, [], none, 0, none, false, .classDecl, 0, none, [], none⟩

/-- A type about which nothing is known. It is its own canonical type. -/
def FrontType.unknown (i : TypeId) : FrontType := ⟨.invalid, "", false, false, i, none, none, []⟩

instance : Inhabited Cursor := ⟨.unknown⟩
instance : Inhabited FrontType := ⟨.unknown 0⟩

namespace CompilationUnit
variable (u : CompilationUnit)

def empty : CompilationUnit := ⟨#[], #[], 0⟩

instance : Inhabited CompilationUnit := ⟨empty⟩

/-- A declaration by number; nothing is known of numbers that are not in use. -/
def cursor (i : CursorId) : Cursor := u.cursors[i]?.getD .unknown

/-- A type by number; nothing is known of numbers that are not in use. -/
def type (i : TypeId) : FrontType := u.types[i]?.getD (.unknown i)

def canonical (i : TypeId) : FrontType := u.type (u.type i).canonical

def annotations (c : Cursor) : List String :=
  ((c.children.map u.cursor).filter fun d => d.kind == .annotationNode).map (·.spelling)

def templateParameters (c : Cursor) : List CursorId :=
  c.children.filter fun i =>
    (u.cursor i).kind ∈ [CursorKind.templateTypeParameter, .templateValueParameter]

/-- The declarations from one upwards, up to but not including the compilation unit. -/
def upwards : Nat → Option CursorId → List Cursor
  | 0, _ => []
  | _, none => []
  | n + 1, some i =>
    let c := u.cursor i
    if c.kind = .unit then [] else c :: upwards n c.parent

/-- A declaration and those around it, innermost first. No chain of parents is longer than the
unit has declarations. -/
def enclosing (i : Option CursorId) : List Cursor := u.upwards (u.cursors.size + 1) i

/-- The namespaces from a declaration upwards, written outermost first. -/
def namespaceOf (i : Option CursorId) : String :=
  "::".intercalate
    (((u.enclosing i).filter fun c => c.kind == .namespace).map (·.spelling)).reverse

/-- The names from a declaration upwards, written outermost first. Declarations without a name
are passed over. -/
def scopedName (i : Option CursorId) : String :=
  "::".intercalate
    (((u.enclosing i).map (·.spelling)).filter fun s => !s.isEmpty).reverse

end CompilationUnit
end Introspect
