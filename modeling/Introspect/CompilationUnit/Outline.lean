import Introspect.Table
import Introspect.CompilationUnit.Basic

/-! Compilation units written down as nested declarations and types, and their numbering. -/
namespace Introspect

/-- A type written down: the name of a type given elsewhere, or its parts. Without a spelling
the type is spelled by its declaration and its arguments; without a canonical type it is its
own. -/
inductive TypeOutline where
  | named (name : String)
  | given (kind : FrontKind) (spelling : Option String) (isConst isParameter : Bool)
      (declaration : Option String) (canonical element : Option TypeOutline)
      (arguments : List TypeOutline)
deriving Inhabited

/-- What a declaration says apart from types and other declarations. A specialisation takes its
children, its place and its surroundings from another declaration. -/
structure CursorHead where
  id : Option String
  kind : CursorKind
  spelling : String
  annotations : List String
  file : Option String
  line : Int
  isDefinition : Bool
  isAbstract : Bool
  templateKind : CursorKind
  enumValue : Int
  comment : Option String
  specializationOf : Option String

/-- A declaration written down with everything below it. -/
inductive CursorOutline where
  | mk (head : CursorHead) (type resultType : Option TypeOutline)
      (children arguments : List CursorOutline)

/-- A unit written down: the tree of declarations, declarations outside it, and types that are
referred to by name. -/
structure Outline where
  root : CursorOutline
  loose : List CursorOutline
  types : List (String × TypeOutline)

namespace Outline

/-- A numbered type whose declaration is still given by name. -/
structure PlacedType where
  kind : FrontKind
  spelling : Option String
  isConst : Bool
  isParameter : Bool
  declaration : Option String
  canonical : Option TypeId
  element : Option TypeId
  arguments : List TypeId

instance : Inhabited PlacedType := ⟨⟨.invalid, none, false, false, none, none, none, []⟩⟩

/-- A numbered declaration with the numbers of its relatives. -/
structure PlacedCursor where
  head : CursorHead
  parent : Option CursorId
  type : Option TypeId
  resultType : Option TypeId
  children : List CursorId
  arguments : List CursorId

/-- The declarations and types numbered so far, and the numbers of those with names. -/
structure Layout where
  cursors : Array PlacedCursor
  types : Array PlacedType
  cursorIds : Table String CursorId
  typeIds : Table String TypeId

/-- Numbering. -/
abbrev Placing := StateM Layout

/-- Numbers a type. -/
def addType (t : PlacedType) : Placing TypeId := fun l =>
  (l.types.size, { l with types := l.types.push t })

mutual
/-- Numbers a type and all types inside it. -/
def placeType : TypeOutline → Placing TypeId
  | .named name => fun l => ((l.typeIds.find? name).getD l.types.size, l)
  | .given kind spelling isConst isParameter declaration canonical element arguments => do
    let canonical ← placeType? canonical
    let element ← placeType? element
    let arguments ← placeTypes arguments
    addType ⟨kind, spelling, isConst, isParameter, declaration, canonical, element, arguments⟩
def placeType? : Option TypeOutline → Placing (Option TypeId)
  | none => pure none
  | some t => some <$> placeType t
def placeTypes : List TypeOutline → Placing (List TypeId)
  | [] => pure []
  | t :: ts => do return (← placeType t) :: (← placeTypes ts)
end

/-- Gives the next number to a declaration whose relatives are not numbered yet. Of two
declarations of one name the later one has it. -/
def openCursor (head : CursorHead) (parent : Option CursorId) : Placing CursorId := fun l =>
  let i := l.cursors.size
  (i, { l with
    cursors := l.cursors.push ⟨head, parent, none, none, [], []⟩
    cursorIds := match head.id with
      | none => l.cursorIds
      | some id => l.cursorIds.insert id i })

def closeCursor (i : CursorId) (type resultType : Option TypeId)
    (children arguments : List CursorId) : Placing Unit := fun l =>
  ((), { l with
    cursors := l.cursors.modify i fun c => { c with type, resultType, children, arguments } })

def annotationHead (spelling : String) : CursorHead :=
  ⟨none, .annotationNode, spelling, [], none, 1, true, false, .classDecl, 0, none, none⟩

mutual
/-- Numbers a declaration and all declarations inside it, itself first, its annotations next. -/
def placeCursor (parent : Option CursorId) : CursorOutline → Placing CursorId
  | .mk head type resultType children arguments => do
    let i ← openCursor head parent
    let type ← placeType? type
    let resultType ← placeType? resultType
    let notes ← head.annotations.mapM fun s => openCursor (annotationHead s) (some i)
    let children ← placeCursors (some i) children
    let arguments ← placeCursors (some i) arguments
    closeCursor i type resultType (notes ++ children) arguments
    return i
def placeCursors (parent : Option CursorId) : List CursorOutline → Placing (List CursorId)
  | [] => pure []
  | c :: cs => do return (← placeCursor parent c) :: (← placeCursors parent cs)
end

/-- Numbers the types that have names, each at the number reserved for it. -/
def placeNamed : List (String × TypeOutline) → Placing Unit
  | [] => pure ()
  | (name, t) :: r => do
    let i ← placeType t
    modify fun l =>
      match l.typeIds.find? name with
      | none => l
      | some j => { l with types := l.types.setIfInBounds j (l.types[i]?.getD default) }
    placeNamed r

/-- The numbering of a whole unit. The tree comes first, so its root has number zero. -/
def layout (o : Outline) : Layout :=
  let names := o.types.map Prod.fst
  let start : Layout :=
    ⟨#[], (Array.replicate names.length default), .empty, .ofList names.zipIdx⟩
  let place : Placing Unit := do
    placeNamed o.types
    let _ ← placeCursor none o.root
    let _ ← placeCursors none o.loose
  (place.run start).2

namespace Layout
variable (l : Layout)

/-- The declaration that another one is a specialisation of, followed to the end. -/
def primary : Nat → CursorId → CursorId
  | 0, i => i
  | n + 1, i =>
    match (l.cursors[i]?.bind (·.head.specializationOf)).bind l.cursorIds.find? with
    | none => i
    | some j => primary n j

/-- The declaration whose place and surroundings a declaration has. -/
def origin? (i : CursorId) : Option PlacedCursor := l.cursors[l.primary l.cursors.size i]?

/-- The file of a declaration. One without a file is in that of its parent, looked for at most `n`
levels up. -/
def fileOf : Nat → CursorId → Option Path
  | 0, _ => none
  | n + 1, i =>
    match l.origin? i with
    | none => none
    | some o =>
      match o.head.file with
      | some f => some (Path.ofString f)
      | none => o.parent.bind (fileOf n)

/-- A declaration with all numbers, its types still to come. -/
def cursor (i : CursorId) (c : PlacedCursor) : Cursor :=
  let o := (l.origin? i).getD c
  ⟨c.head.kind, c.head.spelling, c.type, c.head.isDefinition, o.children,
    l.fileOf l.cursors.size i, o.head.line, o.parent, c.head.isAbstract, c.head.templateKind,
    c.head.enumValue, c.resultType, c.arguments, c.head.comment⟩

def allCursors : Array Cursor := l.cursors.mapIdx l.cursor

/-- The spelling of a type, its arguments taken at most `n` levels deep. -/
def spellingOf (u : CompilationUnit) : Nat → TypeId → String
  | 0, _ => ""
  | n + 1, i =>
    match l.types[i]? with
    | none => ""
    | some t =>
      match t.spelling with
      | some s => s
      | none =>
        u.scopedName (t.declaration.bind l.cursorIds.find?) ++
          if t.arguments.isEmpty then ""
          else "<" ++ ", ".intercalate (t.arguments.map (spellingOf u n)) ++ ">"

/-- The last type of a chain of canonical types. -/
def canonicalOf : Nat → TypeId → TypeId
  | 0, i => i
  | n + 1, i =>
    match l.types[i]?.bind (·.canonical) with
    | none => i
    | some j => canonicalOf n j

def frontType (u : CompilationUnit) (i : TypeId) (t : PlacedType) : FrontType :=
  ⟨t.kind, l.spellingOf u (l.types.size + 1) i, t.isConst, t.isParameter,
    l.canonicalOf l.types.size i, t.element, t.declaration.bind l.cursorIds.find?, t.arguments⟩

def unit : CompilationUnit :=
  let u : CompilationUnit := ⟨l.allCursors, #[], 0⟩
  { u with types := l.types.mapIdx (l.frontType u) }

def withType (t : TypeOutline) : TypeId × Layout := (placeType t).run l

end Layout
end Outline
end Introspect
