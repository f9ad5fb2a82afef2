import Introspect.Reflection.Basic

/-! Finding the recorded type for a type of the compiler, and recording it when it is new. -/
namespace Introspect.Reflection

/-- The recorded kind of a kind of the compiler. Characters count as numbers of their width;
`long` counts as 32 bits wide. -/
def kindOf : FrontKind → TypeKind
  | .bool => .bool
  | .charU | .uchar => .uint8
  | .charS | .schar => .int8
  | .char16 | .wchar | .short => .int16
  | .char32 | .int | .long => .int32
  | .ushort => .uint16
  | .uint | .ulong => .uint32
  | .ulonglong => .uint64
  | .longlong => .int64
  | .float => .float
  | .double => .double
  | .longdouble => .longDouble
  | .void => .void
  | .record => .record
  | .enum => .enum
  | _ => .invalid

/-- The recorded kind of a type. -/
def classify (t : FrontType) : TypeKind :=
  if t.isParameter then .template else kindOf t.kind

/-- The type that is recorded in place of another: the canonical one, except for template
parameters and typedefs, and of an array its element. -/
def unwrap (u : CompilationUnit) (i : TypeId) : TypeId :=
  let t := u.type i
  let j := if t.isParameter || t.kind == .typedef then i else t.canonical
  (u.type j).element.getD j

/-- The type whose kind and arguments are recorded: the canonical one, except for template
parameters. -/
def underlying (u : CompilationUnit) (t : FrontType) : FrontType :=
  if t.isParameter then t else u.type t.canonical

def nameOf (u : CompilationUnit) (t : FrontType) : QualifiedName :=
  .split t.spelling (u.namespaceOf t.declaration)

/-- Remembers the declaration of a type recorded for the first time. -/
def recordOrigin (name : String) (d : Option CursorId) : Walk Unit :=
  match d with
  | none => pure ()
  | some i => modify fun p => { p with origins := p.origins.insert name i }

/-- Resolves a type, given how its arguments are resolved. A type already recorded under the name
is the answer. -/
def resolveWith (u : CompilationUnit) (argument : TypeId → Walk CppType) (i : TypeId) :
    Walk CppType := do
  let t := u.type (unwrap u i)
  let id := nameOf u t
  match (← Walk.registry).types.find? id.text with
  | some known => return known
  | none =>
    let source := underlying u t
    let arguments ← source.arguments.mapM argument
    let type := CppType.build id (classify source) .specialized arguments
    Walk.update fun r => r.addType type
    recordOrigin id.text t.declaration
    return type

/-- Resolves a type whose arguments are nested at most `n` levels deep. -/
def resolveWithin (u : CompilationUnit) : Nat → TypeId → Walk CppType
  | 0, _ => throw .endlessRecursion
  | n + 1, i => resolveWith u (resolveWithin u n) i

/-- Resolves a type. What a round of nested arguments records can end the next round, but no
later one: a chain more than twice as long as the unit has types never ends. -/
def resolveType (u : CompilationUnit) (i : TypeId) : Walk CppType :=
  resolveWithin u (2 * u.types.size + 2) i

def resolveUse (u : CompilationUnit) (i : TypeId) : Walk TypeUse := do
  return ⟨← resolveType u i, (u.type i).isConst⟩

/-- Resolves the type of a declaration that has one. -/
def resolveTyped (u : CompilationUnit) (d : Cursor) : Walk CppType :=
  match d.type with
  | some t => resolveType u t
  | none => throw (.unsupported (.cursorWithoutType d.kind d.spelling))

/-- Resolves the type that a declaration declares. Class templates have no type of the compiler
and are recorded as generic, with their parameters. -/
def resolveCursor (u : CompilationUnit) (i : CursorId) : Walk CppType := do
  let d := u.cursor i
  if d.type.isSome || d.kind != .classTemplate then
    resolveTyped u d
  else
    let id : QualifiedName := ⟨d.spelling, u.namespaceOf d.parent⟩
    match (← Walk.registry).types.find? id.text with
    | some known => return known
    | none =>
      let arguments ← (u.templateParameters d).mapM fun p => resolveTyped u (u.cursor p)
      let type := CppType.build id .record .generic arguments
      Walk.update fun r => r.addType type
      recordOrigin id.text (some i)
      return type

end Introspect.Reflection
