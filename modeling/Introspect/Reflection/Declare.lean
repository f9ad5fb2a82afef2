import Introspect.Reflection.Promotion
import Introspect.Reflection.Resolve

/-! The walk over a compilation unit that records every declaration marked for reflection. -/
namespace Introspect.Reflection

/-- A class to be recorded: a declaration with its metadata, or a type of the compiler. -/
inductive Target where
  | declared (cursor : CursorId) (metadata : Metadata)
  | typed (type : TypeId)

/-- The keyword that a declaration or a template declares a class with. -/
def classKeyOf (d : Cursor) : ClassKey :=
  let kind := if d.kind = .classTemplate then d.templateKind else d.kind
  if kind = .structDecl then .structKey else .classKey

/-- The result and argument types of a function or method. -/
def signatureOf (u : CompilationUnit) (d : Cursor) : Walk (TypeUse × List TypeUse) := do
  let some resultType := d.resultType
    | throw (.unsupported (.functionWithoutResult d.spelling))
  let result ← resolveUse u resultType
  let arguments ← d.arguments.mapM fun a =>
    let argument := u.cursor a
    match argument.type with
    | some t => resolveUse u t
    | none => throw (.unsupported (.argumentWithoutType argument.spelling d.spelling))
  return (result, arguments)

def fieldOf (u : CompilationUnit) (d : Cursor) (m : Metadata) : Walk Field :=
  match d.type with
  | some t => return ⟨d.spelling, ← resolveUse u t, m⟩
  | none => throw (.unsupported (.fieldWithoutType d.spelling))

def methodOf (u : CompilationUnit) (d : Cursor) (m : Metadata) : Walk Method := do
  let (result, arguments) ← signatureOf u d
  return ⟨d.spelling, result, arguments, m⟩

section classes
variable (c : Context) (reflect : Target → Walk ClassRecord)

/-- The class behind a base specifier, recorded first when it is new. The arguments given to a
generic base are remembered. -/
def baseOf (d : Cursor) (r : ClassRecord) : Walk ClassRecord := do
  let some type := d.type | throw (.unsupported (.baseWithoutType d.spelling))
  let canonical := (c.unit.type type).canonical
  let some declaration := (c.unit.type canonical).declaration
    | throw (.unsupported (.baseWithoutDeclaration d.spelling))
  let base := c.unit.cursor declaration
  match base.kind with
  | .classTemplate =>
    let known ← reflect (.declared declaration (c.metadata base))
    let arguments ← (c.unit.type type).arguments.mapM (resolveType c.unit)
    unless arguments.isEmpty do
      modify fun p => { p with
        baseArguments :=
          p.baseArguments.insert (r.qualifiedName, known.qualifiedName) arguments }
    return known
  | .classDecl | .structDecl => reflect (.typed canonical)
  | kind => throw (.unsupported (.baseKind kind r.qualifiedName))

/-- Whether a declaration marks the place for generated members. -/
def isBodyMarker (d : Cursor) : Bool :=
  d.kind == .method && d.spelling == c.bodyMarker && d.arguments.isEmpty

/-- Enters one member. Members that are neither bases, nor the body marker, nor marked for
reflection are passed over; a specialisation has its fields from the template instead. -/
def addMember (specialized : Bool) (r : ClassRecord) (i : CursorId) : Walk ClassRecord := do
  let d := c.unit.cursor i
  if isBodyMarker c d then
    return { r with bodyLine := .proper (some d.line) }
  else if d.kind = .baseSpecifier then
    let base ← baseOf c reflect d r
    return { r with bases := r.bases ++ [.proper base.qualifiedName] }
  else
    match c.reflected? d with
    | none => return r
    | some m =>
      match d.kind with
      | .fieldDecl =>
        if specialized then return r
        else return { r with fields := r.fields ++ [← fieldOf c.unit d m] }
      | .method =>
        let method ← methodOf c.unit d m
        let method ← if specialized then specializeMethod r.type method else pure method
        return { r with methods := r.methods ++ [method] }
      | kind => throw (.unsupported (.member kind d.spelling r.qualifiedName))

def finish (r : ClassRecord) : Walk ClassRecord := do
  let promoted ← promotedFields r
  let r := { r with fields := r.fields ++ promoted }
  Walk.update fun registry => registry.addClass r
  return r

def reflectDeclared (i : CursorId) (m : Metadata) : Walk ClassRecord := do
  let d := c.unit.cursor i
  let type ← resolveCursor c.unit i
  match (← Walk.registry).classes.find? type.qualifiedName with
  | some known => return known
  | none =>
    let start : ClassRecord := ⟨type, m, classKeyOf d, d.isAbstract, [], [], [], .proper none⟩
    finish (← d.children.foldlM (addMember c reflect false) start)

/-- The declaration whose members a specialisation has: that of its template, which has to be
recorded as a type. -/
def templateOrigin (type : CppType) : Walk CursorId := do
  let name := type.templateName?.getD ""
  let p ← get
  match p.registry.types.find? name, p.origins.find? name with
  | some _, some i => return i
  | _, _ => throw (.missingTemplate name)

/-- Records a class from its type. Of a specialisation the members of the template are walked,
and a body marker among them is not its own. -/
def reflectTyped (t : TypeId) : Walk ClassRecord := do
  let type ← resolveType c.unit t
  match (← Walk.registry).classes.find? type.qualifiedName with
  | some known => return known
  | none =>
    let some declaration := (c.unit.canonical t).declaration
      | throw (.unsupported (.typeWithoutDeclaration (c.unit.type t).spelling))
    let d := c.unit.cursor declaration
    let start : ClassRecord :=
      ⟨type, c.metadata d, classKeyOf d, d.isAbstract, [], [], [], .proper none⟩
    if type.isSpecialized then
      let source := c.unit.cursor (← templateOrigin type)
      let r ← source.children.foldlM (addMember c reflect true) start
      finish { r with bodyLine := .proper none }
    else
      finish (← d.children.foldlM (addMember c reflect false) start)

/-- Records a class, given how its bases are recorded. -/
def reflectWith : Target → Walk ClassRecord
  | .declared i m => reflectDeclared c reflect i m
  | .typed t => reflectTyped c reflect t

end classes

/-- Records a class whose bases are nested at most `n` levels deep. -/
def reflectWithin (c : Context) : Nat → Target → Walk ClassRecord
  | 0, _ => throw .endlessRecursion
  | n + 1, t => reflectWith c (reflectWithin c n) t

/-- Records a class with everything that it needs. What a round of nested bases records can end
the next round, but no later one: a chain more than twice as long as the unit has declarations
and types never ends. -/
def reflectClass (c : Context) (t : Target) : Walk ClassRecord :=
  reflectWithin c (2 * (c.unit.cursors.size + c.unit.types.size) + 2) t

def addEnumerator (c : Context) (e : EnumRecord) (i : CursorId) : EnumRecord :=
  let d := c.unit.cursor i
  if d.kind != .enumConstant then e
  else if d.spelling == c.bodyMarker then { e with bodyLine := .proper (some d.line) }
  else { e with values := e.values ++ [⟨d.spelling, d.enumValue, c.metadata d⟩] }

def reflectEnum (c : Context) (i : CursorId) (m : Metadata) : Walk EnumRecord := do
  let type ← resolveCursor c.unit i
  match (← Walk.registry).enums.find? type.qualifiedName with
  | some known => return known
  | none =>
    let r := (c.unit.cursor i).children.foldl (addEnumerator c) ⟨type, m, [], .proper none⟩
    Walk.update fun registry => registry.addEnum r
    return r

/-- The class and the enum that an alias stands for. A specialisation used first by an alias is
recorded. -/
def aliasTargets (c : Context) (t : TypeId) (target : CppType) :
    Walk (Option String × Option String) := do
  let r ← Walk.registry
  match (c.unit.type t).kind with
  | .record =>
    match r.classes.find? target.qualifiedName with
    | some known => return (some known.qualifiedName, none)
    | none =>
      if target.isTemplated then
        return (some (← reflectClass c (.typed t)).qualifiedName, none)
      else return (none, none)
  | .enum => return (none, (r.enums.find? target.qualifiedName).map EnumRecord.qualifiedName)
  | _ => return (none, none)

def reflectAlias (c : Context) (i : CursorId) (m : Metadata) : Walk AliasRecord := do
  let d := c.unit.cursor i
  let some own := d.type | throw (.unsupported (.aliasWithoutType d.spelling))
  let type ← resolveType c.unit own
  match (← Walk.registry).aliases.find? type.qualifiedName with
  | some known => return known
  | none =>
    let aliased := (c.unit.type own).canonical
    let target ← resolveType c.unit aliased
    let (targetClass, targetEnum) ← aliasTargets c aliased target
    let r : AliasRecord := ⟨type, target, m, targetClass, targetEnum⟩
    Walk.update fun registry => registry.addAlias r
    return r

def reflectFunction (c : Context) (i : CursorId) (m : Metadata) : Walk FunctionRecord := do
  let d := c.unit.cursor i
  let id : QualifiedName := ⟨d.spelling, c.unit.namespaceOf d.parent⟩
  match (← Walk.registry).functions.find? id.text with
  | some known => return known
  | none =>
    let (result, arguments) ← signatureOf c.unit d
    let r : FunctionRecord := ⟨id, result, arguments, m⟩
    Walk.update fun registry => registry.addFunction r
    return r

/-- Records one declaration outside classes, when it is a definition in the module and marked for
reflection. -/
def reflectDeclaration (c : Context) (i : CursorId) : Walk Unit := do
  let d := c.unit.cursor i
  if !(d.kind.needsDefinition && d.isDefinition || d.kind == .functionDecl) then return
  if !c.isInModule d then return
  match c.reflected? d with
  | none => return
  | some m =>
    if d.kind.isClass then discard (reflectClass c (.declared i m))
    else if d.kind = .enumDecl then discard (reflectEnum c i m)
    else if d.kind.isAlias then discard (reflectAlias c i m)
    else discard (reflectFunction c i m)

/-- Records the declarations from one downwards, through namespaces nested at most `n` deep. -/
def reflectFrom (c : Context) : Nat → CursorId → Walk Unit
  | 0, _ => throw .endlessRecursion
  | n + 1, i => do
    let d := c.unit.cursor i
    if d.kind = .unit || d.kind = .namespace then
      d.children.forM (reflectFrom c n)
    else reflectDeclaration c i

/-- Records every declaration of a unit from one downwards. Namespaces are nested no deeper than
the unit has declarations. -/
def reflect (c : Context) (i : CursorId) : Walk Unit :=
  reflectFrom c (c.unit.cursors.size + 1) i

end Introspect.Reflection
