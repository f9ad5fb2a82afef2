import Introspect.Reflection.Basic
import Introspect.Registry.Query

/-! Putting template arguments in place of template parameters, and the fields that a class has
from templates. -/
namespace Introspect.Reflection

/-- The argument at the place of a parameter among the parameters; other types stay. Nothing when
a parameter is unknown or has no argument. -/
def substitute? (parameters arguments : List CppType) (t : CppType) : Option CppType :=
  if t.kind != .template then some t
  else
    match (parameters.map CppType.qualifiedName).findIdx? (· == t.qualifiedName) with
    | none => none
    | some i => arguments[i]?

/-- The argument for a parameter. A parameter without one is reported and stays. -/
def substitute (parameters arguments : List CppType) (t : CppType) : Walk CppType :=
  match substitute? parameters arguments t with
  | some a => return a
  | none => do
    Walk.report (.parameterUnmatched t.qualifiedName (parameters.map CppType.qualifiedName))
    return t

/-- The use of a type with its parameter replaced. -/
def substituteUse (parameters arguments : List CppType) (u : TypeUse) : Walk TypeUse := do
  return { u with type := ← substitute parameters arguments u.type }

/-- A field with the parameter that it is of replaced. -/
def substituteField (parameters arguments : List CppType) (f : Field) : Walk Field := do
  if f.use.type.kind != .template then return f
  return { f with use := ← substituteUse parameters arguments f.use }

/-- A method of a template as it is in a specialisation of it. -/
def specializeMethod (type : CppType) (m : Method) : Walk Method := do
  let generic := type.templateName?.bind (← Walk.registry).types.find?
  let parameters := (generic.map CppType.arguments).getD []
  let result ← substituteUse parameters type.arguments m.result
  let arguments ← m.arguments.mapM (substituteUse parameters type.arguments)
  return { m with result, arguments }

/-- The class template that a templated type belongs to. -/
def genericClass (type : CppType) : Walk ClassRecord := do
  let name := type.templateName?.getD ""
  match (← Walk.registry).classes.find? name with
  | some c => return c
  | none => throw (.missingTemplate name)

/-- Fields found so far and the templates they came from. -/
structure Harvest where
  fields : List Field
  seen : List String

/-- The template and the arguments behind a base of a template; none behind a plain base. A
generic base takes the arguments of its base specifier, or those of the template itself. -/
def baseInstance? (generic : ClassRecord) (arguments : List CppType) (base : ClassRecord) :
    Walk (Option (ClassRecord × List CppType)) := do
  match base.type.template? with
  | none => return none
  | some .specialized => return some (← genericClass base.type, base.type.arguments)
  | some .generic =>
    match (← get).baseArguments.find? (generic.qualifiedName, base.qualifiedName) with
    | none => return some (base, arguments)
    | some given =>
      return some (base, ← given.mapM (substitute generic.type.arguments arguments))

/-- The fields of a template under the given arguments, then those of its templated bases in
order, for at most `n` levels of bases. A template met before adds nothing. -/
def harvest : Nat → ClassRecord → List CppType → Harvest → Walk Harvest
  | 0, _, _, _ => throw .endlessRecursion
  | n + 1, generic, arguments, h => do
    if generic.qualifiedName ∈ h.seen then return h
    let own ← generic.fields.mapM (substituteField generic.type.arguments arguments)
    let start : Harvest := ⟨h.fields ++ own, generic.qualifiedName :: h.seen⟩
    ((← Walk.registry).directBases generic).foldlM (fun h base => do
      match ← baseInstance? generic arguments base with
      | none => return h
      | some (template, bound) => harvest n template bound h) start

/-- The fields of a template and its templated ancestors. No chain of new templates is longer
than the registry has classes. -/
def templateFields (generic : ClassRecord) (arguments : List CppType) : Walk (List Field) := do
  let levels := (← Walk.registry).classes.size + 2
  return (← harvest levels generic arguments ⟨[], []⟩).fields

/-- The fields that a class has from templates: a specialisation those of its template, a plain
class those of the specialisations among its direct bases. -/
def promotedFields (c : ClassRecord) : Walk (List Field) := do
  match c.type.template? with
  | some .generic => return []
  | some .specialized => templateFields (← genericClass c.type) c.type.arguments
  | none =>
    ((← Walk.registry).directBases c).foldlM (fun fields base => do
      if !base.type.isSpecialized then return fields
      return fields ++ (← templateFields (← genericClass base.type) base.type.arguments)) []

end Introspect.Reflection
