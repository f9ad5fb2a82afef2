import Introspect.Proofs.Reflection.Names
import Introspect.Proofs.Reflection.Substitution

/-! What a walk does to its progress, one change at a time, with what is known of each change. -/
namespace Introspect.Reflection
open Relation

section resolved
variable (u : CompilationUnit) (p : Progress)

/-- A type of the unit is registered as the given one. -/
def Resolved (i : TypeId) (t : CppType) : Prop :=
  p.registry.types.find? (recordedName u i) = some t

def ResolvedUse (i : TypeId) (v : TypeUse) : Prop :=
  ∃ t, Resolved u p i t ∧ v = ⟨t, (u.type i).isConst⟩

/-- The type of a declaration is registered as the given one. -/
def ResolvedCursor (x : CursorId) (t : CppType) : Prop :=
  ∃ i, (u.cursor x).type = some i ∧ Resolved u p i t

def ResolvedVariable (x : CursorId) (v : TypeUse) : Prop :=
  ∃ i, (u.cursor x).type = some i ∧ ResolvedUse u p i v

structure IsSignature (d : Cursor) (result : TypeUse) (arguments : List TypeUse) : Prop where
  result : ∃ i, d.resultType = some i ∧ ResolvedUse u p i result
  arguments : List.Forall₂ (ResolvedVariable u p) d.arguments arguments

/-- What a new type is made of, and the declaration that is remembered for it. -/
inductive TypeSource : CppType → Option CursorId → Prop
  | type {i as} :
      List.Forall₂ (Resolved u p) (underlying u (u.type (unwrap u i))).arguments as →
      TypeSource
        (.build (nameOf u (u.type (unwrap u i))) (classify (underlying u (u.type (unwrap u i))))
          .specialized as)
        (u.type (unwrap u i)).declaration
  | template {d as} : IsTemplate u d →
      List.Forall₂ (ResolvedCursor u p) (u.templateParameters (u.cursor d)) as →
      TypeSource (.build (templateId u (u.cursor d)) .record .generic as) (some d)

/-- The declaration whose members a class of the type has. The flag tells whether it is that of
the template of a specialisation. -/
inductive ClassSource (type : CppType) : Bool → CursorId → Prop
  | declared {d} : (u.cursor d).kind.isClass →
      p.registry.types.find? (declaredName u d) = some type → ClassSource type false d
  | typed {t d} : ClassType u t → Resolved u p t type → type.isSpecialized = false →
      (u.canonical t).declaration = some d → ClassSource type false d
  | specialized {t d generic} : Resolved u p t type → type.isSpecialized →
      p.registry.types.find? (type.templateName?.getD "") = some generic →
      p.origins.find? (type.templateName?.getD "") = some d → ClassSource type true d

end resolved

def Progress.withClass (p : Progress) (r : ClassRecord) : Progress :=
  { p with registry := { p.registry with classes := p.registry.classes.insert r } }

/-- The progress with a new type, first resolved from the given declaration. -/
def Progress.withType (p : Progress) (t : CppType) (holders : Table Int String)
    (origin : Option CursorId) : Progress :=
  { p with
    registry := { p.registry with types := p.registry.types.insert t, typeHolders := holders }
    origins := match origin with
      | none => p.origins
      | some d => p.origins.insert t.qualifiedName d }

/-- Every remembered declaration is one that a type of its name is resolved from. -/
def OriginsNamed (u : CompilationUnit) (p : Progress) : Prop :=
  ∀ n d, p.origins.find? n = some d → Origin u n d

/-- Every generic type is that of a class template, which is remembered for it. -/
def GenericTypes (u : CompilationUnit) (p : Progress) : Prop :=
  ∀ t ∈ p.registry.types.items, t.isGeneric → ∃ e, IsTemplate u e ∧
    t.qualifiedName = declaredName u e ∧
    t.arguments.length = (u.templateParameters (u.cursor e)).length ∧
    p.origins.find? t.qualifiedName = some e

/-- Template arguments of registered types are registered. -/
def ArgumentsClosed (r : Registry) : Prop :=
  ∀ t ∈ r.types.items, ∀ a ∈ t.arguments, a ∈ r.types.items

/-- Types came in, and nothing else. What was registered before stays as it was. -/
structure Resolves (u : CompilationUnit) (p q : Progress) : Prop where
  frame : ∃ types holders origins, q = { p with
    registry := { p.registry with types := types, typeHolders := holders }
    origins := origins }
  types : ∀ n t, p.registry.types.find? n = some t → q.registry.types.find? n = some t
  origins : ∀ n t d, p.registry.types.find? n = some t → p.origins.find? n = some d →
    q.origins.find? n = some d
  named : OriginsNamed u p → OriginsNamed u q
  generic : GenericTypes u p → GenericTypes u q
  closed : NamesApart u → ArgumentsClosed p.registry → ArgumentsClosed q.registry

section members
variable (c : Context) (p : Progress)

structure IsField (x : CursorId) (f : Field) : Prop where
  name : f.name = (c.unit.cursor x).spelling
  use : ResolvedVariable c.unit p x f.use
  metadata : c.reflected? (c.unit.cursor x) = some f.metadata

structure IsMethod (x : CursorId) (m : Method) : Prop where
  name : m.name = (c.unit.cursor x).spelling
  signature : IsSignature c.unit p (c.unit.cursor x) m.result m.arguments
  metadata : c.reflected? (c.unit.cursor x) = some m.metadata

/-- The method as it is in a specialisation of the template that declares it. -/
def IsSpecializedMethod (type : CppType) (x : CursorId) (m : Method) : Prop :=
  ∃ generic m', p.registry.types.find? (type.templateName?.getD "") = some generic ∧
    IsMethod c p x m' ∧ m = substitutedMethod generic.arguments type.arguments m'

def IsBase (x : CursorId) (b : Given String) : Prop :=
  ∃ n ∈ p.registry.classes.keys, baseName? c.unit (c.unit.cursor x) = some n ∧ b = .proper n

/-- The base specifier gives template arguments to the class template. -/
structure Binds (x : CursorId) (t : TypeId) (e : CursorId) : Prop where
  kind : (c.unit.cursor x).kind = .baseSpecifier
  type : (c.unit.cursor x).type = some t
  declaration : (c.unit.canonical t).declaration = some e
  template : (c.unit.cursor e).kind = .classTemplate
  arguments : (c.unit.type t).arguments ≠ []

/-- What a base specifier of a class gives to the class template of a name. -/
def IsBinding (type : CppType) (n : String) (as : List CppType) : Prop :=
  ∃ flag d x t e, ClassSource c.unit p type flag d ∧ x ∈ (c.unit.cursor d).children ∧
    Binds c x t e ∧ n = declaredName c.unit e ∧
    List.Forall₂ (Resolved c.unit p) (c.unit.type t).arguments as

def isField (x : CursorId) : Bool :=
  (c.unit.cursor x).kind == .fieldDecl && (c.reflected? (c.unit.cursor x)).isSome

def isMethod (x : CursorId) : Bool :=
  (c.unit.cursor x).kind == .method && !isBodyMarker c (c.unit.cursor x) &&
    (c.reflected? (c.unit.cursor x)).isSome

def isSpecifier (x : CursorId) : Bool := (c.unit.cursor x).kind == .baseSpecifier

/-- The record of a class holds what the declarations say, before fields from templates. -/
structure Members (specialized : Bool) (xs : List CursorId) (r : ClassRecord) : Prop where
  fields : List.Forall₂ (IsField c p) (if specialized then [] else xs.filter (isField c)) r.fields
  methods : List.Forall₂ (if specialized then IsSpecializedMethod c p r.type else IsMethod c p)
    (xs.filter (isMethod c)) r.methods
  bases : List.Forall₂ (IsBase c p) (xs.filter (isSpecifier c)) r.bases
  bound : ∀ x ∈ xs, ∀ t e, Binds c x t e →
    (p.baseArguments.find? (r.qualifiedName, declaredName c.unit e)).isSome

end members

/-- One change. A class that is entered again, in place, is among its own ancestors. -/
inductive Step (c : Context) : Progress → Progress → Prop
  | report {p} (e : Event) : Step c p { p with events := p.events ++ [e] }
  | enterTypes {p q} : Resolves c.unit p q → Step c p q
  | bindBase {p type n as} : IsBinding c p type n as →
      Step c p
        { p with baseArguments := p.baseArguments.insert (type.qualifiedName, n) as }
  | enterClass {p q flag d r promoted} : ClassSource c.unit p r.type flag d →
      Members c p flag (c.unit.cursor d).children r →
      (promotedFields r).run p = .ok promoted q →
      (r.qualifiedName ∈ p.registry.classes.keys → Circular c.unit r.qualifiedName) →
      Step c p (q.withClass { r with fields := r.fields ++ promoted })
  | enterEnum {p e} : e.type ∈ p.registry.types.items →
      Step c p
        { p with registry := { p.registry with enums := p.registry.enums.insert e } }
  | enterAlias {p a targetClass targetEnum} : a.type ∈ p.registry.types.items →
      a.target ∈ p.registry.types.items → a.targetClass = .proper targetClass →
      a.targetEnum = .proper targetEnum → (∀ n ∈ targetClass, n ∈ p.registry.classes.keys) →
      (∀ n ∈ targetEnum, n ∈ p.registry.enums.keys) →
      Step c p
        { p with registry := { p.registry with aliases := p.registry.aliases.insert a } }
  | enterFunction {p d f holders} : IsSignature c.unit p (c.unit.cursor d) f.result f.arguments →
      Step c p
        { p with registry := { p.registry with
            functions := p.registry.functions.insert f, functionHolders := holders } }

/-- Any number of changes, one after another. -/
abbrev Steps (c : Context) : Progress → Progress → Prop := ReflTransGen (Step c)

end Introspect.Reflection
