import Introspect.QualifiedName

/-! The types that reflection records speak of. -/
namespace Introspect

/-- What a type is to the runtime. Pointers, references and everything else without a kind of
its own are invalid; `template` is a parameter of a template. -/
inductive TypeKind where
  | invalid | bool | uint8 | int8 | uint16 | int16 | uint32 | int32 | uint64 | int64
  | float | double | longDouble | enum | record | void | template
deriving DecidableEq, Repr

namespace TypeKind

/-- Every kind, in the order of the runtime's numbering. -/
def all : List TypeKind :=
  [invalid, bool, uint8, int8, uint16, int16, uint32, int32, uint64, int64, float, double,
    longDouble, enum, record, void, template]

def label : TypeKind → String
  | invalid => "INVALID"
  | bool => "BOOL"
  | uint8 => "UINT8"
  | int8 => "INT8"
  | uint16 => "UINT16"
  | int16 => "INT16"
  | uint32 => "UINT32"
  | int32 => "INT32"
  | uint64 => "UINT64"
  | int64 => "INT64"
  | float => "FLOAT"
  | double => "DOUBLE"
  | longDouble => "LONG_DOUBLE"
  | enum => "ENUM"
  | record => "CLASS"
  | void => "VOID"
  | template => "TEMPLATE"

def ofLabel? (s : String) : Option TypeKind := all.find? fun k => k.label == s

theorem ofLabel?_label (k : TypeKind) : ofLabel? k.label = some k := by
  cases k <;> decide

def isSignedInteger (k : TypeKind) : Bool := k ∈ [int8, int16, int32, int64]

def isUnsigned (k : TypeKind) : Bool := k ∈ [uint8, uint16, uint32, uint64]

def isReal (k : TypeKind) : Bool := k ∈ [float, double, longDouble]

def isInteger (k : TypeKind) : Bool := k.isSignedInteger || k.isUnsigned

def isSigned (k : TypeKind) : Bool := k.isSignedInteger || k.isReal

def isPrimitive (k : TypeKind) : Bool := k == bool || k.isInteger || k.isReal

end TypeKind

/-- Whether a templated type is the template itself or one of its specialisations. -/
inductive TemplateKind where
  | generic
  | specialized
deriving DecidableEq, Repr

/-- The name of a template kind in registry files. -/
def TemplateKind.label : TemplateKind → String
  | .generic => "generic"
  | .specialized => "specialized"

def TemplateKind.ofLabel? (s : String) : Option TemplateKind :=
  [TemplateKind.generic, .specialized].find? fun k => k.label == s

/-- A named type. A templated one has at least one argument: the parameters of a generic
template, the arguments of a specialisation. -/
inductive CppType where
  | plain (id : QualifiedName) (kind : TypeKind)
  | templated (id : QualifiedName) (kind : TypeKind) (template : TemplateKind)
      (first : CppType) (rest : List CppType)

namespace CppType

instance : Inhabited CppType := ⟨.plain default .invalid⟩

mutual
/-- Structural equality as a test. -/
def same : CppType → CppType → Bool
  | .plain i k, .plain j l => i == j && k == l
  | .templated i k t a as, .templated j l u b bs =>
    i == j && k == l && t == u && same a b && sameAll as bs
  | _, _ => false
/-- Structural equality of lists of types as a test. -/
def sameAll : List CppType → List CppType → Bool
  | [], [] => true
  | a :: as, b :: bs => same a b && sameAll as bs
  | _, _ => false
end

mutual
theorem same_iff : ∀ a b : CppType, same a b = true ↔ a = b
  | .plain i k, .plain j l => by simp [same]
  | .templated i k t a as, .templated j l u b bs => by
    simp [same, same_iff a b, sameAll_iff as bs, and_assoc]
  | .plain .., .templated .. => by simp [same]
  | .templated .., .plain .. => by simp [same]
theorem sameAll_iff : ∀ as bs : List CppType, sameAll as bs = true ↔ as = bs
  | [], [] => by simp [sameAll]
  | a :: as, b :: bs => by simp [sameAll, same_iff a b, sameAll_iff as bs]
  | [], _ :: _ => by simp [sameAll]
  | _ :: _, [] => by simp [sameAll]
end

instance : DecidableEq CppType := fun a b => decidable_of_iff _ (same_iff a b)

mutual
/-- Equality as data: names that were not given as texts are compared by what they amount to. -/
def agrees : CppType → CppType → Bool
  | .plain i k, .plain j l => i.agrees j && k == l
  | .templated i k t a as, .templated j l u b bs =>
    i.agrees j && k == l && t == u && agrees a b && agreesAll as bs
  | _, _ => false
/-- Equality as data of lists of types. -/
def agreesAll : List CppType → List CppType → Bool
  | [], [] => true
  | a :: as, b :: bs => agrees a b && agreesAll as bs
  | _, _ => false
end

def id : CppType → QualifiedName
  | .plain i _ => i
  | .templated i _ _ _ _ => i

def kind : CppType → TypeKind
  | .plain _ k => k
  | .templated _ k _ _ _ => k

/-- The template kind of a templated type. -/
def template? : CppType → Option TemplateKind
  | .plain _ _ => none
  | .templated _ _ t _ _ => some t

/-- The template parameters or arguments; none for a type that is not templated. -/
def arguments : CppType → List CppType
  | .plain _ _ => []
  | .templated _ _ _ a as => a :: as

/-- The type with the given template arguments, plain when there are none. -/
def build (i : QualifiedName) (k : TypeKind) (t : TemplateKind) : List CppType → CppType
  | [] => .plain i k
  | a :: as => .templated i k t a as

/-- The name without the namespace. -/
def name (t : CppType) : String := t.id.name

/-- The qualified name, by which a registry knows the type. -/
def qualifiedName (t : CppType) : String := t.id.text

/-- Whether the type has template arguments or parameters. -/
def isTemplated (t : CppType) : Bool := t.template?.isSome

def isGeneric (t : CppType) : Bool := t.template? == some .generic

/-- Whether the type is a specialisation of a template. -/
def isSpecialized (t : CppType) : Bool := t.template? == some .specialized

/-- Whether objects of the type can exist: all but generic templates. -/
def isInstantiable (t : CppType) : Bool := !t.isGeneric

/-- The name to write in generated code. Classes and enums are named from the global namespace;
builtins, pointers and template parameters cannot be. -/
def codeName (t : CppType) : String :=
  if t.kind == .record || t.kind == .enum then t.id.globalText else t.id.text

/-- The qualified name of the generic template that a templated type belongs to: the part of a
specialisation's name before its first angle bracket. -/
def templateName? (t : CppType) : Option String :=
  match t.template? with
  | none => none
  | some .generic => some t.qualifiedName
  | some .specialized => some (Text.before '<' t.qualifiedName)

/-- The template header of a generic template with these parameters. -/
def templateHeader (t : CppType) : String :=
  "template <" ++ ", ".intercalate (t.arguments.map fun a => "typename " ++ a.name) ++ ">"

/-- The list of template arguments in angle brackets. -/
def argumentList (t : CppType) : String :=
  "<" ++ ", ".intercalate (t.arguments.map qualifiedName) ++ ">"

theorem arguments_build (i : QualifiedName) (k : TypeKind) (t : TemplateKind) (as : List CppType) :
    (build i k t as).arguments = as := by
  cases as <;> rfl

@[simp] theorem id_build (i : QualifiedName) (k : TypeKind) (t : TemplateKind)
    (as : List CppType) : (build i k t as).id = i := by
  cases as <;> rfl

@[simp] theorem kind_build (i : QualifiedName) (k : TypeKind) (t : TemplateKind)
    (as : List CppType) : (build i k t as).kind = k := by
  cases as <;> rfl

end CppType

/-- A type as it is used somewhere, possibly read-only. -/
structure TypeUse where
  type : CppType
  constness : Given Bool
deriving DecidableEq

namespace TypeUse

def isConst (u : TypeUse) : Bool := u.constness.holds

def signature (u : TypeUse) : String :=
  (if u.isConst then "const " else "") ++ u.type.codeName

def agrees (a b : TypeUse) : Bool := a.type.agrees b.type && a.constness.agrees b.constness

end TypeUse

end Introspect
