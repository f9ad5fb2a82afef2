import Mathlib.Logic.Relation
import Introspect.Reflection.Declare

/-! The names that types and declarations of a unit are recorded under, and who inherits from whom
by these names. -/
namespace Introspect.Reflection
open Relation

/-- The qualified name that a type is recorded under. -/
def recordedName (u : CompilationUnit) (i : TypeId) : String := (u.type (unwrap u i)).spelling

/-- The qualified name that a class template is recorded under. -/
def templateId (u : CompilationUnit) (d : Cursor) : QualifiedName :=
  ⟨d.spelling, u.namespaceOf d.parent⟩

/-- The qualified name that the type of a declaration is recorded under. -/
def declaredName (u : CompilationUnit) (d : CursorId) : String :=
  match (u.cursor d).type with
  | some t => recordedName u t
  | none => (templateId u (u.cursor d)).text

/-- The qualified name of a class to be recorded. -/
def targetName (u : CompilationUnit) : Target → String
  | .declared d _ => declaredName u d
  | .typed t => recordedName u t

/-- A class template that the compiler reports no type for. -/
def IsTemplate (u : CompilationUnit) (d : CursorId) : Prop :=
  (u.cursor d).type = none ∧ (u.cursor d).kind = .classTemplate

/-- The second type is a template argument of the first. -/
def IsArgument (u : CompilationUnit) (i j : TypeId) : Prop :=
  j ∈ (underlying u (u.type (unwrap u i))).arguments

/-- The type is that of a parameter of the class template, or a template argument within one. -/
def IsParameter (u : CompilationUnit) (d : CursorId) (j : TypeId) : Prop :=
  ∃ x ∈ u.templateParameters (u.cursor d), ∃ t, (u.cursor x).type = some t ∧
    ReflTransGen (IsArgument u) t j

/-- No type is named like one of its template arguments, and no class template like one of its
parameters, at any depth. -/
structure NamesApart (u : CompilationUnit) : Prop where
  types : ∀ i j, TransGen (IsArgument u) i j → recordedName u j ≠ recordedName u i
  templates : ∀ d, IsTemplate u d → ∀ j, IsParameter u d j → recordedName u j ≠ declaredName u d

/-- A canonical type that is a record or is declared by a class. -/
structure ClassType (u : CompilationUnit) (t : TypeId) : Prop where
  canonical : ∃ s, (u.type s).canonical = t
  isClass : (u.type t).kind = .record ∨
    ∃ e, (u.type t).declaration = some e ∧ (u.cursor e).kind.isClass

/-- The declaration of a class, an enum or an alias is recorded under the name. A class is so under
the names of the class types that it declares, too. -/
inductive Declares (u : CompilationUnit) : String → CursorId → Prop
  | declared {d} : (u.cursor d).kind.needsDefinition → Declares u (declaredName u d) d
  | typed {t d} : ClassType u t →
      (u.type t).declaration = some d ∨ (u.canonical t).declaration = some d →
      Declares u (recordedName u t) d

/-- No two declarations of classes, enums or aliases are recorded under one name. -/
def NamesDistinct (u : CompilationUnit) : Prop :=
  ∀ n d e, Declares u n d → Declares u n e → d = e

/-- A type of that name is resolved from the declaration. -/
inductive Origin (u : CompilationUnit) : String → CursorId → Prop
  | type {i d} : (u.type (unwrap u i)).declaration = some d → Origin u (recordedName u i) d
  | template {d} : IsTemplate u d → Origin u (declaredName u d) d

/-- The name of the class behind a base specifier. -/
def baseName? (u : CompilationUnit) (d : Cursor) : Option String := do
  let type ← d.type
  let e ← (u.canonical type).declaration
  match (u.cursor e).kind with
  | .classTemplate => some (declaredName u e)
  | .classDecl | .structDecl => some (recordedName u (u.type type).canonical)
  | _ => none

/-- A class of that name has the members of the declaration: its own one or, for a specialisation,
that of its template. -/
inductive Walked (u : CompilationUnit) : String → CursorId → Prop
  | declared {d} : (u.cursor d).kind.isClass → Walked u (declaredName u d) d
  | typed {t d} : (u.canonical t).declaration = some d → Walked u (recordedName u t) d
  | specialized {t d} : Origin u (Text.before '<' (recordedName u t)) d →
      Walked u (recordedName u t) d

/-- A declaration of a class of the first name has a base specifier for the second. -/
def Inherits (u : CompilationUnit) (n m : String) : Prop :=
  ∃ d, Walked u n d ∧ ∃ s ∈ (u.cursor d).children,
    (u.cursor s).kind = .baseSpecifier ∧ baseName? u (u.cursor s) = some m

/-- A class of that name is among its own ancestors. -/
def Circular (u : CompilationUnit) (n : String) : Prop := TransGen (Inherits u) n n

theorem text_nameOf (u : CompilationUnit) (i : TypeId) :
    (nameOf u (u.type (unwrap u i))).text = recordedName u i :=
  QualifiedName.text_split _ _

theorem declaredName_of_type {u : CompilationUnit} {d : CursorId} {t : TypeId}
    (h : (u.cursor d).type = some t) : declaredName u d = recordedName u t := by
  simp only [declaredName, h]

theorem IsTemplate.declaredName_eq {u : CompilationUnit} {d : CursorId} (h : IsTemplate u d) :
    declaredName u d = (templateId u (u.cursor d)).text := by
  simp only [declaredName, h.1]

section finite
variable {u : CompilationUnit}

theorem cursor_of_size_le {d : CursorId} (h : u.cursors.size ≤ d) : u.cursor d = .unknown := by
  rw [CompilationUnit.cursor, Array.getElem?_eq_none h, Option.getD_none]

theorem IsTemplate.lt_size {d : CursorId} (h : IsTemplate u d) : d < u.cursors.size := by
  apply Nat.lt_of_not_le
  intro hge
  have hkind := h.2
  rw [cursor_of_size_le hge] at hkind
  cases hkind

theorem IsTemplate.declares {d : CursorId} (h : IsTemplate u d) :
    Declares u (declaredName u d) d :=
  .declared (by rw [h.2]; rfl)

theorem type_of_size_le {i : TypeId} (h : u.types.size ≤ i) : u.type i = .unknown i := by
  rw [CompilationUnit.type, Array.getElem?_eq_none h, Option.getD_none]

/-- The names that classes, enums and aliases may be recorded under, with their declarations. -/
def declarations (u : CompilationUnit) : List (String × CursorId) :=
  ((List.range u.cursors.size).filter fun d => (u.cursor d).kind.needsDefinition).map
      (fun d => (declaredName u d, d)) ++
    ((List.range u.types.size).filter fun t =>
      (u.type t).kind = .record || (u.type t).declaration.any fun e => (u.cursor e).kind.isClass).flatMap
      fun t => ((u.type t).declaration.toList ++ (u.canonical t).declaration.toList).map
        fun d => (recordedName u t, d)

theorem Declares.mem_declarations {n : String} {d : CursorId} (h : Declares u n d) :
    (n, d) ∈ declarations u := by
  cases h with
  | declared hd =>
    have hlt : d < u.cursors.size := by
      apply Nat.lt_of_not_le
      intro hge
      rw [cursor_of_size_le hge] at hd
      cases hd
    simp only [declarations, List.mem_append, List.mem_map, List.mem_filter, List.mem_range]
    exact .inl ⟨d, ⟨hlt, hd⟩, rfl⟩
  | @typed t _ ht hd =>
    have hclass : (u.type t).kind = .record ∨
        (u.type t).declaration.any fun e => (u.cursor e).kind.isClass := by
      rcases ht.isClass with h | ⟨e, he, hkind⟩
      · exact .inl h
      · simp [he, hkind]
    have hlt : t < u.types.size := by
      apply Nat.lt_of_not_le
      intro hge
      rw [type_of_size_le hge] at hclass
      simp [FrontType.unknown] at hclass
    simp only [declarations, List.mem_append, List.mem_flatMap, List.mem_map, List.mem_filter,
      List.mem_range, Bool.or_eq_true, decide_eq_true_eq, Option.mem_toList]
    exact .inr ⟨t, ⟨hlt, hclass⟩, d, hd, rfl⟩

/-- Names are distinct when those in use are. -/
theorem namesDistinct_of_declarations
    (h : ∀ a ∈ declarations u, ∀ b ∈ declarations u, a.1 = b.1 → a.2 = b.2) : NamesDistinct u :=
  fun _ _ _ hd he => h _ hd.mem_declarations _ he.mem_declarations rfl

/-- Names are apart when template arguments and parameters have no arguments themselves, and other
names than what they belong to. -/
theorem namesApart_of_flat
    (htypes : ∀ i < u.types.size, ∀ j ∈ (underlying u (u.type (unwrap u i))).arguments,
      (underlying u (u.type (unwrap u j))).arguments = [] ∧ recordedName u j ≠ recordedName u i)
    (htemplates : ∀ d < u.cursors.size, (u.cursor d).kind = .classTemplate →
      ∀ x ∈ u.templateParameters (u.cursor d), ∀ t ∈ (u.cursor x).type,
        (underlying u (u.type (unwrap u t))).arguments = [] ∧
          recordedName u t ≠ declaredName u d) : NamesApart u := by
  have hargument : ∀ i j, IsArgument u i j →
      (underlying u (u.type (unwrap u j))).arguments = [] ∧ recordedName u j ≠ recordedName u i := by
    intro i j hij
    by_cases hi : i < u.types.size
    · exact htypes i hi j hij
    · have htype := type_of_size_le (Nat.le_of_not_lt hi)
      simp [IsArgument, underlying, unwrap, htype, FrontType.unknown] at hij
  have hflat : ∀ {i j}, (underlying u (u.type (unwrap u i))).arguments = [] →
      ReflTransGen (IsArgument u) i j → j = i := by
    intro i j hi hij
    rcases ReflTransGen.cases_head hij with he | ⟨k, hik, -⟩
    · exact he.symm
    · simp [IsArgument, hi] at hik
  constructor
  · intro i j hij
    obtain ⟨k, hik, hkj⟩ := TransGen.head'_iff.1 hij
    obtain ⟨hk, hne⟩ := hargument i k hik
    obtain rfl := hflat hk hkj
    exact hne
  · rintro d hd j ⟨x, hx, t, ht, htj⟩
    obtain ⟨hflatT, hne⟩ := htemplates d hd.lt_size hd.2 x hx t ht
    obtain rfl := hflat hflatT htj
    exact hne

end finite
end Introspect.Reflection
