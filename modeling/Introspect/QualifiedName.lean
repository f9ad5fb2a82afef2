import Introspect.Given
import Introspect.Text.Cut

/-! Names inside namespaces. -/
namespace Introspect

/-- A name and the namespace around it, as they were given. -/
structure QualifiedName where
  givenName : Given String
  givenScope : Given String
deriving DecidableEq

namespace QualifiedName

/-- The name inside the namespace. Scope marks in it belong to nested classes. -/
def name (q : QualifiedName) : String := q.givenName.text

/-- The namespace, empty at the top, where any vacant value stands for it. -/
def scope (q : QualifiedName) : String :=
  if q.givenScope.toJson.isVacant then "" else q.givenScope.text

@[simp] theorem name_mk (name scope : String) : (mk name scope).name = name := rfl

@[simp] theorem scope_mk (name scope : String) : (mk name scope).scope = scope := by
  by_cases h : scope = ""
  · subst h; rfl
  · simp [QualifiedName.scope, Given.toJson, Datum.toJson, Json.isVacant, h]

instance : Inhabited QualifiedName := ⟨⟨"", ""⟩⟩

def isGlobal (q : QualifiedName) : Bool := q.scope.isEmpty

/-- The namespaces around the name, outermost first. -/
def namespaces (q : QualifiedName) : List String :=
  if q.isGlobal then [] else Text.scopesOf q.scope

/-- Whether the namespaces can be told apart: they were given as a text, if there are any. -/
def hasNamespaces (q : QualifiedName) : Bool := q.givenScope.proper?.isSome || q.isGlobal

/-- The namespace and the name with a scope mark between them. -/
def text (q : QualifiedName) : String :=
  if q.isGlobal then q.name else q.scope ++ "::" ++ q.name

/-- The qualified name from the global namespace on. -/
def globalText (q : QualifiedName) : String := "::" ++ q.text

/-- The qualified name with an underscore for every scope mark. -/
def flatText (q : QualifiedName) : String := "_".intercalate (Text.scopesOf q.text)

/-- A qualified name split behind the namespace it starts with. A name that does not start with
the namespace is kept whole, without one. -/
def split (qualified scope : String) : QualifiedName :=
  if scope.isEmpty then ⟨qualified, ""⟩
  else match Text.afterPrefix? (scope ++ "::") qualified with
    | some name => ⟨name, scope⟩
    | none => ⟨qualified, ""⟩

/-- Equality as data. -/
def agrees (a b : QualifiedName) : Bool :=
  a.givenName.agrees b.givenName && a.givenScope.agrees b.givenScope

theorem text_split (qualified scope : String) : (split qualified scope).text = qualified := by
  unfold split
  split
  · simp [text, isGlobal]
  · next h =>
    split
    · next name hn =>
      have := Text.afterPrefix?_eq_some_iff.1 hn
      simp [text, isGlobal, h, this]
    · simp [text, isGlobal]

theorem scope_split (qualified scope : String) :
    (split qualified scope).scope = scope ∨ (split qualified scope).scope = "" := by
  unfold split
  split
  · simp
  · split <;> simp

end QualifiedName
end Introspect
