import Introspect.Json.Canonical
import Introspect.Json.Shown

/-! Values as data give them: of the kind that belongs at a place, or of another kind. Data are
not checked more than they are used, and what was given is given back. -/
namespace Introspect

/-- A kind of value that data can give, each in one form. -/
class Datum (α : Type) where
  toJson : α → Json
  ofJson? : Json → Option α
  ofJson?_eq_some_iff : ∀ j a, ofJson? j = some a ↔ j = toJson a

instance : Datum Bool where
  toJson := .bool
  ofJson?
    | .bool b => some b
    | _ => none
  ofJson?_eq_some_iff j a := by cases j <;> simp

instance : Datum Int where
  toJson := .int
  ofJson?
    | .int n => some n
    | _ => none
  ofJson?_eq_some_iff j a := by cases j <;> simp

instance : Datum String where
  toJson := .text
  ofJson?
    | .text s => some s
    | _ => none
  ofJson?_eq_some_iff j a := by cases j <;> simp

/-- A text that may be missing. -/
instance : Datum (Option String) where
  toJson
    | some s => .text s
    | none => .null
  ofJson?
    | .text s => some (some s)
    | .null => some none
    | _ => none
  ofJson?_eq_some_iff j a := by cases j <;> cases a <;> simp

/-- A whole number that may be missing. -/
instance : Datum (Option Int) where
  toJson
    | some n => .int n
    | none => .null
  ofJson?
    | .int n => some (some n)
    | .null => some none
    | _ => none
  ofJson?_eq_some_iff j a := by cases j <;> cases a <;> simp

/-- A value of the kind that belongs at a place, or data of any other kind. -/
inductive Given (α : Type) [Datum α] where
  | proper (value : α)
  | other (data : Json) (isOther : (Datum.ofJson? data : Option α) = none)
deriving DecidableEq

namespace Given
variable {α : Type} [Datum α]

instance : Coe α (Given α) := ⟨.proper⟩

/-- The value, if it is of the kind that belongs there. -/
def proper? : Given α → Option α
  | .proper a => some a
  | .other .. => none

@[simp] theorem proper?_proper (a : α) : (proper a).proper? = some a := rfl

/-- What data give. -/
def ofJson (j : Json) : Given α :=
  match h : Datum.ofJson? j with
  | some a => .proper a
  | none => .other j h

def toJson : Given α → Json
  | .proper a => Datum.toJson a
  | .other j _ => j

def text (g : Given α) : String := g.toJson.plainly

def agrees (a b : Given α) : Bool := a.toJson.agrees b.toJson

/-- Whether anything is given. Null is nothing. -/
def isPresent (g : Given α) : Bool := g.toJson != .null

/-- Whether a value counts as true: all but vacant ones do. -/
def holds (g : Given Bool) : Bool := !g.toJson.isVacant

@[simp] theorem toJson_ofJson (j : Json) : (ofJson j : Given α).toJson = j := by
  unfold ofJson
  split
  · next a h => exact ((Datum.ofJson?_eq_some_iff j a).1 h).symm
  · rfl

@[simp] theorem ofJson_toJson (g : Given α) : ofJson g.toJson = g := by
  unfold ofJson
  cases g with
  | proper a =>
    have ha := (Datum.ofJson?_eq_some_iff (Datum.toJson a) a).2 rfl
    simp only [toJson]
    split <;> simp_all
  | other j h =>
    simp only [toJson]
    split <;> simp_all

@[simp] theorem text_proper (s : String) : (proper s).text = s := rfl

@[simp] theorem holds_proper (b : Bool) : (proper b).holds = b := by
  cases b <;> rfl

end Given
end Introspect
