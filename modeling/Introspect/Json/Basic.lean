import Introspect.Decimal

/-! Values of the JSON data format. Objects keep the order of their members. -/
namespace Introspect

/-- A JSON value. Whole numbers have no bound; numbers written with a fraction or an exponent are
kept as written. The names of the infinities and of the undefined number count as numbers. -/
inductive Json where
  | null
  | bool (value : Bool)
  | int (value : Int)
  | real (value : Decimal)
  | infinite (negative : Bool)
  | undefined
  | text (value : String)
  | array (items : List Json)
  | object (members : List (String × Json))
deriving Inhabited

namespace Json

/-- The value of the first member with the given name. Values that are no objects have none. -/
def member? (name : String) : Json → Option Json
  | .object ms => (ms.find? fun m => m.1 == name).map Prod.snd
  | _ => none

mutual
/-- Structural equality as a test. -/
def same : Json → Json → Bool
  | .null, .null => true
  | .bool a, .bool b => a == b
  | .int a, .int b => a == b
  | .real a, .real b => a == b
  | .infinite a, .infinite b => a == b
  | .undefined, .undefined => true
  | .text a, .text b => a == b
  | .array a, .array b => sameItems a b
  | .object a, .object b => sameMembers a b
  | _, _ => false
def sameItems : List Json → List Json → Bool
  | [], [] => true
  | a :: as, b :: bs => same a b && sameItems as bs
  | _, _ => false
def sameMembers : List (String × Json) → List (String × Json) → Bool
  | [], [] => true
  | (k, a) :: as, (l, b) :: bs => k == l && same a b && sameMembers as bs
  | _, _ => false
end

mutual
theorem same_iff (a b : Json) : same a b = true ↔ a = b := by
  cases a <;> cases b <;> simp [same, sameItems_iff, sameMembers_iff]
theorem sameItems_iff : ∀ as bs : List Json, sameItems as bs = true ↔ as = bs
  | [], [] => by simp [sameItems]
  | a :: as, b :: bs => by simp [sameItems, same_iff a b, sameItems_iff as bs]
  | [], _ :: _ => by simp [sameItems]
  | _ :: _, [] => by simp [sameItems]
theorem sameMembers_iff : ∀ as bs : List (String × Json), sameMembers as bs = true ↔ as = bs
  | [], [] => by simp [sameMembers]
  | (k, a) :: as, (l, b) :: bs => by
    simp [sameMembers, same_iff a b, sameMembers_iff as bs]
  | [], _ :: _ => by simp [sameMembers]
  | _ :: _, [] => by simp [sameMembers]
end

instance : DecidableEq Json := fun a b => decidable_of_iff _ (same_iff a b)

mutual
/-- How deep values are nested; a value without parts counts one. -/
def depth : Json → Nat
  | .array items => itemDepth items + 1
  | .object members => memberDepth members + 1
  | _ => 1
def itemDepth : List Json → Nat
  | [] => 0
  | x :: xs => max (depth x) (itemDepth xs)
def memberDepth : List (String × Json) → Nat
  | [] => 0
  | (_, x) :: xs => max (depth x) (memberDepth xs)
end

/-- What a value consists of: the items of an array, the names in an object, the characters of a
text. Other values have no parts. -/
def parts? : Json → Option (List Json)
  | .array items => some items
  | .object members => some (members.map fun m => .text m.1)
  | .text s => some (s.toList.map fun c => .text (String.singleton c))
  | _ => none

/-- A value that counts as absent: null, false, zero, or a value without parts. -/
def isVacant : Json → Bool
  | .null | .bool false | .text "" | .array [] | .object [] => true
  | .int n => n == 0
  | .real d => d.whole? == some 0
  | _ => false

/-- A value that may stand for a key: neither an array nor an object. -/
def isKey : Json → Bool
  | .array _ | .object _ => false
  | _ => true

def texts (l : List String) : Json := .array (l.map .text)

/-- A present value by `f`, an absent one as null. -/
def ofOption {α : Type} (f : α → Json) : Option α → Json
  | none => .null
  | some a => f a

end Json
end Introspect
