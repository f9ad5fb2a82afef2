import Introspect.Registry.Basic

/-! Putting two registries together. -/
namespace Introspect

section
variable {α : Type} {key : α → String}

/-- Adds values one after another. In a strict merge a value that differs from the one of the
same key stops the work; the values before it stay added. -/
def mergeItems (strict : Bool) (agrees : α → α → Bool) :
    List α → Catalog key → Catalog key × Option String
  | [], mine => (mine, none)
  | v :: r, mine =>
    if strict && (mine.find? (key v)).any (fun m => !agrees m v) then (mine, some (key v))
    else mergeItems strict agrees r (mine.insert v)

end

namespace Registry

/-- Which name each number stands for, given all names. Of names with one number the last
counts. -/
def holdersOf (hash : NameHash) (names : List String) : Table Int String :=
  .ofList (names.map fun n => (hash n, n))

/-- The registry with its numbers read off its names. -/
def withHolders (r : Registry) : Registry :=
  { r with
    typeHolders := holdersOf r.hash r.types.keys
    functionHolders := holdersOf r.hash r.functions.keys }

/-- Adds every record of another registry, which wins over records of the same name. A strict
merge stops at the first name that both bind differently and keeps what was added until then;
the numbers of names are then left as they were. -/
def merge (r other : Registry) (strict : Bool) : Registry × Option Failure :=
  match mergeItems strict CppType.agrees other.types.items r.types with
  | (types, some k) => ({ r with types }, some (.mergeConflict .types k))
  | (types, none) =>
  let r := { r with types }
  match mergeItems strict ClassRecord.agrees other.classes.items r.classes with
  | (classes, some k) => ({ r with classes }, some (.mergeConflict .classes k))
  | (classes, none) =>
  let r := { r with classes }
  match mergeItems strict EnumRecord.agrees other.enums.items r.enums with
  | (enums, some k) => ({ r with enums }, some (.mergeConflict .enums k))
  | (enums, none) =>
  let r := { r with enums }
  match mergeItems strict AliasRecord.agrees other.aliases.items r.aliases with
  | (aliases, some k) => ({ r with aliases }, some (.mergeConflict .aliases k))
  | (aliases, none) =>
  let r := { r with aliases }
  match mergeItems strict FunctionRecord.agrees other.functions.items r.functions with
  | (functions, some k) => ({ r with functions }, some (.mergeConflict .functions k))
  | (functions, none) => ({ r with functions }.withHolders, none)

/-- The merge in which records of `other` win and nothing is refused. -/
def union (r other : Registry) : Registry :=
  { r with
    types := r.types.insertAll other.types.items
    classes := r.classes.insertAll other.classes.items
    enums := r.enums.insertAll other.enums.items
    aliases := r.aliases.insertAll other.aliases.items
    functions := r.functions.insertAll other.functions.items }.withHolders

theorem mergeItems_lenient {α : Type} {key : α → String} (agrees : α → α → Bool) (l : List α)
    (c : Catalog key) : mergeItems false agrees l c = (c.insertAll l, none) := by
  induction l generalizing c with
  | nil => rfl
  | cons v r ih => simp [mergeItems, ih, Catalog.insertAll]

/-- Without strictness a merge is the union. -/
theorem merge_lenient (r other : Registry) : r.merge other false = (r.union other, none) := by
  simp [merge, mergeItems_lenient, union, withHolders]

end Registry
end Introspect
