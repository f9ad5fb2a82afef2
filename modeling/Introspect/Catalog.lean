/-! Collections of values that carry their own key, in the order of the keys' first insertion. -/
namespace Introspect

/-- Values in the order in which their keys first came in, no key twice. -/
structure Catalog {α κ : Type} (key : α → κ) where
  items : List α
  nodup : (items.map key).Nodup

namespace Catalog
variable {α κ : Type} {key : α → κ}

@[ext] theorem ext {a b : Catalog key} (h : a.items = b.items) : a = b := by
  cases a; cases b; simp_all

instance [DecidableEq α] : DecidableEq (Catalog key) := fun a b =>
  decidable_of_iff (a.items = b.items) ⟨ext, fun h => h ▸ rfl⟩

def empty : Catalog key := ⟨[], by simp⟩

instance : Inhabited (Catalog key) := ⟨empty⟩

def keys (c : Catalog key) : List κ := c.items.map key

def size (c : Catalog key) : Nat := c.items.length

def isEmpty (c : Catalog key) : Bool := c.items.isEmpty

variable [DecidableEq κ]

def find? (c : Catalog key) (k : κ) : Option α := c.items.find? fun a => key a = k

def contains (c : Catalog key) (k : κ) : Bool := (c.find? k).isSome

/-- Replaces the value of the same key in place, or adds the value at the end. -/
def put (key : α → κ) (v : α) : List α → List α
  | [] => [v]
  | a :: r => if key a = key v then v :: r else a :: put key v r

theorem map_put (v : α) (l : List α) :
    (put key v l).map key =
      if key v ∈ l.map key then l.map key else l.map key ++ [key v] := by
  induction l with
  | nil => simp [put]
  | cons a r ih =>
    by_cases h : key a = key v
    · simp [put, h]
    · by_cases hm : key v ∈ r.map key
      · simp_all [put]
      · simp_all [put, Ne.symm h]

/-- Adds a value. A key already there keeps its place. -/
def insert (c : Catalog key) (v : α) : Catalog key :=
  ⟨put key v c.items, by
    rw [map_put]
    split
    · exact c.nodup
    · next h =>
      refine List.nodup_append.2 ⟨c.nodup, by simp, ?_⟩
      intro a ha b hb
      simp only [List.mem_singleton] at hb
      subst hb
      exact fun he => h (he ▸ ha)⟩

def insertAll (c : Catalog key) (l : List α) : Catalog key := l.foldl insert c

/-- The collection of a list, in which a later value of a key stands at the place of the first. -/
def ofList (l : List α) : Catalog key := insertAll empty l

def erase (c : Catalog key) (k : κ) : Catalog key :=
  ⟨c.items.filter (fun a => key a ≠ k), c.nodup.sublist (List.filter_sublist.map _)⟩

@[simp] theorem find?_empty (k : κ) : (empty : Catalog key).find? k = none := rfl

theorem keys_insert (c : Catalog key) (v : α) :
    (c.insert v).keys = if key v ∈ c.keys then c.keys else c.keys ++ [key v] :=
  map_put v c.items

private theorem find?_put (v : α) (l : List α) (k : κ) :
    (put key v l).find? (fun a => key a = k) =
      if key v = k then some v else l.find? fun a => key a = k := by
  induction l with
  | nil => by_cases h : key v = k <;> simp [put, h]
  | cons a r ih =>
    by_cases h : key a = key v
    · by_cases hk : key v = k <;> simp [put, h, hk]
    · simp only [put, h, ↓reduceIte, List.find?_cons, ih]
      by_cases hk : key v = k
      · have ha : key a ≠ k := hk ▸ h
        simp [hk, ha]
      · simp [hk]

theorem find?_insert (c : Catalog key) (v : α) (k : κ) :
    (c.insert v).find? k = if key v = k then some v else c.find? k :=
  find?_put v c.items k

theorem find?_isSome_iff (c : Catalog key) (k : κ) : (c.find? k).isSome ↔ k ∈ c.keys := by
  simp [find?, keys, List.find?_isSome]

theorem key_of_find? {c : Catalog key} {k : κ} {v : α} (h : c.find? k = some v) : key v = k := by
  simpa using List.find?_some h

theorem mem_of_find? {c : Catalog key} {k : κ} {v : α} (h : c.find? k = some v) :
    v ∈ c.items :=
  List.mem_of_find?_eq_some h

private theorem find?_filter (l : List α) (k j : κ) :
    (l.filter (fun a => key a ≠ k)).find? (fun a => key a = j) =
      if k = j then none else l.find? fun a => key a = j := by
  induction l with
  | nil => simp
  | cons a r ih =>
    by_cases h : key a = k
    · by_cases hj : k = j <;> simp_all
    · by_cases hj : k = j
      · subst hj; simp_all
      · by_cases ha : key a = j <;> simp_all

theorem find?_erase (c : Catalog key) (k j : κ) :
    (c.erase k).find? j = if k = j then none else c.find? j :=
  find?_filter c.items k j

end Catalog
end Introspect
