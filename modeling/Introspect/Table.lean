import Introspect.Catalog

/-! Finite maps that remember the order in which their keys first came in. -/
namespace Introspect

/-- Pairs of a key and a value, no key twice. -/
structure Table (κ α : Type) where
  catalog : Catalog (Prod.fst : κ × α → κ)

namespace Table
variable {κ α : Type}

@[ext] theorem ext {a b : Table κ α} (h : a.catalog = b.catalog) : a = b := by
  cases a; cases b; simp_all

instance [DecidableEq κ] [DecidableEq α] : DecidableEq (Table κ α) := fun a b =>
  decidable_of_iff (a.catalog = b.catalog) ⟨ext, fun h => h ▸ rfl⟩

def empty : Table κ α := ⟨.empty⟩

instance : Inhabited (Table κ α) := ⟨empty⟩

def entries (t : Table κ α) : List (κ × α) := t.catalog.items

def keys (t : Table κ α) : List κ := t.catalog.keys

def size (t : Table κ α) : Nat := t.catalog.size

variable [DecidableEq κ]

def find? (t : Table κ α) (k : κ) : Option α := (t.catalog.find? k).map Prod.snd

def contains (t : Table κ α) (k : κ) : Bool := t.catalog.contains k

/-- Binds a key. A bound key keeps its place, a new one comes last. -/
def insert (t : Table κ α) (k : κ) (v : α) : Table κ α := ⟨t.catalog.insert (k, v)⟩

def erase (t : Table κ α) (k : κ) : Table κ α := ⟨t.catalog.erase k⟩

/-- The table of a list, in which a later binding of a key wins at the place of the first. -/
def ofList (l : List (κ × α)) : Table κ α := ⟨.ofList l⟩

/-- Two tables bind the same keys to related values, in whatever order. -/
def Matches (r : α → α → Bool) (a b : Table κ α) : Bool :=
  a.size == b.size && a.entries.all fun e => (b.find? e.1).any (r e.2)

@[simp] theorem find?_empty (k : κ) : (empty : Table κ α).find? k = none := rfl

theorem keys_insert (t : Table κ α) (k : κ) (v : α) :
    (t.insert k v).keys = if k ∈ t.keys then t.keys else t.keys ++ [k] :=
  t.catalog.keys_insert (k, v)

theorem find?_insert (t : Table κ α) (k j : κ) (v : α) :
    (t.insert k v).find? j = if k = j then some v else t.find? j := by
  simp only [find?, insert, Catalog.find?_insert]
  split <;> rfl

theorem find?_erase (t : Table κ α) (k j : κ) :
    (t.erase k).find? j = if k = j then none else t.find? j := by
  simp only [find?, erase, Catalog.find?_erase]
  split <;> rfl

end Table
end Introspect
