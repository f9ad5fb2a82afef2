import Introspect.Proofs.Reflection.Bodies

/-! What a walk records: the declarations that it selects, the first of each name, and the classes
that these lead to. -/
namespace Introspect

/-! ## Marks -/

/-- Whether a text is an annotation that is meant for reflection. -/
def Annotation.isMeant (marker s : String) : Bool := (parse? marker s).isSome

/-- Whether a declaration has such an annotation. -/
def Reflection.Context.isMarked (c : Reflection.Context) (d : Cursor) : Bool :=
  (c.unit.annotations d).any fun s => Annotation.isMeant c.marker s

theorem Metadata.isReflected_annotateAll (marker : String) (m : Metadata) (l : List String) :
    (m.annotateAll marker l).isReflected =
      (m.isReflected || l.any fun s => Annotation.isMeant marker s) := by
  induction l generalizing m with
  | nil => simp [annotateAll]
  | cons s l ih =>
    have hrest : (m.annotateAll marker (s :: l)).isReflected = _ := ih (m.annotate marker s).1
    rw [hrest, List.any_cons, ← Bool.or_assoc, annotate, Annotation.isMeant]
    cases Annotation.parse? marker s with
    | none => simp
    | some a => cases a <;> simp [isReflected, Annotation.apply]

namespace Reflection

/-- A declaration counts as reflected exactly when it is marked. -/
theorem Context.isReflected_metadata (c : Context) (d : Cursor) :
    (c.metadata d).isReflected = c.isMarked d :=
  (Metadata.isReflected_annotateAll c.marker _ _).trans (by
    simp [isMarked, Metadata.bare, Metadata.isReflected])

theorem Context.reflected?_eq (c : Context) (d : Cursor) :
    c.reflected? d = if c.isMarked d then some (c.metadata d) else none := by
  rw [reflected?, isReflected_metadata]

/-- Whether the walk records a declaration that it meets outside classes: a definition, or a
function, in the module and marked. -/
def Context.isEligible (c : Context) (i : CursorId) : Bool :=
  let d := c.unit.cursor i
  (d.kind.needsDefinition && d.isDefinition || d.kind == .functionDecl) && c.isInModule d &&
    c.isMarked d

/-- The declarations of a list that are recorded, as far as they are of some kind. -/
def eligible (c : Context) (test : CursorKind → Bool) (l : List CursorId) : List CursorId :=
  l.filter fun i => c.isEligible i && test (c.unit.cursor i).kind

/-- The declarations that a walk meets outside classes, in its order: the unit and its namespaces
give way to what they hold. -/
inductive Met (u : CompilationUnit) : List CursorId → List CursorId → Prop
  | nil : Met u [] []
  | declaration {i is l} : (u.cursor i).kind ≠ .unit → (u.cursor i).kind ≠ .namespace →
      Met u is l → Met u (i :: is) (i :: l)
  | scope {i is l l'} : (u.cursor i).kind = .unit ∨ (u.cursor i).kind = .namespace →
      Met u (u.cursor i).children l → Met u is l' → Met u (i :: is) (l ++ l')

/-- What a walk meets is settled by what it starts from. -/
theorem Met.unique {u : CompilationUnit} {is l l' : List CursorId} (h : Met u is l)
    (h' : Met u is l') : l = l' := by
  induction h generalizing l' with
  | nil =>
    cases h'
    rfl
  | declaration hunit hnamespace _ ih =>
    cases h' with
    | declaration _ _ hrest => rw [ih hrest]
    | scope hscope => exact absurd hscope (not_or_intro hunit hnamespace)
  | scope hscope _ _ ihchildren ihrest =>
    cases h' with
    | declaration hunit hnamespace _ => exact absurd hscope (not_or_intro hunit hnamespace)
    | scope _ hchildren hrest => rw [ihchildren hchildren, ihrest hrest]

/-- A walk that succeeds was deep enough, and is the same as taking one after another the
declarations that it meets. -/
theorem exists_met (c : Context) (n : Nat) {is : List CursorId} {p q : Progress}
    (hrun : (forM is (reflectFrom c n)).run p = .ok () q) :
    ∃ l, Met c.unit is l ∧ forM is (reflectFrom c n) = forM l (reflectDeclaration c) := by
  induction n generalizing is p q with
  | zero =>
    cases is with
    | nil => exact ⟨[], .nil, rfl⟩
    | cons i is => cases hrun
  | succ n ihn =>
    induction is generalizing p with
    | nil => exact ⟨[], .nil, rfl⟩
    | cons i is ihis =>
      rw [List.forM_cons, EStateM.run_bind] at hrun
      cases hfirst : (reflectFrom c (n + 1) i).run p with
      | error e p' =>
        rw [hfirst] at hrun
        cases hrun
      | ok a p' =>
        rw [hfirst] at hrun
        obtain ⟨l', hl', hrest⟩ := ihis hrun
        rw [List.forM_cons, hrest, reflectFrom]
        rw [reflectFrom] at hfirst
        split at hfirst
        · next hscope =>
          obtain ⟨l, hl, hwalk⟩ := ihn hfirst
          rw [if_pos hscope]
          refine ⟨l ++ l', .scope (by simpa using hscope) hl hl', ?_⟩
          rw [List.forM_append]
          exact congrArg (· >>= fun _ => forM l' (reflectDeclaration c)) hwalk
        · next hscope =>
          have hkind : (c.unit.cursor i).kind ≠ .unit ∧ (c.unit.cursor i).kind ≠ .namespace := by
            simpa using hscope
          rw [if_neg hscope]
          exact ⟨i :: l', .declaration hkind.1 hkind.2 hl', by rw [List.forM_cons]⟩

theorem exists_met_of_reflect {c : Context} {i : CursorId} {p q : Progress}
    (hrun : (reflect c i).run p = .ok () q) :
    ∃ l, Met c.unit [i] l ∧ reflect c i = forM l (reflectDeclaration c) := by
  have hlist : reflect c i = forM [i] (reflectFrom c (c.unit.cursors.size + 1)) := by
    rw [List.forM_cons, List.forM_nil]
    exact bind_pure_unit.symm
  rw [hlist] at hrun ⊢
  exact exists_met c _ hrun

/-- A walk takes one after another the declarations that it meets. -/
theorem reflect_met {c : Context} {i : CursorId} {p q : Progress}
    (hrun : (reflect c i).run p = .ok () q) :
    ∃ l, Met c.unit [i] l ∧ (forM l (reflectDeclaration c)).run p = .ok () q := by
  obtain ⟨l, hl, hwalk⟩ := exists_met_of_reflect hrun
  exact ⟨l, hl, hwalk ▸ hrun⟩

/-! ## One record for each name -/

/-- Of the declarations of its name the first one of a list. -/
def FirstOf (name : CursorId → String) (l : List CursorId) (d : CursorId) : Prop :=
  l.find? (fun e => name e = name d) = some d

section firsts
variable {name : CursorId → String} {l : List CursorId} {d e : CursorId}

theorem FirstOf.mem (h : FirstOf name l d) : d ∈ l := List.mem_of_find?_eq_some h

theorem FirstOf.unique (hd : FirstOf name l d) (he : FirstOf name l e) (hname : name d = name e) :
    d = e := by
  rw [FirstOf, hname] at hd
  exact Option.some.inj (hd.symm.trans he)

theorem FirstOf.append (h : FirstOf name l d) (l' : List CursorId) : FirstOf name (l ++ l') d := by
  rw [FirstOf, List.find?_append, h, Option.some_or]

theorem firstOf_append (h : name d ∉ l.map name) : FirstOf name (l ++ [d]) d := by
  have hnone : l.find? (fun e => name e = name d) = none := by
    simp only [List.find?_eq_none, decide_eq_true_eq]
    exact fun e he hname => h (hname ▸ List.mem_map_of_mem he)
  rw [FirstOf, List.find?_append, hnone]
  simp

/-- The first declaration in two lists is the first in one, or in the other with a new name. -/
theorem firstOf_of_append {l' : List CursorId} (h : FirstOf name (l ++ l') d) :
    FirstOf name l d ∨ FirstOf name l' d ∧ name d ∉ l.map name := by
  rw [FirstOf, List.find?_append, Option.or_eq_some_iff] at h
  refine h.imp id fun ⟨hnone, hd⟩ => ⟨hd, fun hmem => ?_⟩
  obtain ⟨e, he, hname⟩ := List.mem_map.1 hmem
  simp only [List.find?_eq_none, decide_eq_true_eq] at hnone
  exact hnone e he hname

/-- Declarations come to a collection of records: none at all, one of a known name, or one of a new
name with its record. -/
inductive Notes {α : Type} {key : α → String} (name : CursorId → String)
    (R : CursorId → α → Prop) : List CursorId → Catalog key → Catalog key → Prop
  | none {catalog} : Notes name R [] catalog catalog
  | known {d catalog} : name d ∈ catalog.keys → Notes name R [d] catalog catalog
  | new {d catalog v} : name d ∉ catalog.keys → key v = name d → R d v →
      Notes name R [d] catalog (catalog.insert v)

/-- The records are those of the declarations of a list, of the first one for each name, in their
order. -/
structure RecordsFirsts {α : Type} {key : α → String} (name : CursorId → String)
    (R : CursorId → α → Prop) (l : List CursorId) (catalog : Catalog key) : Prop where
  keys : catalog.keys = (l.map name).eraseDups
  firsts : ∀ v ∈ catalog.items, ∃ d, FirstOf name l d ∧ key v = name d ∧ R d v

namespace RecordsFirsts
variable {α : Type} {key : α → String} {R S : CursorId → α → Prop} {catalog catalog' : Catalog key}

theorem empty : RecordsFirsts name R [] (Catalog.empty : Catalog key) :=
  ⟨rfl, by simp⟩

theorem mem_keys_iff (h : RecordsFirsts name R l catalog) {n : String} :
    n ∈ catalog.keys ↔ n ∈ l.map name := by
  rw [h.keys, List.mem_eraseDups]

theorem mono (h : RecordsFirsts name R l catalog) (hRS : ∀ d v, R d v → S d v) :
    RecordsFirsts name S l catalog := by
  refine ⟨h.keys, fun v hv => ?_⟩
  obtain ⟨d, hd, hkey, hR⟩ := h.firsts v hv
  exact ⟨d, hd, hkey, hRS d v hR⟩

/-- Every first declaration has a record. -/
theorem exists_record (h : RecordsFirsts name R l catalog) (hd : FirstOf name l d) :
    ∃ v ∈ catalog.items, R d v := by
  have hmem : name d ∈ catalog.keys := h.mem_keys_iff.2 (List.mem_map_of_mem hd.mem)
  obtain ⟨v, hv, hkey⟩ := List.mem_map.1 hmem
  obtain ⟨e, he, hname, hR⟩ := h.firsts v hv
  obtain rfl := hd.unique he (hkey.symm.trans hname)
  exact ⟨v, hv, hR⟩

theorem notes {l' : List CursorId} (h : RecordsFirsts name R l catalog)
    (hnotes : Notes name R l' catalog catalog') : RecordsFirsts name R (l ++ l') catalog' := by
  cases hnotes with
  | none => simpa using h
  | @known d _ hd =>
    have hmem : name d ∈ l.map name := h.mem_keys_iff.1 hd
    refine ⟨?_, fun v hv => ?_⟩
    · simp [h.keys, List.eraseDups_append, List.removeAll, -List.mem_map, hmem]
    · obtain ⟨e, he, hrest⟩ := h.firsts v hv
      exact ⟨e, he.append [d], hrest⟩
  | @new d _ v hd hkey hv =>
    have hmem : name d ∉ l.map name := fun hmem => hd (h.mem_keys_iff.2 hmem)
    refine ⟨?_, fun w hw => ?_⟩
    · rw [Catalog.keys_insert, if_neg (hkey ▸ hd), hkey, h.keys]
      simp [List.eraseDups_append, List.removeAll, List.eraseDups_cons, -List.mem_map, hmem]
    · rcases Catalog.mem_items_insert.1 hw with rfl | ⟨hw, -⟩
      · exact ⟨d, firstOf_append hmem, hkey, hv⟩
      · obtain ⟨e, he, hrest⟩ := h.firsts w hw
        exact ⟨e, he.append [d], hrest⟩

end RecordsFirsts
end firsts

end Reflection
end Introspect
