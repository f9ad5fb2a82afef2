import Introspect.Proofs.Reflection.Recorded

/-! What a whole walk leaves that started without records: one record for each name of the
declarations that it selects, and the classes that these lead to, and nothing else. -/
namespace Introspect.Reflection

/-- The class is a declaration that the walk selects, with its metadata, or the specialisation that
a selected alias stands for, the first one of its name. -/
def Asked (c : Context) (l : List CursorId) (p : Progress) (n : String) (m : Metadata) : Prop :=
  (∃ d ∈ eligible c CursorKind.isClass l, n = declaredName c.unit d ∧
      m = c.metadata (c.unit.cursor d)) ∨
    ∃ d, FirstOf (declaredName c.unit) (eligible c CursorKind.isAlias l) d ∧ IsAliased c p d n

/-- What is known after the declarations of a list. -/
structure Tally (c : Context) (hash : NameHash) (l : List CursorId) (p : Progress) : Prop where
  enums : RecordsFirsts (declaredName c.unit) (IsEnum c p) (eligible c (· == .enumDecl) l)
    p.registry.enums
  aliases : RecordsFirsts (declaredName c.unit) (IsAlias c p) (eligible c CursorKind.isAlias l)
    p.registry.aliases
  functions : RecordsFirsts (functionName c.unit) (IsFunction c p)
    (eligible c (· == .functionDecl) l) p.registry.functions
  classes : ∃ bodies, Joins c (Asked c l p) bodies (.start (.empty hash)) p
  answered : ∀ n m, Asked c l p n m → n ∈ p.registry.classes.keys

theorem eligible_append (c : Context) (test : CursorKind → Bool) (l l' : List CursorId) :
    eligible c test (l ++ l') = eligible c test l ++ eligible c test l' :=
  List.filter_append ..

theorem tally_start (c : Context) (hash : NameHash) : Tally c hash [] (.start (.empty hash)) where
  enums := .empty
  aliases := .empty
  functions := .empty
  classes := ⟨[], .refl _⟩
  answered := by
    rintro n m (⟨d, hd, -⟩ | ⟨d, hd, -⟩)
    · cases hd
    · cases hd

section steps
variable {c : Context} {hash : NameHash} {l : List CursorId} {p q : Progress}

theorem Asked.grows {n : String} {m : Metadata} (h : Asked c l p n m) (hpq : Grows p q)
    (l' : List CursorId) : Asked c (l ++ l') q n m := by
  rcases h with ⟨d, hd, hn⟩ | ⟨d, hd, hn⟩
  · exact .inl ⟨d, by simp [eligible_append, hd], hn⟩
  · exact .inr ⟨d, eligible_append c _ l l' ▸ hd.append _, hn.grows hpq⟩

/-- What a declaration asks for after others, all of them together ask for. -/
theorem Requested.asked {d : CursorId} {n : String} {m : Metadata} (h : Requested c d p q n m)
    (hl : Tally c hash l p) : Asked c (l ++ [d]) q n m := by
  rcases h with ⟨hd, hn⟩ | ⟨hd, hnew, hn⟩
  · exact .inl ⟨d, by simp [eligible_append, hd], hn⟩
  · refine .inr ⟨d, ?_, hn⟩
    have hlast : eligible c CursorKind.isAlias [d] = [d] := by simpa [eligible] using hd
    rw [eligible_append, hlast]
    exact firstOf_append fun hmem => hnew (hl.aliases.mem_keys_iff.2 hmem)

theorem Asked.cases_append {d : CursorId} {n : String} {m : Metadata}
    (h : Asked c (l ++ [d]) q n m) (hl : Tally c hash l p) (hpq : Grows p q) :
    Asked c l p n m ∨ Requested c d p q n m := by
  rcases h with ⟨e, he, hn⟩ | ⟨e, he, hn⟩
  · rw [eligible_append] at he
    rcases List.mem_append.1 he with he | he
    · exact .inl (.inl ⟨e, he, hn⟩)
    · obtain rfl : e = d := by simpa using List.mem_of_mem_filter he
      exact .inr (.inl ⟨he, hn⟩)
  · rw [eligible_append] at he
    rcases firstOf_of_append he with he | ⟨he, hnew⟩
    · obtain ⟨a, -, ha⟩ := hl.aliases.exists_record he
      exact .inl (.inr ⟨e, he, hn.before ha hpq⟩)
    · obtain rfl : e = d := by simpa using List.mem_of_mem_filter he.mem
      exact .inr (.inr ⟨he.mem, fun hmem => hnew (hl.aliases.mem_keys_iff.1 hmem), hn⟩)

theorem Tally.originsNamed (h : Tally c hash l p) : OriginsNamed c.unit p := by
  obtain ⟨bodies, hbodies⟩ := h.classes
  exact hbodies.origins (originsNamed_of_steps (c := c) .refl)

/-- There are no class templates but those that are recorded as classes. -/
theorem Tally.generic (h : Tally c hash l p) : ∀ t ∈ p.registry.types.items, t.isGeneric →
    t.qualifiedName ∈ p.registry.classes.keys := by
  obtain ⟨bodies, hbodies⟩ := h.classes
  intro t ht hkind
  rcases hbodies.types t ht with hold | ⟨-, hmem⟩
  · cases hold
  · exact hmem hkind

theorem Tally.step {d : CursorId} (h : Tally c hash l p) (hpq : Grows p q) (hd : Enters c d p q) :
    Tally c hash (l ++ [d]) q where
  enums := by
    rw [eligible_append]
    exact (h.enums.mono fun d e he => he.grows hpq).notes hd.enums
  aliases := by
    rw [eligible_append]
    exact (h.aliases.mono fun d a ha => ha.grows hpq).notes hd.aliases
  functions := by
    rw [eligible_append]
    exact (h.functions.mono fun d f hf => hf.grows hpq).notes hd.functions
  classes := by
    obtain ⟨bodies, hbodies⟩ := h.classes
    obtain ⟨bodies', hbodies'⟩ := hd.classes
    exact ⟨bodies ++ bodies', (hbodies.mono fun n m hn => hn.grows hpq [d]).trans
      (hbodies'.mono fun n m hn => hn.asked h)⟩
  answered n m hn := by
    rcases hn.cases_append h hpq with hn | hn
    · exact hpq.class_mem (h.answered n m hn)
    · exact hd.answered n m hn

/-- One declaration after another is entered. -/
theorem Tally.walk (h : Tally c hash l p) (todo : List CursorId) :
    Yields (forM todo (reflectDeclaration c)) p fun _ q => Tally c hash (l ++ todo) q := by
  induction todo generalizing l p with
  | nil =>
    rw [List.append_nil]
    exact yields_pure h
  | cons d todo ih =>
    rw [List.forM_cons]
    refine yields_bind ((reflectDeclaration_spec h.originsNamed d).and
      (reflectDeclaration_enters h.originsNamed h.generic)) ?_
    rintro - q ⟨hsteps, henters⟩
    have hrest := ih (h.step (.of_steps hsteps) henters)
    rwa [List.append_assoc, List.singleton_append] at hrest

end steps

/-- The records are exactly those of the declarations that a walk meets and selects: of enums,
aliases and functions the first one of each name, and of classes the least set that holds what is
asked for and the bases of every class whose members were walked. A class is marked like its
declaration. One that is not marked is there as a base or for an alias only. -/
structure RecordsExactly (c : Context) (l : List CursorId) (bodies : List Body) (p : Progress) :
    Prop where
  enums : RecordsFirsts (declaredName c.unit) (IsEnum c p) (eligible c (· == .enumDecl) l)
    p.registry.enums
  aliases : RecordsFirsts (declaredName c.unit) (IsAlias c p) (eligible c CursorKind.isAlias l)
    p.registry.aliases
  functions : RecordsFirsts (functionName c.unit) (IsFunction c p)
    (eligible c (· == .functionDecl) l) p.registry.functions
  classes : ∀ n, n ∈ p.registry.classes.keys ↔ Reached c (Asked c l p) bodies n
  named : ∀ n, n ∈ p.registry.classes.keys ↔ ∃ b ∈ bodies, b.name = n
  apart : bodies.Pairwise fun a b => a.name = b.name → Circular c.unit a.name
  declared : ∀ b ∈ bodies, DeclaredAs c.unit b.name b.declaration
  walked : ∀ b ∈ bodies, Walked c.unit b.name b.source
  records : ∀ k ∈ p.registry.classes.items, ∃ b ∈ bodies, b.Gives c k ∧
    k.metadata.isReflected = c.isMarked (c.unit.cursor b.declaration) ∧
    (k.metadata.isReflected = false → (∃ a ∈ bodies, k.qualifiedName ∈ baseNames c a.source) ∨
      ∃ d, FirstOf (declaredName c.unit) (eligible c CursorKind.isAlias l) d ∧
        IsAliased c p d k.qualifiedName)

section exact
variable {c : Context} {hash : NameHash} {l : List CursorId} {p : Progress} {bodies : List Body}

/-- Classes come in for a reason, and whatever there is a reason for has come in. -/
theorem Joins.mem_keys_iff_reached (h : Joins c (Asked c l p) bodies (.start (.empty hash)) p)
    (hanswered : ∀ n m, Asked c l p n m → n ∈ p.registry.classes.keys) (n : String) :
    n ∈ p.registry.classes.keys ↔ Reached c (Asked c l p) bodies n := by
  constructor
  · intro hn
    rcases (h.keys n).1 hn with hstart | ⟨b, hb, rfl⟩
    · cases hstart
    · exact h.reached b hb
  · intro hn
    induction hn with
    | asked hn => exact hanswered _ _ hn
    | base hb _ hn _ => exact h.closed _ hb _ hn

theorem isMarked_of_mem_eligible {test : CursorKind → Bool} {d : CursorId}
    (h : d ∈ eligible c test l) : c.isMarked (c.unit.cursor d) := by
  have heligible := (List.mem_filter.1 h).2
  simp only [Context.isEligible, Bool.and_eq_true] at heligible
  exact heligible.1.2

theorem Tally.recordsExactly (h : Tally c hash l p) : ∃ bodies, RecordsExactly c l bodies p := by
  obtain ⟨bodies, hbodies⟩ := h.classes
  refine ⟨bodies, h.enums, h.aliases, h.functions, hbodies.mem_keys_iff_reached h.answered, ?_,
    hbodies.apart, hbodies.declared, hbodies.walked, ?_⟩
  · intro n
    rw [hbodies.keys]
    exact or_iff_right (by simp [Progress.start, Registry.empty])
  · intro k hk
    rcases hbodies.records k hk with hstart | ⟨⟨b, hb, hgives⟩, hreason⟩
    · cases hstart
    · refine ⟨b, hb, hgives, ?_, fun hunmarked => ?_⟩
      · rw [hgives.metadata, Context.isReflected_metadata]
      · rcases hreason with (⟨d, hd, -, hm⟩ | halias) | hbase
        · -- a class that was selected is marked
          rw [hm, Context.isReflected_metadata, isMarked_of_mem_eligible hd] at hunmarked
          cases hunmarked
        · exact .inr halias
        · exact .inl hbase

end exact

theorem reflect_tally {c : Context} {hash : NameHash} {i : CursorId} {p : Progress}
    (hrun : (reflect c i).run (.start (.empty hash)) = .ok () p) :
    ∃ l, Met c.unit [i] l ∧ Tally c hash l p := by
  obtain ⟨l, hl, hwalk⟩ := reflect_met hrun
  exact ⟨l, hl, (tally_start c hash).walk l () p hwalk⟩

/-- A walk from no records that does not fail records the declarations that it meets and selects,
the classes that these lead to, and nothing else. -/
theorem reflect_recordsExactly (c : Context) (hash : NameHash) (i : CursorId) (p : Progress)
    (hrun : (reflect c i).run (.start (.empty hash)) = .ok () p) :
    ∃ l bodies, Met c.unit [i] l ∧ RecordsExactly c l bodies p := by
  obtain ⟨l, hl, htally⟩ := reflect_tally hrun
  obtain ⟨bodies, hbodies⟩ := htally.recordsExactly
  exact ⟨l, bodies, hl, hbodies⟩

/-- All types that are registered in the end are made of types and templates of the unit. -/
theorem reflect_stems {c : Context} {hash : NameHash} {i : CursorId} {p : Progress}
    (hrun : (reflect c i).run (.start (.empty hash)) = .ok () p) {t : CppType}
    (ht : t ∈ p.registry.types.items) : Stems c.unit t := by
  obtain ⟨l, -, htally⟩ := reflect_tally hrun
  obtain ⟨bodies, hbodies⟩ := htally.classes
  rcases hbodies.types t ht with hstart | ⟨hstems, -⟩
  · cases hstart
  · exact hstems

/-- A namespace with a marked enum and a marked function, an unmarked class `Base` with a marked one
derived from it, an unmarked class `Loose` that nothing leads to, a class template `Box` and two
aliases of one name `Crate`, for `Box<int>` and `Box<float>`. -/
def depot : CompilationUnit where
  root := 0
  cursors := #[
    written .unit "a.h" none [1, 6, 7, 10, 11, 16, 18],
    written .namespace "inner" none [2, 4],
    { written .enumDecl "Color" (some 0) [3] with parent := some 1 },
    written .annotationNode "mark" none [],
    { written .functionDecl "paint" none [5] with parent := some 1, resultType := some 1 },
    written .annotationNode "mark" none [],
    written .structDecl "Base" (some 3) [],
    written .structDecl "Derived" (some 4) [8, 9],
    written .annotationNode "mark" none [],
    written .baseSpecifier "Base" (some 3) [],
    written .structDecl "Loose" (some 5) [],
    written .classTemplate "Box" none [12, 13],
    written .annotationNode "mark" none [],
    written .templateTypeParameter "T" (some 6) [],
    written .structDecl "Box" (some 7) [],
    written .structDecl "Box" (some 8) [],
    written .typeAlias "Crate" (some 9) [17],
    written .annotationNode "mark" none [],
    written .typeAlias "Crate" (some 10) [19],
    written .annotationNode "mark" none []]
  types := #[
    ⟨.enum, "inner::Color", false, false, 0, none, some 2, []⟩,
    ⟨.int, "int", false, false, 1, none, none, []⟩,
    ⟨.float, "float", false, false, 2, none, none, []⟩,
    ⟨.record, "Base", false, false, 3, none, some 6, []⟩,
    ⟨.record, "Derived", false, false, 4, none, some 7, []⟩,
    ⟨.record, "Loose", false, false, 5, none, some 10, []⟩,
    ⟨.unexposed, "T", false, true, 6, none, some 13, []⟩,
    ⟨.record, "Box<int>", false, false, 7, none, some 14, [1]⟩,
    ⟨.record, "Box<float>", false, false, 8, none, some 15, [2]⟩,
    ⟨.typedef, "Crate", false, false, 7, none, some 16, []⟩,
    ⟨.typedef, "Crate", false, false, 8, none, some 18, []⟩]

/-- The base and the specialisation come in unmarked, and the class that nothing leads to does
not. -/
theorem reflect_recordsExactly_depot : ∃ p l bodies,
    (reflect (walkOver depot) 0).run (.start (.empty NameHash.crc32)) = .ok () p ∧
      Met depot [0] l ∧ RecordsExactly (walkOver depot) l bodies p ∧
      p.registry.classes.keys = ["Base", "Derived", "Box", "Box<int>"] ∧
      p.registry.enums.keys = ["inner::Color"] ∧ p.registry.aliases.keys = ["Crate"] ∧
      p.registry.functions.keys = ["inner::paint"] := by
  have hleaves : leaves depot fun p =>
      p.registry.classes.keys == ["Base", "Derived", "Box", "Box<int>"] &&
        p.registry.enums.keys == ["inner::Color"] && p.registry.aliases.keys == ["Crate"] &&
        p.registry.functions.keys == ["inner::paint"] := by decide +kernel
  obtain ⟨p, hrun, htest⟩ := exists_of_leaves hleaves
  simp only [Bool.and_eq_true, beq_iff_eq] at htest
  obtain ⟨⟨⟨hclasses, henums⟩, haliases⟩, hfunctions⟩ := htest
  obtain ⟨l, bodies, hl, hrecords⟩ := reflect_recordsExactly (walkOver depot) _ 0 p hrun
  exact ⟨p, l, bodies, hrun, hl, hrecords, hclasses, henums, haliases, hfunctions⟩

theorem met_self {u : CompilationUnit} {l : List CursorId}
    (h : ∀ i ∈ l, (u.cursor i).kind ≠ .unit ∧ (u.cursor i).kind ≠ .namespace) : Met u l l := by
  induction l with
  | nil => exact .nil
  | cons i l ih =>
    obtain ⟨hunit, hnamespace⟩ := h i (by simp)
    exact .declaration hunit hnamespace (ih fun j hj => h j (by simp [hj]))

/-- The specialisation that the second alias of a name stands for does not come in, although the
alias is selected. -/
theorem exists_alias_without_class_depot : ∃ p l,
    (reflect (walkOver depot) 0).run (.start (.empty NameHash.crc32)) = .ok () p ∧
      Met depot [0] l ∧
      ¬ ∀ d ∈ eligible (walkOver depot) CursorKind.isAlias l, ∀ t, (depot.cursor d).type = some t →
        (depot.canonical t).kind = .record → (depot.canonical t).arguments ≠ [] →
        recordedName depot (depot.type t).canonical ∈ p.registry.classes.keys := by
  have hleaves : leaves depot fun p =>
      p.registry.classes.keys == ["Base", "Derived", "Box", "Box<int>"] := by decide +kernel
  obtain ⟨p, hrun, hkeys⟩ := exists_of_leaves hleaves
  have hinner : Met depot [2, 4] [2, 4] := met_self (by decide +kernel)
  have hrest : Met depot [6, 7, 10, 11, 16, 18] [6, 7, 10, 11, 16, 18] :=
    met_self (by decide +kernel)
  have hunit : Met depot [1, 6, 7, 10, 11, 16, 18] ([2, 4] ++ [6, 7, 10, 11, 16, 18]) :=
    .scope (.inr rfl) hinner hrest
  refine ⟨p, _, hrun, .scope (.inl rfl) hunit .nil, fun hall => ?_⟩
  have hmem := hall 18 (by decide +kernel) 10 rfl rfl (by decide +kernel)
  rw [beq_iff_eq.1 hkeys] at hmem
  revert hmem
  decide +kernel

end Introspect.Reflection
