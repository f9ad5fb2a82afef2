import Introspect.Proofs.Reflection.Resolution
import Introspect.Proofs.Reflection.Visits

/-! A unit that was walked once is walked again without a change: every declaration that was
selected is found on record. -/
namespace Introspect.Reflection
open Relation

variable {c : Context} {p q : Progress} {d : CursorId}

/-! ## Declarations on record -/

/-- The type of a declaration is told without a change. -/
def Told (u : CompilationUnit) (p : Progress) (d : CursorId) : Prop :=
  ∃ t, (resolveCursor u d).run p = .ok t p

/-- There is a record under the name of a declaration, among those of its kind. -/
inductive Noted (c : Context) (p : Progress) (d : CursorId) : Prop
  | class : (c.unit.cursor d).kind.isClass → Told c.unit p d →
      declaredName c.unit d ∈ p.registry.classes.keys → Noted c p d
  | enum : (c.unit.cursor d).kind = .enumDecl → Told c.unit p d →
      declaredName c.unit d ∈ p.registry.enums.keys → Noted c p d
  | alias : (c.unit.cursor d).kind.isAlias → Told c.unit p d →
      declaredName c.unit d ∈ p.registry.aliases.keys → Noted c p d
  | function : (c.unit.cursor d).kind = .functionDecl →
      functionName c.unit d ∈ p.registry.functions.keys → Noted c p d

section told
variable {u : CompilationUnit}

theorem Told.exists_type (h : Told u p d) :
    ∃ t, (resolveCursor u d).run p = .ok t p ∧ t.qualifiedName = declaredName u d := by
  obtain ⟨t, hrun⟩ := h
  exact ⟨t, hrun, Catalog.key_of_find? (Request.registered (r := .cursor d) t p hrun)⟩

/-- A type that was told once is told from then on. -/
theorem run_resolveCursor_again {t : CppType} {p' : Progress}
    (hrun : (resolveCursor u d).run p = .ok t p') (h : Grows p' q) :
    (resolveCursor u d).run q = .ok t q :=
  Request.known (r := .cursor d) hrun
    (h.types _ _ (Request.registered (r := .cursor d) t p' hrun))

theorem Told.grows (h : Told u p d) (hpq : Grows p q) : Told u q d := by
  obtain ⟨t, hrun⟩ := h
  exact ⟨t, run_resolveCursor_again hrun hpq⟩

/-- Only a class template has its type told without one of the compiler. -/
theorem Told.exists_own (h : Told u p d) (hd : (u.cursor d).kind ≠ .classTemplate) :
    ∃ own, (u.cursor d).type = some own := by
  obtain ⟨t, hrun⟩ := h
  exact Option.ne_none_iff_exists'.1 fun hnone =>
    hd (isTemplate_of_run_resolveCursor hrun hnone).2

end told

/-- Aliases and functions keep their names. -/
theorem keys_subset_of_steps (h : Steps c p q) :
    p.registry.aliases.keys ⊆ q.registry.aliases.keys ∧
      p.registry.functions.keys ⊆ q.registry.functions.keys := by
  induction h with
  | refl => exact ⟨List.Subset.refl _, List.Subset.refl _⟩
  | @tail q q' _ hstep ih =>
    have hkeeps : q.registry.aliases.keys ⊆ q'.registry.aliases.keys ∧
        q.registry.functions.keys ⊆ q'.registry.functions.keys := by
      cases hstep with
      | enterTypes h =>
        obtain ⟨types, holders, origins, rfl⟩ := h.frame
        exact ⟨List.Subset.refl _, List.Subset.refl _⟩
      | @enterClass q' flag d r promoted _ _ hrun _ =>
        obtain ⟨es, rfl⟩ := promotedFields_reports r _ _ _ hrun
        exact ⟨List.Subset.refl _, List.Subset.refl _⟩
      | enterAlias =>
        exact ⟨(Catalog.keys_prefix_insert q.registry.aliases _).subset, List.Subset.refl _⟩
      | enterFunction =>
        exact ⟨List.Subset.refl _, (Catalog.keys_prefix_insert q.registry.functions _).subset⟩
      | report | bindBase | enterEnum => exact ⟨List.Subset.refl _, List.Subset.refl _⟩
    exact ⟨List.Subset.trans ih.1 hkeeps.1, List.Subset.trans ih.2 hkeeps.2⟩

/-- What is on record stays there. -/
theorem Noted.steps (h : Noted c p d) (hpq : Steps c p q) : Noted c q d := by
  have hgrows := Grows.of_steps hpq
  have hkeys := keys_subset_of_steps hpq
  cases h with
  | «class» hkind htold hmem => exact .class hkind (htold.grows hgrows) (hgrows.class_mem hmem)
  | enum hkind htold hmem => exact .enum hkind (htold.grows hgrows) (hgrows.enums hmem)
  | «alias» hkind htold hmem => exact .alias hkind (htold.grows hgrows) (hkeys.1 hmem)
  | function hkind hmem => exact .function hkind (hkeys.2 hmem)

/-! ## What a declaration leaves -/

/-- A step that starts with telling the type of a declaration has it told in the end. -/
theorem yields_told {α : Type} {f : CppType → Walk α} {Q : Progress → Prop}
    (hp : OriginsNamed c.unit p)
    (h : ∀ p', OriginsNamed c.unit p' → Yields (resolveCursor c.unit d >>= f) p' fun _ q =>
      Grows p' q ∧ Q q) :
    Yields (resolveCursor c.unit d >>= f) p fun _ q => Told c.unit q d ∧ Q q := by
  intro a q hrun
  cases htype : (resolveCursor c.unit d).run p with
  | error e p' =>
    rw [EStateM.run_bind, htype] at hrun
    cases hrun
  | ok t p' =>
    -- the step goes the same way from where the type is registered
    have hagain : (resolveCursor c.unit d >>= f).run p' = .ok a q := by
      rw [EStateM.run_bind, htype] at hrun
      rwa [EStateM.run_bind, run_resolveCursor_again htype (.refl p')]
    obtain ⟨hgrows, hq⟩ := h p' ((resolveCursor_spec d t p' htype).1.named hp) a q hagain
    exact ⟨⟨t, run_resolveCursor_again htype hgrows⟩, hq⟩

theorem Notes.mem {α : Type} {key : α → String} {name : CursorId → String}
    {R : CursorId → α → Prop} {catalog catalog' : Catalog key}
    (h : Notes name R [d] catalog catalog') : name d ∈ catalog'.keys := by
  cases h with
  | known hmem => exact hmem
  | new _ hkey _ => exact Catalog.mem_keys_insert.2 (.inl hkey.symm)

theorem reflectAlias_mem {own : TypeId} (hown : (c.unit.cursor d).type = some own) (m : Metadata) :
    Yields (reflectAlias c d m) p fun _ q => declaredName c.unit d ∈ q.registry.aliases.keys := by
  rw [declaredName_of_type hown]
  simp only [reflectAlias, hown]
  refine yields_bind (resolveType_spec own) ?_
  rintro type q ⟨-, htype⟩
  have hname : type.qualifiedName = recordedName c.unit own := Catalog.key_of_find? htype
  refine yields_bind (R := fun r q' => q' = q ∧ r = q.registry) (yields_registry ⟨rfl, rfl⟩) ?_
  rintro r q' ⟨rfl, rfl⟩
  split
  · next known hknown => exact yields_pure (hname ▸ Catalog.mem_keys_of_find? hknown)
  · refine yields_bind_any fun target q => yields_bind_any fun targets q => ?_
    refine yields_bind (R := fun _ q => recordedName c.unit own ∈ q.registry.aliases.keys) ?_
      fun _ _ h => yields_pure h
    refine yields_update fun r hr => ?_
    obtain ⟨s, -, rfl⟩ := Registry.addAlias_ok hr
    exact Catalog.mem_keys_insert.2 (.inl hname.symm)

/-- An alias tells its type first. -/
theorem exists_reflectAlias_eq {own : TypeId} (hown : (c.unit.cursor d).type = some own)
    (m : Metadata) : ∃ f, reflectAlias c d m = resolveCursor c.unit d >>= f := by
  rw [resolveCursor_of_type hown]
  simp only [reflectAlias, hown]
  exact ⟨_, rfl⟩

/-- A declaration that was selected is on record afterwards. -/
theorem reflectDeclaration_notes (hp : OriginsNamed c.unit p) (hd : c.isEligible d) :
    Yields (reflectDeclaration c d) p fun _ q => Noted c q d := by
  have hkind := kind_of_isEligible hd
  rw [reflectDeclaration_eq]
  simp only [hd, if_true]
  split
  · next hclass =>
    refine yields_discard ((yields_told (Q := fun q => declaredName c.unit d ∈
      q.registry.classes.keys) hp fun p' hp' => ?_).mono fun _ _ h => .class hclass h.1 h.2)
    exact (reflectClass_records (.declared d _) p' hclass hp').mono fun _ _ h =>
      ⟨h.1.grows, h.2.2⟩
  · next hclass =>
    split
    · next henum =>
      refine yields_discard ((yields_told (Q := fun q => declaredName c.unit d ∈
        q.registry.enums.keys) hp fun p' hp' => ?_).mono fun _ _ h => .enum henum h.1 h.2)
      exact ((reflectEnum_spec d _).and (reflectEnum_notes (by simp [henum, CursorKind.isClass]))).mono
        fun _ _ h => ⟨.of_steps h.1, h.2.1.mem⟩
    · next henum =>
      split
      · next halias =>
        refine yields_discard ?_
        cases hown : (c.unit.cursor d).type with
        | none =>
          simp only [reflectAlias, hown]
          exact yields_throw
        | some own =>
          have hmem := fun p => reflectAlias_mem (p := p) hown (c.metadata (c.unit.cursor d))
          have hsteps := fun p (hp : OriginsNamed c.unit p) =>
            reflectAlias_spec hp d (c.metadata (c.unit.cursor d))
          obtain ⟨f, heq⟩ := exists_reflectAlias_eq hown (c.metadata (c.unit.cursor d))
          rw [heq] at hmem hsteps ⊢
          exact (yields_told hp fun p' hp' => ((hsteps p' hp').and (hmem p')).mono fun _ _ h =>
            ⟨.of_steps h.1, h.2⟩).mono fun _ _ h => .alias halias h.1 h.2
      · next halias =>
        have hfunction : (c.unit.cursor d).kind = .functionDecl := by
          refine hkind.resolve_left fun h => ?_
          revert h hclass henum halias
          cases (c.unit.cursor d).kind <;> decide
        exact yields_discard (reflectFunction_notes.mono fun _ _ h => .function hfunction h.1.mem)

/-- So is everything that a walk has selected. -/
theorem forM_reflectDeclaration_notes (hp : OriginsNamed c.unit p) (l : List CursorId) :
    Yields (forM l (reflectDeclaration c)) p fun _ q =>
      ∀ d ∈ l, c.isEligible d → Noted c q d := by
  rw [forM_eq_foldlM]
  refine (yields_foldlM (I := fun done _ q => Steps c p q ∧
    ∀ d ∈ done, c.isEligible d → Noted c q d) ?_ ⟨.refl, by simp⟩).mono fun _ _ h => h.2
  rintro done d - - q ⟨hsteps, hdone⟩
  have hq := hp.steps hsteps
  have hnew : Yields (reflectDeclaration c d) q fun _ q' => c.isEligible d → Noted c q' d := by
    intro a q' hrun heligible
    exact reflectDeclaration_notes hq heligible a q' hrun
  refine ((reflectDeclaration_spec hq d).and hnew).mono ?_
  rintro - q' ⟨hstep, hd⟩
  refine ⟨hsteps.trans hstep, List.forall_mem_append.2 ⟨fun e he heligible =>
    (hdone e he heligible).steps hstep, ?_⟩⟩
  rintro e he
  obtain rfl := List.mem_singleton.1 he
  exact hd

/-! ## Again -/

theorem run_discard_of_ok {α : Type} {m : Walk α} {a : α} (h : m.run p = .ok a q) :
    (discard m).run p = .ok () q := by
  have heq : (discard m).run p = (m >>= fun _ => pure ⟨⟩).run p := rfl
  rw [heq, EStateM.run_bind, h]
  rfl

theorem exists_find?_of_mem_keys {α : Type} {key : α → String} {catalog : Catalog key} {n : String}
    (h : n ∈ catalog.keys) : ∃ v, catalog.find? n = some v :=
  Option.isSome_iff_exists.1 ((Catalog.find?_isSome_iff catalog n).2 h)

/-- A class on record is not walked. -/
theorem opening_known (htold : Told c.unit p d)
    (hmem : declaredName c.unit d ∈ p.registry.classes.keys) (m : Metadata) :
    ∃ k, (opening c (.declared d m)).run p = .ok (.inl k) p := by
  obtain ⟨t, hrun, hname⟩ := htold.exists_type
  rw [← hname] at hmem
  obtain ⟨k, hk⟩ := exists_find?_of_mem_keys hmem
  refine ⟨k, ?_⟩
  rw [opening, EStateM.run_bind, hrun]
  simp only [Walk.registry, EStateM.run_bind, EStateM.run_get, EStateM.run_pure, hk]

/-- A declaration on record changes nothing, and no members are walked for it. -/
theorem Noted.again (h : Noted c p d) (hd : c.isEligible d) :
    (reflectDeclaration c d).run p = .ok () p ∧ visitsOf (asked c d) (visitsClass c) p = [] := by
  rw [reflectDeclaration_eq, asked]
  simp only [hd, if_true]
  cases h with
  | «class» hkind htold hmem =>
    obtain ⟨k, hk⟩ := opening_known htold hmem (c.metadata (c.unit.cursor d))
    simp only [hkind, if_true]
    constructor
    · refine run_discard_of_ok (a := k) ?_
      rw [reflectClass, reflectWithin, reflectWith_eq, EStateM.run_bind, hk]
      rfl
    · simp only [visitsOf, EStateM.run_pure, visitsClass, visitsWithin, hk]
  | enum hkind htold hmem =>
    obtain ⟨t, hrun, hname⟩ := htold.exists_type
    obtain ⟨e, he⟩ := exists_find?_of_mem_keys (hname ▸ hmem)
    simp only [hkind, if_true]
    refine ⟨run_discard_of_ok (a := e) ?_, rfl⟩
    rw [reflectEnum, EStateM.run_bind, hrun]
    simp only [Walk.registry, EStateM.run_bind, EStateM.run_get, EStateM.run_pure, he]
  | «alias» hkind htold hmem =>
    have hothers : (c.unit.cursor d).kind.isClass = false ∧
        (c.unit.cursor d).kind ≠ .enumDecl ∧ (c.unit.cursor d).kind ≠ .classTemplate := by
      revert hkind
      cases (c.unit.cursor d).kind <;> decide
    obtain ⟨own, hown⟩ := htold.exists_own hothers.2.2
    obtain ⟨t, hrun, hname⟩ := htold.exists_type
    rw [resolveCursor_of_type hown] at hrun
    obtain ⟨a, ha⟩ := exists_find?_of_mem_keys (hname ▸ hmem)
    simp only [hothers.1, hothers.2.1, hkind, if_true, Bool.false_eq_true, if_false]
    constructor
    · refine run_discard_of_ok (a := a) ?_
      simp only [reflectAlias, hown]
      rw [EStateM.run_bind, hrun]
      simp only [Walk.registry, EStateM.run_bind, EStateM.run_get, EStateM.run_pure, ha]
    · simp only [visitsOf, aliasAsked, hown]
      rw [EStateM.run_bind, hrun]
      simp only [Walk.registry, EStateM.run_bind, EStateM.run_get, EStateM.run_pure, ha]
  | function hkind hmem =>
    obtain ⟨f, hf⟩ := exists_find?_of_mem_keys hmem
    have hothers : (c.unit.cursor d).kind.isClass = false ∧
        (c.unit.cursor d).kind ≠ .enumDecl ∧ (c.unit.cursor d).kind.isAlias = false := by
      rw [hkind]
      decide
    simp only [hothers.1, hothers.2.1, hothers.2.2, Bool.false_eq_true, if_false]
    refine ⟨run_discard_of_ok (a := f) ?_, rfl⟩
    rw [functionName] at hf
    rw [reflectFunction]
    simp only [Walk.registry, EStateM.run_bind, EStateM.run_get, EStateM.run_pure, hf]

/-- What is passed over or on record all along is walked without a change. -/
theorem forM_again {l : List CursorId} (h : ∀ d ∈ l, c.isEligible d → Noted c p d) :
    (forM l (reflectDeclaration c)).run p = .ok () p ∧ visits c l p = [] := by
  induction l with
  | nil => exact ⟨rfl, rfl⟩
  | cons d l ih =>
    obtain ⟨hd, hl⟩ := List.forall_mem_cons.1 h
    obtain ⟨hrest, hvisits⟩ := ih hl
    have hfirst : (reflectDeclaration c d).run p = .ok () p ∧
        visitsOf (asked c d) (visitsClass c) p = [] := by
      by_cases heligible : c.isEligible d
      · exact (hd heligible).again heligible
      · rw [reflectDeclaration_eq, asked]
        simp only [heligible]
        exact ⟨rfl, rfl⟩
    constructor
    · rw [List.forM_cons, EStateM.run_bind, hfirst.1]
      exact hrest
    · rw [visits, visitsAlong, hfirst.1, hfirst.2]
      exact hvisits

/-- When a walk over a unit succeeds, another one from the same declaration succeeds as well and
leaves everything as it was: the records of every kind with their order and their numbers, what is
remembered of types and bases, and what was reported. It walks the members of no class, so that no
fields are taken over from templates again. -/
theorem reflect_again (c : Context) (r : Registry) (i : CursorId) {p : Progress}
    (hrun : (reflect c i).run (.start r) = .ok () p) :
    (reflect c i).run p = .ok () p ∧ ∃ l, Met c.unit [i] l ∧ visits c l p = [] := by
  have hstart : OriginsNamed c.unit (.start r) := by
    intro n d hd
    simp [Progress.start] at hd
  obtain ⟨l, hl, hwalk⟩ := exists_met_of_reflect hrun
  rw [hwalk] at hrun ⊢
  obtain ⟨hagain, hvisits⟩ := forM_again (forM_reflectDeclaration_notes hstart l () p hrun)
  exact ⟨hagain, l, hl, hvisits⟩

/-- The second alias of a name is known the first time already; the base and the specialisation
that were recorded on the way are not looked at again. -/
theorem reflect_again_depot : ∃ p,
    (reflect (walkOver depot) 0).run (.start (.empty .crc32)) = .ok () p ∧
      p.registry.classes.keys = ["Base", "Derived", "Box", "Box<int>"] ∧
      p.registry.aliases.keys = ["Crate"] ∧ p.registry.functions.keys = ["inner::paint"] ∧
      (reflect (walkOver depot) 0).run p = .ok () p ∧
      visits (walkOver depot) [2, 4, 6, 7, 10, 11, 16, 18] p = [] := by
  have hleaves : leaves depot fun p =>
      p.registry.classes.keys == ["Base", "Derived", "Box", "Box<int>"] &&
        p.registry.aliases.keys == ["Crate"] && p.registry.functions.keys == ["inner::paint"] := by
    decide +kernel
  obtain ⟨p, hrun, hkeys⟩ := exists_of_leaves hleaves
  simp only [Bool.and_eq_true, beq_iff_eq] at hkeys
  obtain ⟨hagain, l, hl, hvisits⟩ := reflect_again (walkOver depot) (.empty .crc32) 0 hrun
  obtain rfl := hl.unique met_depot
  exact ⟨p, hrun, hkeys.1.1, hkeys.1.2, hkeys.2, hagain, hvisits⟩

end Introspect.Reflection
