import Mathlib.Data.List.Induction
import Introspect.Proofs.Reflection.Tally
import Introspect.Proofs.Registry.Targets

/-! Which aliases find the class or the enum that they stand for. The name is written into the record
of an alias while the walk is still under way: an alias finds what was recorded before it and what it
has recorded itself. Of what comes later it finds what another alias of that name leads to. -/
namespace Introspect.Reflection

/-- The record of an alias for a type of the unit, made when the classes and the enums of `p` were
known. The name of its class stays empty when the class was not there and is no specialisation, and
that of its enum when the enum was not there. -/
structure IsLinked (c : Context) (p : Progress) (d : CursorId) (own : TypeId) (a : AliasRecord) :
    Prop where
  type : (c.unit.cursor d).type = some own
  name : a.qualifiedName = declaredName c.unit d
  target : a.target.qualifiedName = recordedName c.unit (c.unit.type own).canonical
  className : a.className? =
    if (c.unit.canonical own).kind = .record ∧
        (a.target.qualifiedName ∈ p.registry.classes.keys ∨ a.target.isTemplated) then
      some a.target.qualifiedName else none
  enumName : a.enumName? =
    if (c.unit.canonical own).kind = .enum ∧ a.target.qualifiedName ∈ p.registry.enums.keys then
      some a.target.qualifiedName else none

/-- An alias, made when the classes and the enums of `p` were known, finds among the records of `r` the
class that it stands for exactly when that was known, is a specialisation, or is what another alias
called like it leads to, and the enum exactly when that was known or is what such an alias leads to. -/
structure FindsKnown (c : Context) (p : Progress) (r : Registry) (own : TypeId) (a : AliasRecord) :
    Prop where
  underlyingClass : (c.unit.canonical own).kind = .record →
    ∀ k, r.classes.find? a.target.qualifiedName = some k →
      (r.underlyingClass a = some k ↔
        (a.target.qualifiedName ∈ p.registry.classes.keys ∨ a.target.isTemplated) ∨
          ∃ b, r.aliases.find? a.target.qualifiedName = some b ∧
            r.Leads (fun b => b.className?.bind r.classes.find?) b k)
  underlyingEnum : (c.unit.canonical own).kind = .enum →
    ∀ e, r.enums.find? a.target.qualifiedName = some e →
      (r.underlyingEnum a = some e ↔
        a.target.qualifiedName ∈ p.registry.enums.keys ∨
          ∃ b, r.aliases.find? a.target.qualifiedName = some b ∧
            r.Leads (fun b => b.enumName?.bind r.enums.find?) b e)

/-- Every alias comes from a declaration of the list, and was made after those before it. -/
def Linked (c : Context) (start : Progress) (l : List CursorId) (p : Progress) : Prop :=
  ∀ a ∈ p.registry.aliases.items, ∃ before d after p₀ own, l = before ++ d :: after ∧
    (forM before (reflectDeclaration c)).run start = .ok () p₀ ∧ IsLinked c p₀ d own a

theorem Notes.eq_of_nil {α : Type} {key : α → String} {name : CursorId → String}
    {R : CursorId → α → Prop} {l : List CursorId} {catalog catalog' : Catalog key}
    (h : Notes name R l catalog catalog') (hl : l = []) : catalog' = catalog := by
  subst hl
  cases h
  rfl

section specs
variable {c : Context} {p : Progress} {d : CursorId}

theorem aliasTargets_links (hp : OriginsNamed c.unit p) {t : TypeId}
    (ht : ∃ s, (c.unit.type s).canonical = t) {target : CppType}
    (hname : target.qualifiedName = recordedName c.unit t) :
    Yields (aliasTargets c t target) p fun o q =>
      q.registry.aliases = p.registry.aliases ∧
      (o.1 = if (c.unit.type t).kind = .record ∧
          (target.qualifiedName ∈ p.registry.classes.keys ∨ target.isTemplated) then
        some target.qualifiedName else none) ∧
      o.2 = if (c.unit.type t).kind = .enum ∧ target.qualifiedName ∈ p.registry.enums.keys then
        some target.qualifiedName else none := by
  refine yields_bind (R := fun r q => q = p ∧ r = p.registry) (yields_registry ⟨rfl, rfl⟩) ?_
  rintro r q ⟨rfl, rfl⟩
  split
  · next hkind =>
    split
    · next known hknown =>
      have hmem := Catalog.mem_keys_of_find? hknown
      have hkey : known.qualifiedName = target.qualifiedName := Catalog.key_of_find? hknown
      exact yields_pure ⟨rfl, by simp [hkind, hmem, hkey], by simp [hkind]⟩
    · next hnone =>
      have hnew := Catalog.find?_eq_none_iff.1 hnone
      split
      · next htemplated =>
        have hclass : (Target.typed t).IsClass c.unit := ⟨ht, .inl hkind⟩
        refine yields_bind ((reflectClass_collects (.typed t) q hclass trivial hp).and
          (reflectClass_records (.typed t) q hclass hp)) ?_
        rintro r q' ⟨hcollects, -, hr, -⟩
        have hr' : r.qualifiedName = target.qualifiedName := hr.trans hname.symm
        exact yields_pure ⟨hcollects.1.aliases, by simp [hkind, htemplated, hr'], by simp [hkind]⟩
      · next hplain => exact yields_pure ⟨rfl, by simp [hkind, hnew, hplain], by simp [hkind]⟩
  · next hkind =>
    refine yields_pure ⟨rfl, by simp [hkind], ?_⟩
    cases hfind : q.registry.enums.find? target.qualifiedName with
    | none => simp [hkind, Catalog.find?_eq_none_iff.1 hfind]
    | some e =>
      have hkey : e.qualifiedName = target.qualifiedName := Catalog.key_of_find? hfind
      simp [hkind, Catalog.mem_keys_of_find? hfind, hkey]
  · next hrecord henum =>
    exact yields_pure ⟨rfl, (if_neg fun h => hrecord h.1).symm, (if_neg fun h => henum h.1).symm⟩

/-- An alias that is new has the class and the enum that were known before it. -/
theorem reflectAlias_links (hp : OriginsNamed c.unit p) (m : Metadata) :
    Yields (reflectAlias c d m) p fun _ q => ∀ a ∈ q.registry.aliases.items,
      a ∈ p.registry.aliases.items ∨ ∃ own, IsLinked c p d own a := by
  unfold reflectAlias
  dsimp only
  split
  · next own hown' =>
    refine yields_bind (resolveType_spec own) ?_
    rintro type q ⟨⟨hq, -⟩, htype⟩
    refine yields_bind (R := fun r q' => q' = q ∧ r = q.registry) (yields_registry ⟨rfl, rfl⟩) ?_
    rintro r q ⟨rfl, rfl⟩
    split
    · refine yields_pure fun a ha => .inl ?_
      rwa [(Untouched.of_resolves hq).aliases] at ha
    · refine yields_bind (resolveType_spec _) ?_
      rintro target q₁ ⟨⟨hq₁, -⟩, htarget⟩
      have hboth := hq.trans hq₁
      have huntouched := Untouched.of_resolves hboth
      have hname : target.qualifiedName = recordedName c.unit (c.unit.type own).canonical :=
        Catalog.key_of_find? htarget
      refine yields_bind ((aliasTargets_spec (hboth.named hp) ⟨own, rfl⟩ target).and
        (aliasTargets_links (hboth.named hp) ⟨own, rfl⟩ hname)) ?_
      rintro ⟨targetClass, targetEnum⟩ q₂ ⟨⟨hsteps, -⟩, haliases, hclass, henum⟩
      rw [hboth.classes_eq] at hclass
      rw [huntouched.enums] at henum
      refine yields_bind (R := fun _ q => ∀ a ∈ q.registry.aliases.items, _) ?_
        fun _ _ h => yields_pure h
      apply yields_update
      intro r hr
      obtain ⟨s, hs, rfl⟩ := Registry.addAlias_ok hr
      have hown := (hq₁.grows.trans (.of_steps hsteps)).type_mem (Catalog.mem_of_find? htype)
      obtain rfl := eq_of_ensureType hown hs
      intro a ha
      rcases Catalog.mem_items_insert.1 ha with rfl | ⟨ha, -⟩
      · exact .inr ⟨own, hown', (Catalog.key_of_find? htype).trans (declaredName_of_type hown').symm,
          hname, hclass, henum⟩
      · rw [haliases, huntouched.aliases] at ha
        exact .inl ha
  · exact yields_throw

/-- Other declarations record no alias. -/
theorem reflectDeclaration_links (hp : OriginsNamed c.unit p)
    (hgeneric : ∀ t ∈ p.registry.types.items, t.isGeneric →
      t.qualifiedName ∈ p.registry.classes.keys) :
    Yields (reflectDeclaration c d) p fun _ q => ∀ a ∈ q.registry.aliases.items,
      a ∈ p.registry.aliases.items ∨ ∃ own, IsLinked c p d own a := by
  by_cases halias : c.isEligible d ∧ (c.unit.cursor d).kind.isAlias
  · obtain ⟨heligible, hkind⟩ := halias
    have hothers : (c.unit.cursor d).kind.isClass = false ∧
        (c.unit.cursor d).kind ≠ .enumDecl := by
      revert hkind
      cases (c.unit.cursor d).kind <;> decide
    rw [reflectDeclaration_eq]
    simp only [heligible, hothers, hkind, if_true, if_false, Bool.false_eq_true]
    exact yields_discard (reflectAlias_links hp _)
  · refine (reflectDeclaration_enters hp hgeneric).mono fun _ q henters a ha => .inl ?_
    have hnone : eligible c CursorKind.isAlias [d] = [] := by
      simpa [eligible] using halias
    rwa [henters.aliases.eq_of_nil hnone] at ha

end specs

section walk
variable {c : Context} {hash : NameHash}

theorem Linked.step {start p q : Progress} {l : List CursorId} {d : CursorId}
    (h : Linked c start l p) (hrun : (forM l (reflectDeclaration c)).run start = .ok () p)
    (hnew : ∀ a ∈ q.registry.aliases.items, a ∈ p.registry.aliases.items ∨
      ∃ own, IsLinked c p d own a) : Linked c start (l ++ [d]) q := by
  intro a ha
  rcases hnew a ha with hold | ⟨own, hown⟩
  · obtain ⟨before, e, after, p₀, own, rfl, hbefore, hlinked⟩ := h a hold
    exact ⟨before, e, after ++ [d], p₀, own, by simp, hbefore, hlinked⟩
  · exact ⟨l, d, [], p, own, rfl, hrun, hown⟩

theorem linked_of_run {l : List CursorId} {p : Progress}
    (hrun : (forM l (reflectDeclaration c)).run (.start (.empty hash)) = .ok () p) :
    Linked c (.start (.empty hash)) l p := by
  induction l using List.reverseRecOn generalizing p with
  | nil =>
    cases hrun
    intro a ha
    cases ha
  | append_singleton l d ih =>
    rw [List.forM_append, List.forM_cons, EStateM.run_bind] at hrun
    cases hl : (forM l (reflectDeclaration c)).run (.start (.empty hash)) with
    | error e q => simp [hl] at hrun
    | ok _ q =>
      have htally := (tally_start c hash).walk l () q hl
      have hlast : (reflectDeclaration c d).run q = .ok () p := by
        rw [hl] at hrun
        simpa using hrun
      exact (ih hl).step hl (reflectDeclaration_links htally.originsNamed htally.generic () p hlast)

theorem IsLinked.findsKnown {p : Progress} {d : CursorId} {own : TypeId} {a : AliasRecord}
    {r : Registry} (h : IsLinked c p d own a) (ha : a ∈ r.aliases.items) :
    FindsKnown c p r own a where
  underlyingClass hkind k hk := by
    have hname := h.className
    simp only [hkind, true_and] at hname
    exact Registry.follow_bind_iff ha hname hk
  underlyingEnum hkind e he := by
    have hname := h.enumName
    simp only [hkind, true_and] at hname
    exact Registry.follow_bind_iff ha hname he

/-- Every alias was made from a declaration that the walk meets, and finds of what is recorded in the
end what was recorded before that declaration, and the specialisation that it stands for. -/
theorem reflect_findsKnown (c : Context) (hash : NameHash) (i : CursorId) (p : Progress)
    (hrun : (reflect c i).run (.start (.empty hash)) = .ok () p) :
    ∃ l, Met c.unit [i] l ∧ ∀ a ∈ p.registry.aliases.items, ∃ before d after p₀ own,
      l = before ++ d :: after ∧
      (forM before (reflectDeclaration c)).run (.start (.empty hash)) = .ok () p₀ ∧
      IsLinked c p₀ d own a ∧ FindsKnown c p₀ p.registry own a := by
  obtain ⟨l, hl, hwalk⟩ := reflect_met hrun
  refine ⟨l, hl, fun a ha => ?_⟩
  obtain ⟨before, d, after, p₀, own, hsplit, hbefore, hlinked⟩ := linked_of_run hwalk a ha
  exact ⟨before, d, after, p₀, own, hsplit, hbefore, hlinked, hlinked.findsKnown ha⟩

/-- A class `Player` with the alias `Hero` after it, and a class `Enemy` that is declared, given the
alias `Foe`, and defined last. -/
def roster : CompilationUnit where
  root := 0
  cursors := #[
    written .unit "a.h" none [1, 3, 5, 6, 8],
    written .structDecl "Player" (some 0) [2],
    written .annotationNode "mark" none [],
    written .typeAlias "Hero" (some 2) [4],
    written .annotationNode "mark" none [],
    { written .structDecl "Enemy" (some 1) [] with isDefinition := false },
    written .typeAlias "Foe" (some 3) [7],
    written .annotationNode "mark" none [],
    written .structDecl "Enemy" (some 1) [9],
    written .annotationNode "mark" none []]
  types := #[
    ⟨.record, "Player", false, false, 0, none, some 1, []⟩,
    ⟨.record, "Enemy", false, false, 1, none, some 8, []⟩,
    ⟨.typedef, "Hero", false, false, 0, none, some 3, []⟩,
    ⟨.typedef, "Foe", false, false, 1, none, some 6, []⟩]

/-- `Hero` finds its class and `Foe` does not. -/
theorem reflect_findsKnown_roster : ∃ p l,
    (reflect (walkOver roster) 0).run (.start (.empty NameHash.crc32)) = .ok () p ∧
      Met roster [0] l ∧
      (∀ a ∈ p.registry.aliases.items, ∃ before d after p₀ own, l = before ++ d :: after ∧
        (forM before (reflectDeclaration (walkOver roster))).run (.start (.empty NameHash.crc32)) =
          .ok () p₀ ∧
        IsLinked (walkOver roster) p₀ d own a ∧
        FindsKnown (walkOver roster) p₀ p.registry own a) ∧
      p.registry.aliases.items.map (fun a => (a.qualifiedName,
        (p.registry.underlyingClass a).map ClassRecord.qualifiedName)) =
        [("Hero", some "Player"), ("Foe", none)] := by
  have hleaves : leaves roster fun p =>
      p.registry.aliases.items.map (fun a => (a.qualifiedName,
        (p.registry.underlyingClass a).map ClassRecord.qualifiedName)) ==
        [("Hero", some "Player"), ("Foe", none)] := by decide +kernel
  obtain ⟨p, hrun, htest⟩ := exists_of_leaves hleaves
  obtain ⟨l, hl, hfinds⟩ := reflect_findsKnown (walkOver roster) _ 0 p hrun
  exact ⟨p, l, hrun, hl, hfinds, beq_iff_eq.1 htest⟩

/-- `Foe` stands for a class that is there in the end, and does not find it. -/
theorem not_finds_roster : ∃ p, ∃ a ∈ p.registry.aliases.items,
    (reflect (walkOver roster) 0).run (.start (.empty NameHash.crc32)) = .ok () p ∧
      a.qualifiedName = "Foe" ∧ (roster.canonical 3).kind = .record ∧
      a.target.qualifiedName = recordedName roster (roster.type 3).canonical ∧
      a.target.qualifiedName ∈ p.registry.classes.keys ∧ p.registry.underlyingClass a = none := by
  have hleaves : leaves roster fun p =>
      p.registry.aliases.items.any fun a => a.qualifiedName == "Foe" &&
        a.target.qualifiedName == recordedName roster (roster.type 3).canonical &&
        p.registry.classes.contains a.target.qualifiedName &&
        (p.registry.underlyingClass a).isNone := by decide +kernel
  obtain ⟨p, hrun, htest⟩ := exists_of_leaves hleaves
  simp only [List.any_eq_true, Bool.and_eq_true, beq_iff_eq, Catalog.contains_iff,
    Option.isNone_iff_eq_none] at htest
  obtain ⟨a, ha, ⟨⟨hname, htarget⟩, hclass⟩, hnone⟩ := htest
  exact ⟨p, a, ha, hrun, hname, rfl, htarget, hclass, hnone⟩

end walk
end Introspect.Reflection
