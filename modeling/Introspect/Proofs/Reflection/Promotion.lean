import Introspect.Proofs.Reflection.Closure
import Introspect.Proofs.Reflection.Harvest

/-! Classes have the members that the declarations call for, with the fields that templates give
them for their arguments. -/
namespace Introspect.Reflection

section promoted
variable {c : Context} {p q : Progress}

theorem promotedFields_specialized (hr : TemplatesRegular c p.registry) (hq : Traced c q)
    (hg : Grows q p) {k : ClassRecord} (hkey : k.qualifiedName ∈ p.registry.classes.keys)
    (htype : p.registry.types.find? k.qualifiedName = some k.type)
    (hspecial : k.type.isSpecialized) :
    Yields (promotedFields k) q fun fs _ => ∃ e, IsTemplate c.unit e ∧
      k.type.templateName? = some (declaredName c.unit e) ∧
      ∀ n, p.registry.classes.size + 2 ≤ n →
        fs = instanceFields c p.registry n e k.type.arguments := by
  rw [promotedFields_of_specialized hspecial]
  refine yields_bind (genericClass_describes hr.supplied hq hg hkey htype hspecial) ?_
  rintro k' q' ⟨rfl, e, he, hname⟩
  refine (templateFields_spec hr hq hg he k.type.arguments).mono ?_
  rintro fs q'' ⟨-, hfields⟩
  exact ⟨e, he.template, hname, hfields⟩

theorem promotedFields_plain (hr : TemplatesRegular c p.registry) (hq : Traced c q)
    (hg : Grows q p) {d : CursorId} {k : ClassRecord} (hplain : k.type.template? = none)
    (hk : Members c q false (c.unit.cursor d).children k) :
    Yields (promotedFields k) q fun fs _ => ∀ n, p.registry.classes.size + 2 ≤ n →
      fs = (specifiers c d).flatMap (specializedFields c p.registry n) := by
  unfold promotedFields
  rw [hplain]
  refine yields_bind (R := fun r q' => q' = q ∧ r = q.registry) (yields_registry ⟨rfl, rfl⟩) ?_
  rintro r q' ⟨rfl, rfl⟩
  refine (yields_foldlM_along (I := fun done fs q'' => Reported q' q'' ∧
    ∀ n, p.registry.classes.size + 2 ≤ n →
      fs = done.flatMap (specializedFields c p.registry n)) hk.directBases ?_
    ⟨.refl q', by simp⟩).mono fun _ _ h => h.2
  rintro done x rest hsplit b hb fs q₁ ⟨hq₁, hfs⟩
  have hg₁ := hg.after_reported hq₁
  have htype := hq.find?_type hg hb.mem
  split
  · next hspecial =>
    refine yields_pure ⟨hq₁, ?_⟩
    intro n hn
    have hnone : specializedFields c p.registry n x = [] := by
      simp only [Bool.not_eq_eq_eq_not, Bool.not_true] at hspecial
      unfold specializedFields
      split
      · rfl
      · next t e hbase =>
        simp only [baseTemplate?, hb.name, htype, Option.bind_eq_bind, Option.bind_some,
          Option.bind_eq_some_iff, Option.pure_def, Option.some.injEq, Prod.mk.injEq] at hbase
        obtain ⟨_, _, _, _, rfl, _⟩ := hbase
        simp [hspecial]
    rw [List.flatMap_append, List.flatMap_singleton, hnone, List.append_nil]
    exact hfs n hn
  · next hspecial =>
    have hspecial : b.type.isSpecialized := by simpa using hspecial
    have hkey := hg.class_mem (Catalog.key_mem_keys hb.mem)
    refine yields_bind
      (genericClass_describes hr.supplied (hq.reported hq₁) hg₁ hkey htype hspecial) ?_
    rintro k' q₂ ⟨rfl, e, he, hname⟩
    refine yields_bind (templateFields_spec hr (hq.reported hq₁) hg₁ he b.type.arguments) ?_
    rintro more q₃ ⟨hq₃, hmore⟩
    refine yields_pure ⟨hq₁.trans hq₃, ?_⟩
    intro n hn
    have hbase := baseTemplate?_eq hr.distinct hb.name htype he.template hname
    rw [List.flatMap_append, List.flatMap_singleton, hfs n hn, hmore n hn, specializedFields, hbase]
    simp [hspecial]

end promoted

section entered
variable {c : Context} {o p q : Progress} {flag : Bool} {d : CursorId} {r : ClassRecord}
  {promoted : List Field}

theorem ClassSource.declaration_of_specialized {u : CompilationUnit} {type : CppType}
    {e : CursorId} (h : ClassSource u o type true d) (ho : GenericTypes u o) (hu : NamesDistinct u)
    (he : IsTemplate u e) (hname : type.templateName? = some (declaredName u e))
    (hgeneric : ∀ g, o.registry.types.find? (declaredName u e) = some g → g.isGeneric) : d = e := by
  cases h with
  | specialized _ _ hg horigin =>
    rw [hname, Option.getD_some] at hg horigin
    obtain ⟨e', he', hname', -, horigin'⟩ := ho _ (Catalog.mem_of_find? hg) (hgeneric _ hg)
    rw [Catalog.key_of_find? hg] at hname' horigin'
    obtain rfl := Option.some.inj (horigin.symm.trans horigin')
    exact hu _ d e (hname' ▸ he'.declares) he.declares

/-- A class is what the declarations call for from the moment when it is entered. -/
theorem promoted_of_entered (hr : TemplatesRegular c p.registry) {k : ClassRecord}
    (hk : k.qualifiedName ∈ p.registry.classes.keys) (h : Entered c p k) :
    Promoted c p.registry k := by
  obtain ⟨o, q, flag, d, r, promoted, ho, hg, hsource, hmembers, hrun, rfl⟩ := h
  have htype : p.registry.types.find? r.qualifiedName = some r.type :=
    hg.types _ _ (Catalog.find?_of_mem hsource.type_mem)
  have hlater := hmembers.grows hg
  cases hkind : r.type.template? with
  | none =>
    obtain rfl := hsource.flag_eq_false (by simp [CppType.isSpecialized, hkind])
    refine .plain (d := d) (by simp [CppType.isTemplated, hkind]) hsource.declares
      hlater.methods_eq ?_
    intro n hn
    dsimp only
    rw [hlater.fields_eq, promotedFields_plain hr ho hg hkind hmembers _ _ hrun n hn]
  | some kind =>
    cases kind with
    | generic =>
      have hgeneric : r.type.isGeneric := by simp [CppType.isGeneric, hkind]
      obtain rfl := hsource.flag_eq_false (not_isSpecialized hgeneric)
      obtain rfl := promotedFields_of_generic hgeneric _ _ hrun
      obtain ⟨e, he, hname, -⟩ := ho.generic r.type hsource.type_mem hgeneric
      obtain rfl := hr.distinct _ d e hsource.declares (hname ▸ he.declares)
      refine .template hgeneric he hname.symm ?_ hlater.methods_eq
      simpa using hlater.fields_eq
    | specialized =>
      have hspecial : r.type.isSpecialized := by simp [CppType.isSpecialized, hkind]
      obtain ⟨e, he, hname, hfields⟩ :=
        promotedFields_specialized hr ho hg hk htype hspecial _ _ hrun
      cases flag with
      | false =>
        refine .declaredSpecialization hspecial he hname hsource.declares hlater.methods_eq ?_
        intro n hn
        dsimp only
        rw [hlater.fields_eq, hfields n hn]
      | true =>
        -- the members that were walked are those of the template that the fields come from
        obtain ⟨g, hg', hgeneric, -⟩ := hr.specializations _ hk _ htype hspecial
        have hde : d = e := by
          refine hsource.declaration_of_specialized ho.generic hr.distinct he hname ?_
          intro g' hfind
          rw [hname, Option.getD_some, hg.types _ _ hfind] at hg'
          exact Option.some.inj hg' ▸ hgeneric
        subst hde
        refine .specialization hspecial he hname (hlater.specializedMethods_eq hname) ?_
        intro n hn
        have hown : r.fields = [] := List.forall₂_nil_left_iff.1 hmembers.fields
        dsimp only
        rw [hown, List.nil_append, hfields n hn]

end entered

/-- Class templates `Chest` and `Lid` that are derived from `Box`. What `Chest` names as its base is
the template, and what `Lid` names is a specialisation. -/
def chests : CompilationUnit where
  root := 0
  cursors := #[
    written .unit "a.h" none [1, 6, 10, 15, 18],
    written .classTemplate "Box" none [2, 3, 4],
    written .annotationNode "mark" none [],
    written .templateTypeParameter "T" (some 0) [],
    written .fieldDecl "value" (some 0) [5],
    written .annotationNode "mark" none [],
    written .classTemplate "Chest" none [7, 8, 9],
    written .annotationNode "mark" none [],
    written .templateTypeParameter "U" (some 2) [],
    written .baseSpecifier "Box<U>" (some 3) [],
    written .classTemplate "Lid" none [11, 12, 13],
    written .annotationNode "mark" none [],
    written .templateTypeParameter "V" (some 4) [],
    written .baseSpecifier "Box<V>" (some 5) [],
    written .structDecl "Box" (some 5) [],
    written .structDecl "Crate" (some 8) [16, 17],
    written .annotationNode "mark" none [],
    written .baseSpecifier "Chest<int>" (some 6) [],
    written .structDecl "Jar" (some 9) [19, 20],
    written .annotationNode "mark" none [],
    written .baseSpecifier "Lid<int>" (some 7) [],
    written .structDecl "Chest" (some 6) [],
    written .structDecl "Lid" (some 7) []]
  types := #[
    ⟨.unexposed, "T", false, true, 0, none, some 3, []⟩,
    ⟨.int, "int", false, false, 1, none, none, []⟩,
    ⟨.unexposed, "U", false, true, 2, none, some 8, []⟩,
    ⟨.unexposed, "Box<U>", false, false, 3, none, some 1, [2]⟩,
    ⟨.unexposed, "V", false, true, 4, none, some 12, []⟩,
    ⟨.record, "Box<V>", false, false, 5, none, some 14, [4]⟩,
    ⟨.record, "Chest<int>", false, false, 6, none, some 21, [1]⟩,
    ⟨.record, "Lid<int>", false, false, 7, none, some 22, [1]⟩,
    ⟨.record, "Crate", false, false, 8, none, some 15, []⟩,
    ⟨.record, "Jar", false, false, 9, none, some 18, []⟩]

theorem chests_regular {r : Registry} (h : RegularTo (walkOver chests) r 2) :
    TemplatesRegular (walkOver chests) r :=
  templatesRegular_of_regularTo (namesDistinct_of_declarations (by decide +kernel))
    (by decide +kernel) h

/-- The names of the fields of a registered class with those of their types. -/
def fieldTypes (r : Registry) (n : String) : List (String × String) :=
  ((r.classes.find? n).map ClassRecord.fields).getD [] |>.map fun f =>
    (f.name, f.use.type.qualifiedName)

end Introspect.Reflection
