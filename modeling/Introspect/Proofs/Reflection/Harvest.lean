import Introspect.Proofs.Reflection.Entry
import Introspect.Proofs.Reflection.Instance

/-! The fields that are collected from a template and its bases are those that the declarations
give to it. -/
namespace Introspect.Reflection

section sources
variable {u : CompilationUnit} {p : Progress}

theorem ClassSource.declares {type : CppType} {d : CursorId} (h : ClassSource u p type false d) :
    Declares u type.qualifiedName d := by
  cases h with
  | declared hkind htype =>
    rw [Catalog.key_of_find? htype]
    refine .declared ?_
    simp only [CursorKind.needsDefinition, hkind, Bool.true_or]
  | typed hclass htype _ hd =>
    rw [Catalog.key_of_find? htype]
    exact .typed hclass (.inr hd)

theorem baseName?_cases {x : CursorId} {n : String} (h : baseName? u (u.cursor x) = some n) :
    ∃ i f, (u.cursor x).type = some i ∧ (u.canonical i).declaration = some f ∧
      ((u.cursor f).kind = .classTemplate ∧ n = declaredName u f ∨
        (u.cursor f).kind.isClass ∧ (u.cursor f).kind ≠ .classTemplate ∧
          n = recordedName u (u.type i).canonical) := by
  simp only [baseName?, Option.bind_eq_bind, Option.bind_eq_some_iff] at h
  obtain ⟨i, hi, f, hf, hn⟩ := h
  refine ⟨i, f, hi, hf, ?_⟩
  split at hn
  · next hkind => exact .inl ⟨hkind, (Option.some.inj hn).symm⟩
  · next hkind =>
    exact .inr ⟨by simp [hkind, CursorKind.isClass], by simp [hkind], (Option.some.inj hn).symm⟩
  · next hkind =>
    exact .inr ⟨by simp [hkind, CursorKind.isClass], by simp [hkind], (Option.some.inj hn).symm⟩
  · cases hn

/-- A base specifier for a class template is declared by it. -/
theorem declaration_of_baseName? (hu : NamesDistinct u) {x e : CursorId} (he : IsTemplate u e)
    (h : baseName? u (u.cursor x) = some (declaredName u e)) :
    ∃ i, (u.cursor x).type = some i ∧ (u.canonical i).declaration = some e := by
  obtain ⟨i, f, hi, hf, ⟨hkind, hname⟩ | ⟨hkind, hne, hname⟩⟩ := baseName?_cases h
  · have hdeclares : Declares u (declaredName u f) f := .declared (by rw [hkind]; rfl)
    rw [hu _ f e hdeclares (hname ▸ he.declares)] at hf
    exact ⟨i, hi, hf⟩
  · have hdeclares : Declares u (recordedName u (u.type i).canonical) f :=
      .typed ⟨⟨i, rfl⟩, .inr ⟨f, hf, hkind⟩⟩ (.inl hf)
    rw [hu _ f e hdeclares (hname ▸ he.declares)] at hne
    exact absurd he.2 hne

theorem arguments_ne_nil {t : CppType} (h : t.isGeneric) : t.arguments ≠ [] := by
  cases t with
  | plain => simp [CppType.isGeneric, CppType.template?] at h
  | templated => simp [CppType.arguments]

theorem templateName?_of_generic {t : CppType} (h : t.isGeneric) :
    t.templateName? = some t.qualifiedName := by
  have hkind : t.template? = some .generic := by simpa [CppType.isGeneric] using h
  simp only [CppType.templateName?, hkind]

end sources

/-- The class is that of a class template, with what the template declares. -/
structure Describes (c : Context) (q : Progress) (e : CursorId) (k : ClassRecord) : Prop where
  mem : k ∈ q.registry.classes.items
  template : IsTemplate c.unit e
  name : declaredName c.unit e = k.qualifiedName
  generic : k.type.isGeneric
  length : k.type.arguments.length = (c.unit.templateParameters (c.unit.cursor e)).length
  members : Members c q false (c.unit.cursor e).children k

section templates
variable {c : Context} {p q q' : Progress} {e : CursorId} {k : ClassRecord}

theorem Traced.describes (hq : Traced c q) (hu : NamesDistinct c.unit)
    (hk : k ∈ q.registry.classes.items) (hkind : k.type.isGeneric) : ∃ e, Describes c q e k := by
  obtain ⟨e, he, hname, hlength, -⟩ := hq.generic k.type (hq.types k hk) hkind
  obtain ⟨d, hd, hmembers⟩ := hq.templates k hk hkind
  obtain rfl : d = e := hu _ d e hd.declares (hname ▸ he.declares)
  exact ⟨d, hk, he, hname.symm, hkind, hlength, hmembers⟩

theorem Describes.declares (h : Describes c q e k) : Declares c.unit k.type.qualifiedName e := by
  have hdeclares := h.template.declares
  rw [h.name] at hdeclares
  exact hdeclares

theorem Describes.reported (h : Describes c q e k) (hq : Reported q q') : Describes c q' e k where
  mem := hq.registry_eq ▸ h.mem
  template := h.template
  name := h.name
  generic := h.generic
  length := h.length
  members := h.members.grows (.of_reported hq)

theorem Traced.find?_type (hq : Traced c q) (hg : Grows q p) (hk : k ∈ q.registry.classes.items) :
    p.registry.types.find? k.qualifiedName = some k.type :=
  hg.types _ _ (Catalog.find?_of_mem (hq.types k hk))

theorem Describes.parameters_eq (h : Describes c q e k) (hq : Traced c q) (hg : Grows q p) :
    parametersOf c.unit p.registry e = k.type.arguments := by
  rw [parametersOf, h.name, hq.find?_type hg h.mem, Option.map_some, Option.getD_some]

theorem Describes.fields_eq (h : Describes c q e k) (hg : Grows q p) :
    k.fields = ownFields c p.registry e :=
  (h.members.grows hg).fields_eq

theorem baseTemplate?_eq (hu : NamesDistinct c.unit) {r : Registry} {x : CursorId} {n : String}
    {t : CppType} (hx : baseName? c.unit (c.unit.cursor x) = some n)
    (ht : r.types.find? n = some t) (he : IsTemplate c.unit e)
    (hname : t.templateName? = some (declaredName c.unit e)) :
    baseTemplate? c.unit r x = some (t, e) := by
  simp [baseTemplate?, hx, ht, hname, templateNamed?_of_isTemplate hu he]

/-- The class of a base specifier. -/
structure IsBaseClass (c : Context) (q : Progress) (x : CursorId) (b : ClassRecord) : Prop where
  mem : b ∈ q.registry.classes.items
  name : baseName? c.unit (c.unit.cursor x) = some b.qualifiedName

theorem isBaseClass_of_isBase {xs : List CursorId} {bs : List (Given String)}
    (h : List.Forall₂ (IsBase c q) xs bs) :
    List.Forall₂ (IsBaseClass c q) xs
      ((bs.filterMap Given.proper?).filterMap q.registry.classes.find?) := by
  induction h with
  | nil => exact .nil
  | @cons x b xs bs hb _ ih =>
    obtain ⟨n, hn, hname, rfl⟩ := hb
    obtain ⟨a, ha⟩ := Option.isSome_iff_exists.1 ((Catalog.find?_isSome_iff _ n).2 hn)
    obtain rfl := Catalog.key_of_find? ha
    have hproper : (Given.proper a.qualifiedName).proper? = some a.qualifiedName := rfl
    rw [List.filterMap_cons_some hproper, List.filterMap_cons_some ha]
    exact .cons ⟨Catalog.mem_of_find? ha, hname⟩ ih

theorem Members.directBases {flag : Bool} {d : CursorId}
    (h : Members c q flag (c.unit.cursor d).children k) :
    List.Forall₂ (IsBaseClass c q) (specifiers c d) (q.registry.directBases k) :=
  isBaseClass_of_isBase h.bases

theorem eq_of_mem_flatMap {α β : Type} {f : α → List β} {l : List α} (h : (l.flatMap f).Nodup)
    {x y : α} (hx : x ∈ l) (hy : y ∈ l) {b : β} (hbx : b ∈ f x) (hby : b ∈ f y) : x = y := by
  induction l with
  | nil => cases hx
  | cons a l ih =>
    rw [List.flatMap_cons, List.nodup_append] at h
    obtain ⟨-, hrest, hdisjoint⟩ := h
    rcases List.mem_cons.1 hx with rfl | hx' <;> rcases List.mem_cons.1 hy with rfl | hy'
    · rfl
    · exact absurd rfl (hdisjoint b hbx b (List.mem_flatMap_of_mem hy' hby))
    · exact absurd rfl (hdisjoint b hby b (List.mem_flatMap_of_mem hx' hbx))
    · exact ih hrest hx' hy'

end templates

section bases
variable {c : Context} {p q : Progress} {e : CursorId} {k : ClassRecord}

/-- What is remembered for a base is what a specifier of the template says, though not always that
of the base: the last one wins. -/
theorem given_spec (hs : TemplatesSupplied c p.registry) (hq : Traced c q) (hg : Grows q p)
    (hk : Describes c q e k) {x e' : CursorId}
    (hname : baseName? c.unit (c.unit.cursor x) = some (declaredName c.unit e')) {t : CppType}
    (ht : baseTemplate? c.unit p.registry x = some (t, e')) {as : List CppType}
    (has : q.baseArguments.find? (k.qualifiedName, declaredName c.unit e') = some as) :
    ∃ y ∈ specifiers c e, baseTemplate? c.unit p.registry y = some (t, e') ∧
      as = specifierArguments c.unit p.registry y := by
  obtain ⟨type, htype, flag, d, y, j, f, hsource, hy, hbinds, hf, hargs⟩ := hq.given _ _ _ has
  -- the class it was remembered for is this one, and so is its template
  obtain rfl : type = k.type := Catalog.eq_of_key_eq hsource.type_mem (hq.types k hk.mem) htype
  obtain rfl := hsource.flag_eq_false (not_isSpecialized hk.generic)
  obtain rfl : d = e := hs.distinct _ d e hsource.declares hk.declares
  have hynames : baseName? c.unit (c.unit.cursor y) = some (declaredName c.unit e') := by
    have hdecl : (c.unit.type (c.unit.type j).canonical).declaration = some f := hbinds.declaration
    simp [baseName?, hbinds.type, CompilationUnit.canonical, hdecl, hbinds.template, hf]
  refine ⟨y, by simp [specifiers, isSpecifier, hy, hbinds.kind], ?_, ?_⟩
  · rw [← ht, baseTemplate?, baseTemplate?, hname, hynames]
  · rw [specifierArguments, hbinds.type]
    exact (map_of_forall₂ (hargs.imp fun _ _ h => (h.grows hg).typeOf_eq)).symm

/-- The template of a registered specialisation is a class template. -/
theorem genericClass_describes (hs : TemplatesSupplied c p.registry) (hq : Traced c q)
    (hg : Grows q p) {t : CppType} (hkey : t.qualifiedName ∈ p.registry.classes.keys)
    (ht : p.registry.types.find? t.qualifiedName = some t) (hspecial : t.isSpecialized) :
    Yields (genericClass t) q fun k q' => q' = q ∧ ∃ e, Describes c q e k ∧
      t.templateName? = some (declaredName c.unit e) := by
  obtain ⟨g, hg', hgeneric⟩ := hs.specializations _ hkey _ ht hspecial
  refine (genericClass_spec t).mono ?_
  rintro k q' ⟨rfl, hk⟩
  have hmem := Catalog.mem_of_find? hk
  have hname := Catalog.key_of_find? hk
  rw [← hname, hq.find?_type hg hmem] at hg'
  obtain rfl := Option.some.inj hg'
  obtain ⟨e, he⟩ := hq.describes hs.distinct hmem hgeneric
  refine ⟨rfl, e, he, ?_⟩
  rw [templateName_of_specialized hspecial] at hname ⊢
  rw [he.name, hname, Option.getD_some]

/-- The template behind the base and the arguments for it are those of the declarations, of this
base or of another one of the same type. -/
theorem baseInstance?_supplied (hs : TemplatesSupplied c p.registry) (hq : Traced c q)
    (hg : Grows q p) (hk : Describes c q e k) (as : List CppType) {x : CursorId} {b : ClassRecord}
    (hx : x ∈ specifiers c e) (hb : IsBaseClass c q x b) :
    Yields (baseInstance? k as b) q fun o q' => Reported q q' ∧
      (o = none ∧ baseTemplate? c.unit p.registry x = none ∨ ∃ k' e', Describes c q e' k' ∧
        baseTemplate? c.unit p.registry x = some (b.type, e') ∧
        ∃ y ∈ specifiers c e, baseTemplate? c.unit p.registry y = some (b.type, e') ∧
          o = some (k', givenArguments c.unit p.registry e as y b.type)) := by
  have htype := hq.find?_type hg hb.mem
  unfold baseInstance?
  split
  · next hplain =>
    refine yields_pure ⟨.refl q, .inl ⟨rfl, ?_⟩⟩
    simp [baseTemplate?, hb.name, htype, CppType.templateName?, hplain]
  · next hkind =>
    have hspecial : b.type.isSpecialized := by simp [CppType.isSpecialized, hkind]
    have hkey := hg.class_mem (Catalog.key_mem_keys hb.mem)
    refine yields_bind (genericClass_describes hs hq hg hkey htype hspecial) ?_
    rintro k' q' ⟨rfl, e', he', htemplate⟩
    have hbase := baseTemplate?_eq hs.distinct hb.name htype he'.template htemplate
    refine yields_pure ⟨.refl q', .inr ⟨k', e', he', hbase, x, hx, hbase, ?_⟩⟩
    simp [givenArguments, CppType.isGeneric, hkind]
  · next hkind =>
    have hgeneric : b.type.isGeneric := by simp [CppType.isGeneric, hkind]
    obtain ⟨e', he'⟩ := hq.describes hs.distinct hb.mem hgeneric
    have hname := hb.name
    rw [← he'.name] at hname
    have hbase : baseTemplate? c.unit p.registry x = some (b.type, e') := by
      refine baseTemplate?_eq hs.distinct hb.name htype he'.template ?_
      rw [templateName?_of_generic hgeneric, he'.name]
      rfl
    -- the specifier says something, as the template has parameters
    obtain ⟨i, hi, hdecl⟩ := declaration_of_baseName? hs.distinct he'.template hname
    have hchild : x ∈ (c.unit.cursor e).children ∧ (c.unit.cursor x).kind = .baseSpecifier := by
      simpa [specifiers, isSpecifier] using hx
    have hparameters : c.unit.templateParameters (c.unit.cursor e') ≠ [] := by
      rw [← List.length_pos_iff, ← he'.length, List.length_pos_iff]
      exact arguments_ne_nil hgeneric
    have hbinds : Binds c x i e' :=
      ⟨hchild.2, hi, hdecl, he'.template.2,
        hs.specifiers x i e' hchild.2 hi hdecl he'.template hparameters⟩
    obtain ⟨given, hgiven⟩ := Option.isSome_iff_exists.1 (hk.members.bound x hchild.1 i e' hbinds)
    obtain ⟨y, hy, hsame, rfl⟩ := given_spec hs hq hg hk hname hbase hgiven
    rw [he'.name] at hgiven
    refine yields_bind (R := fun r q' => q' = q ∧ r = q) (yields_get ⟨rfl, rfl⟩) ?_
    rintro r q' ⟨rfl, rfl⟩
    rw [hgiven]
    refine yields_bind (mapM_reported fun t _ q => substitute_spec k.type.arguments as t) ?_
    rintro ts q ⟨hq', rfl⟩
    refine yields_pure ⟨hq', .inr ⟨b, e', he', hbase, y, hy, hsame, ?_⟩⟩
    rw [givenArguments, if_pos hgeneric, hk.parameters_eq hq hg, ← substituted_eq_bound]

/-- Where no template occurs twice, they are those of this base. -/
theorem baseInstance?_spec (hr : TemplatesRegular c p.registry) (hq : Traced c q) (hg : Grows q p)
    (hk : Describes c q e k) (as : List CppType) {x : CursorId} {b : ClassRecord}
    (hx : x ∈ specifiers c e) (hb : IsBaseClass c q x b) :
    Yields (baseInstance? k as b) q fun o q' => Reported q q' ∧
      (o = none ∧ baseTemplate? c.unit p.registry x = none ∨ ∃ k' e', Describes c q e' k' ∧
        baseTemplate? c.unit p.registry x = some (b.type, e') ∧
        o = some (k', givenArguments c.unit p.registry e as x b.type)) := by
  refine (baseInstance?_supplied hr.supplied hq hg hk as hx hb).mono ?_
  rintro o q' ⟨hq', hnone | ⟨k', e', he', hbase, y, hy, hsame, ho⟩⟩
  · exact ⟨hq', .inl hnone⟩
  · have hnodup : ((specifiers c e).flatMap (baseLineage c p.registry 1)).Nodup :=
      (List.nodup_cons.1 (hr.lineage e hk.template 2)).2
    obtain rfl : x = y := eq_of_mem_flatMap hnodup hx hy (b := declaredName c.unit e')
      (by simp [baseLineage, hbase, lineage]) (by simp [baseLineage, hsame, lineage])
    exact ⟨hq', .inr ⟨k', e', he', hbase, ho⟩⟩

end bases

section harvest
variable {c : Context} {p q : Progress}

theorem not_mem_of_nodup {α β : Type} {f : α → List β} {b s : β} {done rest : List α} {x : α}
    (h : (b :: (done ++ x :: rest).flatMap f).Nodup) (hs : s ∈ f x) :
    s ∉ b :: done.flatMap f := by
  simp only [List.flatMap_append, List.flatMap_cons, List.nodup_cons, List.nodup_append,
    List.mem_append] at h
  obtain ⟨hb, -, -, hdisjoint⟩ := h
  rw [List.mem_cons]
  rintro (rfl | hmem)
  · exact hb (.inr (.inl hs))
  · exact hdisjoint s hmem s (.inl hs) rfl

/-- What the bases of a template that are done have added to the harvest. -/
structure Collected (c : Context) (r : Registry) (m : Nat) (start : Harvest) (e : CursorId)
    (as : List CppType) (done : List CursorId) (h : Harvest) : Prop where
  fields : ∀ n, m ≤ n → h.fields = start.fields ++ done.flatMap (baseFields c r n e as)
  seen : ∀ n, m ≤ n → ∀ s ∈ h.seen, s ∈ start.seen ∨ s ∈ done.flatMap (baseLineage c r n)

namespace Collected
variable {r : Registry} {m : Nat} {start h h' : Harvest} {e x : CursorId} {as : List CppType}
  {done : List CursorId}

theorem nil : Collected c r m start e as [] start := by
  constructor <;> simp

theorem skip (hh : Collected c r m start e as done h) (hx : baseTemplate? c.unit r x = none) :
    Collected c r m start e as (done ++ [x]) h where
  fields n hn := by simp [hh.fields n hn, baseFields, hx]
  seen n hn s hs := by simpa [baseLineage, hx] using hh.seen n hn s hs

theorem append (hh : Collected c r m start e as done h) {t : CppType} {e' : CursorId}
    (hx : baseTemplate? c.unit r x = some (t, e'))
    (hadded : ∀ n, m ≤ n →
      h'.fields = h.fields ++ instanceFields c r n e' (givenArguments c.unit r e as x t) ∧
        ∀ s ∈ h'.seen, s ∈ h.seen ∨ s ∈ lineage c r n e') :
    Collected c r m start e as (done ++ [x]) h' where
  fields n hn := by simp [(hadded n hn).1, hh.fields n hn, baseFields, hx]
  seen n hn s hs := by
    rw [List.flatMap_append, List.mem_append]
    rcases (hadded n hn).2 s hs with hs | hs
    · exact (hh.seen n hn s hs).imp_right .inl
    · exact .inr (.inr (by simpa [baseLineage, hx] using hs))

/-- The templates behind a base that is still to come were not seen before. -/
theorem fresh (hr : TemplatesRegular c r) (he : IsTemplate c.unit e) {fields : List Field}
    {seen : List String} (hh : Collected c r m ⟨fields, declaredName c.unit e :: seen⟩ e as done h)
    (hfresh : ∀ n, ∀ s ∈ lineage c r n e, s ∉ seen) {rest : List CursorId}
    (hsplit : specifiers c e = done ++ x :: rest) {t : CppType} {e' : CursorId}
    (hx : baseTemplate? c.unit r x = some (t, e')) : ∀ n, ∀ s ∈ lineage c r n e', s ∉ h.seen := by
  intro n s hs hmem
  -- at a level that is enough for both this base and those before it
  have hsx : s ∈ baseLineage c r (max n m) x := by
    simpa [baseLineage, hx] using lineage_subset (Nat.le_max_left n m) e' hs
  have hnodup := hr.lineage e he (max n m + 1)
  rw [lineage_succ, hsplit] at hnodup
  have hnot := not_mem_of_nodup hnodup hsx
  rw [List.mem_cons, not_or] at hnot
  rcases hh.seen _ (Nat.le_max_right n m) s hmem with hmem | hmem
  · rcases List.mem_cons.1 hmem with rfl | hmem
    · exact hnot.1 rfl
    · refine hfresh (max n m + 1) s ?_ hmem
      rw [lineage_succ, hsplit]
      exact List.mem_cons_of_mem _ (List.mem_flatMap_of_mem (by simp) hsx)
  · exact hnot.2 hmem

/-- With all bases done, the harvest is that of the template. -/
theorem all (hh : Collected c r m ⟨start.fields ++ (ownFields c r e).map
      (boundField (parametersOf c.unit r e) as), declaredName c.unit e :: start.seen⟩ e as
      (specifiers c e) h) :
    ∀ n, m + 1 ≤ n → h.fields = start.fields ++ instanceFields c r n e as ∧
      ∀ s ∈ h.seen, s ∈ start.seen ∨ s ∈ lineage c r n e := by
  intro n hn
  obtain ⟨n, rfl⟩ : ∃ j, n = j + 1 := ⟨n - 1, by omega⟩
  have hm : m ≤ n := by omega
  constructor
  · rw [hh.fields n hm, instanceFields_succ, List.append_assoc]
  · intro s hs
    rw [lineage_succ, List.mem_cons]
    rcases hh.seen n hm s hs with hs | hs
    · rcases List.mem_cons.1 hs with rfl | hs
      · exact .inr (.inl rfl)
      · exact .inl hs
    · exact .inr (.inr hs)

end Collected

theorem IsBaseClass.reported {q' : Progress} {x : CursorId} {b : ClassRecord}
    (h : IsBaseClass c q x b) (hq : Reported q q') : IsBaseClass c q' x b :=
  ⟨hq.registry_eq ▸ h.mem, h.name⟩

/-- The fields of a template and its bases, none of which was seen before, are collected in the
order of the declarations. -/
theorem harvest_spec (hr : TemplatesRegular c p.registry) (m : Nat) {q : Progress}
    (hq : Traced c q) (hg : Grows q p) {e : CursorId} {k : ClassRecord} (hk : Describes c q e k)
    (as : List CppType) {h : Harvest} (hfresh : ∀ n, ∀ s ∈ lineage c p.registry n e, s ∉ h.seen) :
    Yields (harvest m k as h) q fun h' q' => Reported q q' ∧ ∀ n, m ≤ n →
      h'.fields = h.fields ++ instanceFields c p.registry n e as ∧
        ∀ s ∈ h'.seen, s ∈ h.seen ∨ s ∈ lineage c p.registry n e := by
  -- on the levels that are left
  induction m generalizing q e k as h with
  | zero => exact yields_throw
  | succ m ih =>
    unfold harvest
    split
    · next hseen => exact absurd hseen (hfresh 1 _ (by simp [lineage_succ, hk.name]))
    · refine yields_bind (mapM_reported fun f _ q =>
        substituteField_spec k.type.arguments as f) ?_
      rintro own q' ⟨hq', rfl⟩
      refine yields_bind (R := fun r q'' => q'' = q' ∧ r = q.registry)
        (yields_registry ⟨rfl, hq'.registry_eq⟩) ?_
      rintro r q'' ⟨rfl, rfl⟩
      rw [substitutedField_eq_bound, hk.fields_eq hg, ← hk.parameters_eq hq hg, ← hk.name]
      refine (yields_foldlM_along (I := fun done h' q' => Reported q q' ∧
        Collected c p.registry m _ e as done h') hk.members.directBases ?_ ⟨hq', .nil⟩).mono ?_
      · rintro done x rest hsplit b hb h' q₁ ⟨hq₁, hcollected⟩
        have hx : x ∈ specifiers c e := by simp [hsplit]
        have hg₁ := hg.after_reported hq₁
        refine yields_bind (baseInstance?_spec hr (hq.reported hq₁) hg₁ (hk.reported hq₁) as hx
          (hb.reported hq₁)) ?_
        rintro o q₂ ⟨hq₂, ⟨rfl, hnone⟩ | ⟨k', e', hk', hbase, rfl⟩⟩
        · exact yields_pure ⟨hq₁.trans hq₂, hcollected.skip hnone⟩
        · have hbefore := hcollected.fresh hr hk.template hfresh hsplit hbase
          refine (ih ((hq.reported hq₁).reported hq₂) (hg₁.after_reported hq₂)
            (hk'.reported hq₂) _ hbefore).mono ?_
          rintro h'' q₃ ⟨hq₃, hadded⟩
          exact ⟨(hq₁.trans hq₂).trans hq₃, hcollected.append hbase hadded⟩
      · rintro h' q₁ ⟨hq₁, hcollected⟩
        exact ⟨hq₁, hcollected.all⟩

theorem templateFields_spec (hr : TemplatesRegular c p.registry) (hq : Traced c q)
    (hg : Grows q p) {e : CursorId} {k : ClassRecord} (hk : Describes c q e k)
    (as : List CppType) :
    Yields (templateFields k as) q fun fs q' => Reported q q' ∧
      ∀ n, p.registry.classes.size + 2 ≤ n → fs = instanceFields c p.registry n e as := by
  refine yields_bind (R := fun r q' => q' = q ∧ r = q.registry) (yields_registry ⟨rfl, rfl⟩) ?_
  rintro r q' ⟨rfl, rfl⟩
  have hsize : q'.registry.classes.size ≤ p.registry.classes.size := by
    simpa [Catalog.keys, Catalog.size] using hg.classes.length_le
  refine yields_bind (harvest_spec hr _ hq hg hk as (by simp)) ?_
  rintro h q'' ⟨hq'', hall⟩
  refine yields_pure ⟨hq'', ?_⟩
  intro n hn
  simpa using (hall n (by omega)).1

end harvest
end Introspect.Reflection
