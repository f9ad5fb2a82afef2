import Mathlib.Data.List.Flatten
import Mathlib.Data.List.Nodup
import Mathlib.Data.List.Perm.Subperm
import Introspect.Proofs.Reflection.Promotion

/-! Templates that are behind a class more than once: each gives its fields to the class one time
only, so the class has the fields of all of them just where none comes with different arguments. -/
namespace Introspect.Reflection
open Relation

/-- A class template and arguments for it. -/
abbrev TemplateInstance := CursorId × List CppType

section expansion
variable (c : Context) (r : Registry)

/-- The fields in the body of a template, for its arguments. -/
def fieldsFor (a : TemplateInstance) : List Field :=
  (ownFields c r a.1).map (boundField (parametersOf c.unit r a.1) a.2)

/-- The second template is behind a base specifier of the first, with the arguments that it gets
there. -/
def Needs (a b : TemplateInstance) : Prop :=
  ∃ x ∈ specifiers c a.1, ∃ t, baseTemplate? c.unit r x = some (t, b.1) ∧
    b.2 = givenArguments c.unit r a.1 a.2 x t

/-- What a template with arguments is expanded to, itself first. -/
abbrev Expands : TemplateInstance → TemplateInstance → Prop := ReflTransGen (Needs c r)

/-- Among the fields are those of every template in the expansion, once for each of the different
lists of arguments that it gets there. -/
def HoldsEach (a : TemplateInstance) (fs : List Field) : Prop :=
  ∃ l : List TemplateInstance, l.Nodup ∧
    (∀ b, b ∈ l ↔ Expands c r a b ∧ ownFields c r b.1 ≠ []) ∧
    (l.flatMap (fieldsFor c r)).Subperm fs

/-- No template that has fields is in the expansion with different arguments. -/
def UsesEachOnce (a : TemplateInstance) : Prop :=
  ∀ b b', Expands c r a b → Expands c r a b' → b.1 = b'.1 → ownFields c r b.1 ≠ [] → b = b'

/-- Every template in the expansion has its place in the list, with some arguments of those that it
gets. -/
structure VisitsOnce (a : TemplateInstance) (l : List TemplateInstance) : Prop where
  nodup : (l.map Prod.fst).Nodup
  expands : ∀ b ∈ l, Expands c r a b
  all : ∀ b, Expands c r a b → b.1 ∈ l.map Prod.fst

end expansion

section visits
variable {c : Context} {r : Registry} {a : TemplateInstance} {l l' : List TemplateInstance}

/-- Only templates with fields add to the fields. -/
private theorem flatMap_fieldsFor_filter (l : List TemplateInstance) :
    (l.filter fun b => ownFields c r b.1 ≠ []).flatMap (fieldsFor c r) =
      l.flatMap (fieldsFor c r) := by
  induction l with
  | nil => rfl
  | cons b l ih =>
    by_cases hb : ownFields c r b.1 = []
    · simp [hb, fieldsFor, ← ih]
    · simp [hb, ← ih]

/-- A list of different items with as many fields as a longer one leaves out only items without
any. -/
private theorem mem_of_length_le (hl : l.Nodup) (hsubset : l ⊆ l')
    (hlength : (l'.flatMap (fieldsFor c r)).length ≤ (l.flatMap (fieldsFor c r)).length)
    {b : TemplateInstance} (hb : b ∈ l') (hfields : ownFields c r b.1 ≠ []) : b ∈ l := by
  by_contra hnot
  have hsubperm : (b :: l).Subperm l' :=
    List.Nodup.subperm (List.nodup_cons.2 ⟨hnot, hl⟩) (List.cons_subset.2 ⟨hb, hsubset⟩)
  obtain ⟨l'', hperm, hsublist⟩ := hsubperm
  have hless : ((b :: l).flatMap (fieldsFor c r)).length ≤
      (l'.flatMap (fieldsFor c r)).length := by
    rw [← (hperm.flatMap fun _ _ => .refl _).length_eq]
    exact (hsublist.flatMap _).length_le
  have hpos : 0 < (fieldsFor c r b).length := by
    simpa [fieldsFor, List.length_pos_iff] using hfields
  rw [List.flatMap_cons, List.length_append] at hless
  omega

/-- The fields of templates that are visited once each are those of all the templates, with all of
their arguments, just where none has different ones. -/
theorem VisitsOnce.holdsEach_iff (h : VisitsOnce c r a l) :
    HoldsEach c r a (l.flatMap (fieldsFor c r)) ↔ UsesEachOnce c r a := by
  have hnodup : l.Nodup := List.Nodup.of_map Prod.fst h.nodup
  constructor
  · rintro ⟨l', hl', hall, hsubperm⟩ b b' hb hb' hsame hfields
    have hsubset : (l.filter fun b => ownFields c r b.1 ≠ []) ⊆ l' := by
      intro d hd
      simp only [List.mem_filter, decide_eq_true_eq] at hd
      exact (hall d).2 ⟨h.expands d hd.1, hd.2⟩
    -- what has fields is visited, as the list cannot be longer than the visits
    have hvisited : ∀ d, Expands c r a d → ownFields c r d.1 ≠ [] → d ∈ l := by
      intro d hd hfields
      have hlength := hsubperm.length_le
      rw [← flatMap_fieldsFor_filter l] at hlength
      exact (List.mem_filter.1 (mem_of_length_le (hnodup.filter _) hsubset hlength
        ((hall d).2 ⟨hd, hfields⟩) hfields)).1
    exact List.inj_on_of_nodup_map h.nodup (hvisited b hb hfields)
      (hvisited b' hb' (hsame ▸ hfields)) hsame
  · intro honce
    refine ⟨l.filter fun b => ownFields c r b.1 ≠ [], hnodup.filter _, fun b => ?_, ?_⟩
    · simp only [List.mem_filter, decide_eq_true_eq]
      refine ⟨fun hb => ⟨h.expands b hb.1, hb.2⟩, fun hb => ⟨?_, hb.2⟩⟩
      obtain ⟨d, hd, hsame⟩ := List.mem_map.1 (h.all b hb.1)
      rwa [honce b d hb.1 (h.expands d hd) hsame.symm hb.2]
    · rw [flatMap_fieldsFor_filter]

end visits

/-- What a harvest has gathered from the templates of a list, none of which it had seen before: it
has seen their bases as well. -/
structure Gathers (c : Context) (r : Registry) (h h' : Harvest) (l : List TemplateInstance) :
    Prop where
  templates : ∀ a ∈ l, IsTemplate c.unit a.1
  fields : h'.fields = h.fields ++ l.flatMap (fieldsFor c r)
  seen : h'.seen = (l.map fun a => declaredName c.unit a.1).reverse ++ h.seen
  nodup : h.seen.Nodup → h'.seen.Nodup
  bases : ∀ a ∈ l, ∀ b, Needs c r a b → declaredName c.unit b.1 ∈ h'.seen

namespace Gathers
variable {c : Context} {r : Registry} {h h' h'' : Harvest} {l l' : List TemplateInstance}

theorem nil (h : Harvest) : Gathers c r h h [] := by
  constructor <;> simp

theorem mem_seen (hl : Gathers c r h h' l) {s : String} (hs : s ∈ h.seen) : s ∈ h'.seen := by
  rw [hl.seen]
  exact List.mem_append_right _ hs

theorem trans (hl : Gathers c r h h' l) (hl' : Gathers c r h' h'' l') :
    Gathers c r h h'' (l ++ l') where
  templates a ha := (List.mem_append.1 ha).elim (hl.templates a) (hl'.templates a)
  fields := by simp [hl'.fields, hl.fields]
  seen := by simp [hl'.seen, hl.seen]
  nodup hh := hl'.nodup (hl.nodup hh)
  bases a ha b hb := by
    rcases List.mem_append.1 ha with ha | ha
    · exact hl'.mem_seen (hl.bases a ha b hb)
    · exact hl'.bases a ha b hb

/-- A template comes before what was gathered from its bases. -/
theorem cons {a : TemplateInstance} (htemplate : IsTemplate c.unit a.1)
    (hfresh : declaredName c.unit a.1 ∉ h.seen)
    (hl : Gathers c r ⟨h.fields ++ fieldsFor c r a, declaredName c.unit a.1 :: h.seen⟩ h' l)
    (hbases : ∀ b, Needs c r a b → declaredName c.unit b.1 ∈ h'.seen) :
    Gathers c r h h' (a :: l) where
  templates b hb := by
    rcases List.mem_cons.1 hb with rfl | hb
    · exact htemplate
    · exact hl.templates b hb
  fields := by simp [hl.fields]
  seen := by simp [hl.seen]
  nodup hh := hl.nodup (List.nodup_cons.2 ⟨hfresh, hh⟩)
  bases b hb d hd := by
    rcases List.mem_cons.1 hb with rfl | hb
    · exact hbases d hd
    · exact hl.bases b hb d hd

end Gathers

section harvest
variable {c : Context} {p q : Progress}

theorem isTemplate_of_baseTemplate? {u : CompilationUnit} {r : Registry} {x e : CursorId}
    {t : CppType} (h : baseTemplate? u r x = some (t, e)) : IsTemplate u e := by
  simp only [baseTemplate?, Option.bind_eq_bind, Option.bind_eq_some_iff, Option.pure_def,
    Option.some.injEq, Prod.mk.injEq] at h
  obtain ⟨_, _, _, _, _, _, _, hfind, rfl, rfl⟩ := h
  have htest := List.find?_some hfind
  simp only [decide_eq_true_eq] at htest
  exact ⟨htest.1, htest.2.1⟩

/-- From a template not seen before a harvest gathers templates of its expansion, itself first. -/
theorem harvest_gathers (hs : TemplatesSupplied c p.registry) (m : Nat) {q : Progress}
    (hq : Traced c q) (hg : Grows q p) {e : CursorId} {k : ClassRecord} (hk : Describes c q e k)
    (as : List CppType) (h : Harvest) :
    Yields (harvest m k as h) q fun h' q' => Reported q q' ∧
      declaredName c.unit e ∈ h'.seen ∧ ∃ l, Gathers c p.registry h h' l ∧
        ∀ a ∈ l, Expands c p.registry (e, as) a := by
  -- on the levels that are left
  induction m generalizing q e k as h with
  | zero => exact yields_throw
  | succ m ih =>
    unfold harvest
    split
    · next hseen =>
      exact yields_pure ⟨.refl q, hk.name ▸ hseen, [], .nil h, by simp⟩
    · next hfresh =>
      rw [← hk.name] at hfresh
      refine yields_bind (mapM_reported fun f _ q =>
        substituteField_spec k.type.arguments as f) ?_
      rintro own q' ⟨hq', rfl⟩
      refine yields_bind (R := fun r q'' => q'' = q' ∧ r = q.registry)
        (yields_registry ⟨rfl, hq'.registry_eq⟩) ?_
      rintro r q'' ⟨rfl, rfl⟩
      rw [substitutedField_eq_bound, hk.fields_eq hg, ← hk.parameters_eq hq hg, ← hk.name]
      refine (yields_foldlM_along (I := fun done h' q' => Reported q q' ∧ ∃ l,
        Gathers c p.registry _ h' l ∧ (∀ a ∈ l, Expands c p.registry (e, as) a) ∧
          ∀ x ∈ done, ∀ t e', baseTemplate? c.unit p.registry x = some (t, e') →
            declaredName c.unit e' ∈ h'.seen) hk.members.directBases ?_
        ⟨hq', [], .nil _, by simp, by simp⟩).mono ?_
      · rintro done x rest hsplit b hb h' q₁ ⟨hq₁, l, hl, hexpands, hdone⟩
        have hx : x ∈ specifiers c e := by simp [hsplit]
        have hg₁ := hg.after_reported hq₁
        refine yields_bind (baseInstance?_supplied hs (hq.reported hq₁) hg₁ (hk.reported hq₁) as hx
          (hb.reported hq₁)) ?_
        rintro o q₂ ⟨hq₂, ⟨rfl, hnone⟩ | ⟨k', e', hk', hbase, y, hy, hsame, rfl⟩⟩
        · refine yields_pure ⟨hq₁.trans hq₂, l, hl, hexpands, fun z hz t e' ht => ?_⟩
          rcases List.mem_append.1 hz with hz | hz
          · exact hdone z hz t e' ht
          · rw [List.mem_singleton.1 hz, hnone] at ht
            cases ht
        · have hneeds : Needs c p.registry (e, as)
              (e', givenArguments c.unit p.registry e as y b.type) := ⟨y, hy, b.type, hsame, rfl⟩
          refine (ih ((hq.reported hq₁).reported hq₂) (hg₁.after_reported hq₂) (hk'.reported hq₂)
            _ h').mono ?_
          rintro h'' q₃ ⟨hq₃, hseen, l', hl', hexpands'⟩
          refine ⟨(hq₁.trans hq₂).trans hq₃, l ++ l', hl.trans hl', fun a ha => ?_,
            fun z hz t e'' ht => ?_⟩
          · rcases List.mem_append.1 ha with ha | ha
            · exact hexpands a ha
            · exact .head hneeds (hexpands' a ha)
          · rcases List.mem_append.1 hz with hz | hz
            · exact hl'.mem_seen (hdone z hz t e'' ht)
            · rw [List.mem_singleton.1 hz, hbase] at ht
              cases ht
              exact hseen
      · rintro h' q₁ ⟨hq₁, l, hl, hexpands, hdone⟩
        have hcons : Gathers c p.registry h h' ((e, as) :: l) := by
          refine .cons hk.template hfresh hl ?_
          rintro ⟨e', as'⟩ ⟨x, hx, t, ht, -⟩
          exact hdone x hx t e' ht
        refine ⟨hq₁, hl.mem_seen List.mem_cons_self, _, hcons, fun a ha => ?_⟩
        rcases List.mem_cons.1 ha with rfl | ha
        · exact .refl
        · exact hexpands a ha

/-- A harvest that starts with nothing visits every template of the expansion once. -/
theorem Gathers.visitsOnce (hu : NamesDistinct c.unit) {r : Registry} {a : TemplateInstance}
    {h : Harvest} {l : List TemplateInstance} (hl : Gathers c r ⟨[], []⟩ h l)
    (ha : IsTemplate c.unit a.1) (hmem : declaredName c.unit a.1 ∈ h.seen)
    (hexpands : ∀ b ∈ l, Expands c r a b) : VisitsOnce c r a l := by
  have hseen : h.seen = (l.map fun b => declaredName c.unit b.1).reverse := by simp [hl.seen]
  have hplace : ∀ e, IsTemplate c.unit e → declaredName c.unit e ∈ h.seen →
      e ∈ l.map Prod.fst := by
    intro e he hname
    rw [hseen, List.mem_reverse] at hname
    obtain ⟨b, hb, hsame⟩ := List.mem_map.1 hname
    refine List.mem_map.2 ⟨b, hb, ?_⟩
    exact hu _ b.1 e (hsame ▸ (hl.templates b hb).declares) he.declares
  refine ⟨?_, hexpands, fun b hb => ?_⟩
  · have hnodup := hl.nodup List.nodup_nil
    rw [hseen, List.nodup_reverse] at hnodup
    exact List.Nodup.of_map (declaredName c.unit) (by simpa [Function.comp_def] using hnodup)
  · -- what was seen is closed under bases
    induction hb with
    | refl => exact hplace a.1 ha hmem
    | @tail b d _ hneeds ih =>
      obtain ⟨b', hb', hsame⟩ := List.mem_map.1 ih
      obtain ⟨x, hx, t, ht, -⟩ := hneeds
      rw [← hsame] at hx
      exact hplace d.1 (isTemplate_of_baseTemplate? ht)
        (hl.bases b' hb' (d.1, givenArguments c.unit r b'.1 b'.2 x t) ⟨x, hx, t, ht, rfl⟩)

theorem templateFields_visits (hs : TemplatesSupplied c p.registry) (hq : Traced c q)
    (hg : Grows q p) {e : CursorId} {k : ClassRecord} (hk : Describes c q e k)
    (as : List CppType) :
    Yields (templateFields k as) q fun fs _ => ∃ l, VisitsOnce c p.registry (e, as) l ∧
      fs = l.flatMap (fieldsFor c p.registry) := by
  refine yields_bind (R := fun _ q' => q' = q) (yields_registry rfl) ?_
  rintro r q' rfl
  refine yields_bind (harvest_gathers hs _ hq hg hk as ⟨[], []⟩) ?_
  rintro h q'' ⟨-, hmem, l, hl, hexpands⟩
  refine yields_pure ⟨l, hl.visitsOnce hs.distinct hk.template hmem hexpands, ?_⟩
  simp [hl.fields]

theorem promotedFields_visits (hs : TemplatesSupplied c p.registry) (hq : Traced c q)
    (hg : Grows q p) {k : ClassRecord} (hkey : k.qualifiedName ∈ p.registry.classes.keys)
    (htype : p.registry.types.find? k.qualifiedName = some k.type)
    (hspecial : k.type.isSpecialized) :
    Yields (promotedFields k) q fun fs _ => ∃ e, IsTemplate c.unit e ∧
      k.type.templateName? = some (declaredName c.unit e) ∧
      ∃ l, VisitsOnce c p.registry (e, k.type.arguments) l ∧
        fs = l.flatMap (fieldsFor c p.registry) := by
  rw [promotedFields_of_specialized hspecial]
  refine yields_bind (genericClass_describes hs hq hg hkey htype hspecial) ?_
  rintro k' q' ⟨rfl, e, he, hname⟩
  refine (templateFields_visits hs hq hg he k.type.arguments).mono ?_
  exact fun fs q'' hvisits => ⟨e, he.template, hname, hvisits⟩

end harvest

/-- The fields of a specialisation taken apart: those of a declaration of its own, and those that
come from its template. -/
structure Splits (c : Context) (r : Registry) (k : ClassRecord) (e : CursorId)
    (own promoted : List Field) : Prop where
  template : IsTemplate c.unit e
  name : k.type.templateName? = some (declaredName c.unit e)
  fields : k.fields = own ++ promoted
  own : own = [] ∨ ∃ d, Declares c.unit k.qualifiedName d ∧ own = ownFields c r d

theorem splits_of_entered {c : Context} {p : Progress} (hs : TemplatesSupplied c p.registry)
    {k : ClassRecord} (hk : k.qualifiedName ∈ p.registry.classes.keys)
    (hspecial : k.type.isSpecialized) (h : Entered c p k) :
    ∃ e own l, Splits c p.registry k e own (l.flatMap (fieldsFor c p.registry)) ∧
      VisitsOnce c p.registry (e, k.type.arguments) l := by
  obtain ⟨o, q, flag, d, r, promoted, ho, hg, hsource, hmembers, hrun, rfl⟩ := h
  have htype : p.registry.types.find? r.qualifiedName = some r.type :=
    hg.types _ _ (Catalog.find?_of_mem hsource.type_mem)
  obtain ⟨e, he, hname, l, hvisits, rfl⟩ :=
    promotedFields_visits hs ho hg hk htype hspecial _ _ hrun
  refine ⟨e, r.fields, l, ⟨he, hname, rfl, ?_⟩, hvisits⟩
  cases flag with
  | true => exact .inl (List.forall₂_nil_left_iff.1 hmembers.fields)
  | false => exact .inr ⟨d, hsource.declares, (hmembers.grows hg).fields_eq⟩

/-- After a walk, a specialisation has the fields of every template behind it, for the arguments of
one place where the template occurs. So it has the fields for the arguments of every place just
where no template with fields occurs with different ones. -/
theorem reflect_holdsEach_iff (c : Context) (hash : NameHash) (i : CursorId) (p : Progress)
    (hrun : (reflect c i).run (.start (.empty hash)) = .ok () p)
    (hs : TemplatesSupplied c p.registry) :
    ∀ k ∈ p.registry.classes.items, k.type.isSpecialized → ∃ e own promoted,
      Splits c p.registry k e own promoted ∧
      (∃ l, VisitsOnce c p.registry (e, k.type.arguments) l ∧
        promoted = l.flatMap (fieldsFor c p.registry)) ∧
      (HoldsEach c p.registry (e, k.type.arguments) promoted ↔
        UsesEachOnce c p.registry (e, k.type.arguments)) := by
  have hall := entered_of_steps (traced_start c hash) rfl (reflect_steps_start hrun)
  intro k hk hspecial
  obtain ⟨e, own, l, hsplits, hvisits⟩ :=
    splits_of_entered hs (Catalog.key_mem_keys hk) hspecial (hall.2 k hk)
  exact ⟨e, own, _, hsplits, ⟨l, hvisits, rfl⟩, hvisits.holdsEach_iff⟩

/-- A class template `Two` that has two instances of `Box` as its bases, a class `Crate` with two
such bases of its own, and a class `Jar` derived from a specialisation of `Two`. -/
def twins : CompilationUnit where
  root := 0
  cursors := #[
    written .unit "a.h" none [1, 6, 15, 19],
    written .classTemplate "Box" none [2, 3, 4],
    written .annotationNode "mark" none [],
    written .templateTypeParameter "T" (some 0) [],
    written .fieldDecl "value" (some 0) [5],
    written .annotationNode "mark" none [],
    written .classTemplate "Two" none [7, 8, 9, 10, 11],
    written .annotationNode "mark" none [],
    written .templateTypeParameter "A" (some 3) [],
    written .templateTypeParameter "B" (some 4) [],
    written .baseSpecifier "Box<A>" (some 5) [],
    written .baseSpecifier "Box<B>" (some 6) [],
    written .structDecl "Box" (some 7) [],
    written .structDecl "Box" (some 8) [],
    written .structDecl "Two" (some 9) [],
    written .structDecl "Crate" (some 10) [16, 17, 18],
    written .annotationNode "mark" none [],
    written .baseSpecifier "Box<int>" (some 7) [],
    written .baseSpecifier "Box<float>" (some 8) [],
    written .structDecl "Jar" (some 11) [20, 21],
    written .annotationNode "mark" none [],
    written .baseSpecifier "Two<int, float>" (some 9) []]
  types := #[
    ⟨.unexposed, "T", false, true, 0, none, some 3, []⟩,
    ⟨.int, "int", false, false, 1, none, none, []⟩,
    ⟨.float, "float", false, false, 2, none, none, []⟩,
    ⟨.unexposed, "A", false, true, 3, none, some 8, []⟩,
    ⟨.unexposed, "B", false, true, 4, none, some 9, []⟩,
    ⟨.unexposed, "Box<A>", false, false, 5, none, some 1, [3]⟩,
    ⟨.unexposed, "Box<B>", false, false, 6, none, some 1, [4]⟩,
    ⟨.record, "Box<int>", false, false, 7, none, some 12, [1]⟩,
    ⟨.record, "Box<float>", false, false, 8, none, some 13, [2]⟩,
    ⟨.record, "Two<int, float>", false, false, 9, none, some 14, [1, 2]⟩,
    ⟨.record, "Crate", false, false, 10, none, some 15, []⟩,
    ⟨.record, "Jar", false, false, 11, none, some 19, []⟩]

/-- What is left of supplied templates to test in a registry of the unit. -/
def SpecializationsKnown (r : Registry) : Prop :=
  ∀ n ∈ r.classes.keys, ∀ t ∈ r.types.find? n, t.isSpecialized →
    ∃ g ∈ r.types.find? (t.templateName?.getD ""), g.isGeneric

instance (r : Registry) : Decidable (SpecializationsKnown r) :=
  inferInstanceAs (Decidable (∀ n ∈ _, _))

theorem twins_supplied {r : Registry} (h : SpecializationsKnown r) :
    TemplatesSupplied (walkOver twins) r where
  distinct := namesDistinct_of_declarations (by decide +kernel)
  specifiers x t e hkind ht he htemplate hparameters := by
    have hall : ∀ x < twins.cursors.size, (twins.cursor x).kind = .baseSpecifier →
        ∀ t ∈ (twins.cursor x).type, (twins.type t).arguments ≠ [] := by decide +kernel
    exact hall x (lt_size_of_specifier hkind) hkind t ht
  specializations n hn t ht hspecial := h n hn t ht hspecial

/-- The template of a class is the one of that name. -/
theorem Splits.template_eq {c : Context} {r : Registry} {k : ClassRecord} {e e' : CursorId}
    {own promoted : List Field} (h : Splits c r k e own promoted) (hu : NamesDistinct c.unit)
    (he' : IsTemplate c.unit e') (hname : k.type.templateName? = some (declaredName c.unit e')) :
    e = e' :=
  hu _ e e' h.template.declares (Option.some.inj (h.name.symm.trans hname) ▸ he'.declares)

/-- `Box<int>` has the fields of its template. -/
theorem reflect_holdsEach_twins : ∃ p,
    (reflect (walkOver twins) 0).run (.start (.empty NameHash.crc32)) = .ok () p ∧
      TemplatesSupplied (walkOver twins) p.registry ∧ ∃ k ∈ p.registry.classes.items,
        k.qualifiedName = "Box<int>" ∧ k.type.isSpecialized ∧ ∃ e own promoted,
          Splits (walkOver twins) p.registry k e own promoted ∧
          HoldsEach (walkOver twins) p.registry (e, k.type.arguments) promoted := by
  have hleaves : leaves twins fun p => decide (SpecializationsKnown p.registry ∧
      ∃ k ∈ p.registry.classes.items, k.qualifiedName = "Box<int>" ∧ k.type.isSpecialized ∧
        k.type.templateName? = some (declaredName twins 1)) := by decide +kernel
  obtain ⟨p, hrun, htest⟩ := exists_of_leaves hleaves
  obtain ⟨hknown, k, hk, hname, hspecial, htemplate⟩ := of_decide_eq_true htest
  have hs := twins_supplied hknown
  refine ⟨p, hrun, hs, k, hk, hname, hspecial, ?_⟩
  obtain ⟨e, own, promoted, hsplits, -, hiff⟩ :=
    reflect_holdsEach_iff (walkOver twins) _ 0 p hrun hs k hk hspecial
  obtain rfl := hsplits.template_eq hs.distinct ⟨rfl, rfl⟩ htemplate
  refine ⟨1, own, promoted, hsplits, hiff.2 ?_⟩
  -- `Box` has no bases
  have hself : ∀ b, Expands (walkOver twins) p.registry (1, k.type.arguments) b →
      b = (1, k.type.arguments) := by
    intro b hb
    rcases hb.cases_head with rfl | ⟨d, ⟨x, hx, -⟩, -⟩
    · rfl
    · have hnone : specifiers (walkOver twins) 1 = [] := by decide +kernel
      rw [hnone] at hx
      cases hx
  intro b b' hb hb' _ _
  rw [hself b hb, hself b' hb']

/-- `Two<int, float>` does not have the field of `Box<int>`, though `Crate` has both. -/
theorem exists_not_holdsEach_twins : ∃ p,
    (reflect (walkOver twins) 0).run (.start (.empty NameHash.crc32)) = .ok () p ∧
      TemplatesSupplied (walkOver twins) p.registry ∧
      (∃ k ∈ p.registry.classes.items, k.qualifiedName = "Two<int, float>" ∧
        k.type.isSpecialized ∧ ∃ e own promoted,
          Splits (walkOver twins) p.registry k e own promoted ∧
          ¬HoldsEach (walkOver twins) p.registry (e, k.type.arguments) promoted) ∧
      fieldTypes p.registry "Two<int, float>" = [("value", "float")] ∧
      fieldTypes p.registry "Crate" = [("value", "int"), ("value", "float")] := by
  have hleaves : leaves twins fun p => decide (SpecializationsKnown p.registry ∧
      (∃ k ∈ p.registry.classes.items, k.qualifiedName = "Two<int, float>" ∧
        k.type.isSpecialized ∧ k.type.templateName? = some (declaredName twins 6) ∧
        ∃ b ∈ baseTemplate? twins p.registry 10, ∃ b' ∈ baseTemplate? twins p.registry 11,
          b.2 = 1 ∧ b'.2 = 1 ∧
          givenArguments twins p.registry 6 k.type.arguments 10 b.1 ≠
            givenArguments twins p.registry 6 k.type.arguments 11 b'.1 ∧
          ownFields (walkOver twins) p.registry 1 ≠ []) ∧
      fieldTypes p.registry "Two<int, float>" = [("value", "float")] ∧
      fieldTypes p.registry "Crate" = [("value", "int"), ("value", "float")]) := by
    decide +kernel
  obtain ⟨p, hrun, htest⟩ := exists_of_leaves hleaves
  obtain ⟨hknown, ⟨k, hk, hname, hspecial, htemplate, ⟨t, e₁⟩, ht, ⟨t', e₂⟩, ht', rfl, rfl,
    hdiffer, hfields⟩, htypes⟩ := of_decide_eq_true htest
  have hs := twins_supplied hknown
  refine ⟨p, hrun, hs, ⟨k, hk, hname, hspecial, ?_⟩, htypes⟩
  have hall := entered_of_steps (traced_start _ _) rfl (reflect_steps_start hrun)
  obtain ⟨e, own, l, hsplits, hvisits⟩ :=
    splits_of_entered hs (Catalog.key_mem_keys hk) hspecial (hall.2 k hk)
  obtain rfl := hsplits.template_eq hs.distinct ⟨rfl, rfl⟩ htemplate
  refine ⟨6, own, _, hsplits, fun hholds => ?_⟩
  -- both bases of `Two` are `Box`
  have hspecifiers : specifiers (walkOver twins) 6 = [10, 11] := by decide +kernel
  have honce := hvisits.holdsEach_iff.1 hholds
  have hsame := honce (1, _) (1, _) (.single ⟨10, by simp [hspecifiers], t, ht, rfl⟩)
    (.single ⟨11, by simp [hspecifiers], t', ht', rfl⟩) rfl hfields
  exact hdiffer (Prod.mk.inj hsame).2

end Introspect.Reflection
