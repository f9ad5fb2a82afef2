import Introspect.Proofs.Catalog
import Introspect.Proofs.Reflection.Walk
import Introspect.Reflection.Promotion

/-! Putting arguments in place of parameters changes nothing but the reports, and the fields that a
class has from templates are of no other types than the templates and their arguments have. -/
namespace Introspect.Reflection

/-- Nothing but reports came in. -/
def Reported (p q : Progress) : Prop := ∃ es, q = { p with events := p.events ++ es }

namespace Reported
variable {p q r : Progress}

theorem refl (p : Progress) : Reported p p := ⟨[], by simp⟩

theorem trans (hpq : Reported p q) (hqr : Reported q r) : Reported p r := by
  obtain ⟨es, rfl⟩ := hpq
  obtain ⟨fs, rfl⟩ := hqr
  exact ⟨es ++ fs, by simp⟩

theorem registry_eq (h : Reported p q) : q.registry = p.registry := by
  obtain ⟨es, rfl⟩ := h
  rfl

theorem baseArguments_eq (h : Reported p q) : q.baseArguments = p.baseArguments := by
  obtain ⟨es, rfl⟩ := h
  rfl

end Reported

/-- The argument for a parameter, or the type itself where there is none. -/
def substituted (parameters arguments : List CppType) (t : CppType) : CppType :=
  (substitute? parameters arguments t).getD t

def substitutedUse (parameters arguments : List CppType) (u : TypeUse) : TypeUse :=
  { u with type := substituted parameters arguments u.type }

def substitutedField (parameters arguments : List CppType) (f : Field) : Field :=
  { f with use := substitutedUse parameters arguments f.use }

def substitutedMethod (parameters arguments : List CppType) (m : Method) : Method :=
  { m with
    result := substitutedUse parameters arguments m.result
    arguments := m.arguments.map (substitutedUse parameters arguments) }

section pure
variable {ps as : List CppType}

theorem substituted_of_kind {t : CppType} (h : t.kind ≠ .template) : substituted ps as t = t := by
  simp [substituted, substitute?, h]

theorem substituted_mem (ps as : List CppType) (t : CppType) :
    substituted ps as t ∈ as ∨ substituted ps as t = t := by
  unfold substituted substitute?
  split
  · exact .inr rfl
  · split
    · exact .inr rfl
    · next i hi =>
      cases ha : as[i]? with
      | none => exact .inr rfl
      | some a => exact .inl (List.mem_of_getElem? ha)

end pure

section walks
variable {p : Progress} (ps as : List CppType)

theorem substitute_spec (t : CppType) :
    Yields (substitute ps as t) p fun a q => Reported p q ∧ a = substituted ps as t := by
  unfold substitute
  split
  · next a ha => exact yields_pure ⟨.refl p, by simp [substituted, ha]⟩
  · next ha =>
    refine yields_bind (R := fun _ q => Reported p q) (yields_report ⟨_, rfl⟩) ?_
    intro _ q hq
    exact yields_pure ⟨hq, by simp [substituted, ha]⟩

theorem substituteUse_spec (u : TypeUse) :
    Yields (substituteUse ps as u) p fun v q => Reported p q ∧ v = substitutedUse ps as u := by
  refine yields_bind (substitute_spec ps as u.type) ?_
  rintro t q ⟨hq, rfl⟩
  exact yields_pure ⟨hq, rfl⟩

theorem substituteField_spec (f : Field) :
    Yields (substituteField ps as f) p fun g q => Reported p q ∧ g = substitutedField ps as f := by
  unfold substituteField
  split
  · next h =>
    have hkind : f.use.type.kind ≠ .template := by simpa using h
    have hsame : substitutedField ps as f = f := by
      simp only [substitutedField, substitutedUse, substituted_of_kind hkind]
    exact yields_pure ⟨.refl p, hsame.symm⟩
  · refine yields_bind (substituteUse_spec ps as f.use) ?_
    rintro u q ⟨hq, rfl⟩
    exact yields_pure ⟨hq, rfl⟩

/-- Steps that only report and give each item what a function gives it. -/
theorem mapM_reported {α β : Type} {f : α → Walk β} {g : α → β} {l : List α}
    (hf : ∀ a ∈ l, ∀ q, Yields (f a) q fun b q' => Reported q q' ∧ b = g a) :
    Yields (l.mapM f) p fun bs q => Reported p q ∧ bs = l.map g := by
  refine (yields_mapM (R := fun _ a b => b = g a) Reported.refl Reported.trans (fun _ h => h)
    fun a ha q _ => hf a ha q).mono ?_
  rintro bs q ⟨hq, hbs⟩
  refine ⟨hq, ?_⟩
  clear hf
  induction hbs with
  | nil => rfl
  | cons hb _ ih => rw [List.map_cons, hb, ih]

theorem specializeMethod_spec {type generic : CppType} {m : Method}
    (hg : p.registry.types.find? (type.templateName?.getD "") = some generic)
    (htype : type.templateName?.isSome) :
    Yields (specializeMethod type m) p fun m' q =>
      Reported p q ∧ m' = substitutedMethod generic.arguments type.arguments m := by
  obtain ⟨name, hname⟩ := Option.isSome_iff_exists.1 htype
  rw [hname, Option.getD_some] at hg
  refine yields_bind (R := fun r q => Reported p q ∧ r = p.registry)
    (yields_registry ⟨.refl p, rfl⟩) ?_
  rintro r q ⟨hq, rfl⟩
  simp only [hname, Option.bind_some, hg, Option.map_some, Option.getD_some]
  refine yields_bind (substituteUse_spec generic.arguments type.arguments m.result) ?_
  rintro result q' ⟨hq', rfl⟩
  refine yields_bind (mapM_reported fun u _ q =>
    substituteUse_spec generic.arguments type.arguments u) ?_
  rintro arguments q'' ⟨hq'', rfl⟩
  exact yields_pure ⟨(hq.trans hq').trans hq'', rfl⟩

theorem genericClass_spec (type : CppType) :
    Yields (genericClass type) p fun c q =>
      q = p ∧ p.registry.classes.find? (type.templateName?.getD "") = some c := by
  refine yields_bind (R := fun r q => q = p ∧ r = p.registry) (yields_registry ⟨rfl, rfl⟩) ?_
  rintro r q ⟨rfl, rfl⟩
  split
  · next c hc => exact yields_pure ⟨rfl, hc⟩
  · exact yields_throw

end walks

/-- The types that a class template, its arguments and its base specifiers give to promoted fields
are all of one sort. -/
structure Supplies (P : CppType → Prop) (p : Progress) : Prop where
  fields : ∀ c ∈ p.registry.classes.items, ∀ f ∈ c.fields, P f.use.type
  arguments : ∀ c ∈ p.registry.classes.items, ∀ a ∈ c.type.arguments, P a
  given : ∀ k as, p.baseArguments.find? k = some as → ∀ a ∈ as, P a

section supplies
variable {P : CppType → Prop} {p q : Progress}

theorem Supplies.reported (hp : Supplies P p) (hq : Reported p q) : Supplies P q := by
  obtain ⟨es, rfl⟩ := hq
  exact ⟨hp.fields, hp.arguments, hp.given⟩

theorem substituted_holds {ps as : List CppType} {t : CppType} (has : ∀ a ∈ as, P a) (ht : P t) :
    P (substituted ps as t) := by
  rcases substituted_mem ps as t with h | h
  · exact has _ h
  · rw [h]
    exact ht

theorem directBases_mem {r : Registry} {c b : ClassRecord} (hb : b ∈ r.directBases c) :
    b ∈ r.classes.items := by
  obtain ⟨n, -, hn⟩ := List.mem_filterMap.1 hb
  exact Catalog.mem_of_find? hn

theorem baseInstance?_supplies (hp : Supplies P p) {generic base : ClassRecord}
    {as : List CppType} (has : ∀ a ∈ as, P a) (hbase : base ∈ p.registry.classes.items) :
    Yields (baseInstance? generic as base) p fun o q =>
      Reported p q ∧ ∀ c ∈ o, c.1 ∈ p.registry.classes.items ∧ ∀ a ∈ c.2, P a := by
  unfold baseInstance?
  split
  · exact yields_pure ⟨.refl p, by simp⟩
  · refine yields_bind (genericClass_spec base.type) ?_
    rintro c q ⟨rfl, hc⟩
    refine yields_pure ⟨.refl q, ?_⟩
    simp only [Option.mem_some_iff, forall_eq']
    exact ⟨Catalog.mem_of_find? hc, hp.arguments base hbase⟩
  · refine yields_bind (R := fun r q => q = p ∧ r = p) (yields_get ⟨rfl, rfl⟩) ?_
    rintro r q ⟨rfl, rfl⟩
    split
    · refine yields_pure ⟨.refl r, ?_⟩
      simp only [Option.mem_some_iff, forall_eq']
      exact ⟨hbase, has⟩
    · next given hgiven =>
      refine yields_bind (mapM_reported fun t _ q => substitute_spec generic.type.arguments as t) ?_
      rintro ts q ⟨hq, rfl⟩
      refine yields_pure ⟨hq, ?_⟩
      simp only [Option.mem_some_iff, forall_eq']
      refine ⟨hbase, ?_⟩
      intro a ha
      obtain ⟨t, ht, rfl⟩ := List.mem_map.1 ha
      exact substituted_holds has (hp.given _ _ hgiven t ht)

theorem harvest_supplies (n : Nat) (hp : Supplies P p) {generic : ClassRecord} {as : List CppType}
    {h : Harvest} (hgeneric : generic ∈ p.registry.classes.items) (has : ∀ a ∈ as, P a)
    (hh : ∀ f ∈ h.fields, P f.use.type) :
    Yields (harvest n generic as h) p fun h' q =>
      Reported p q ∧ ∀ f ∈ h'.fields, P f.use.type := by
  induction n generalizing p generic as h with
  | zero => exact yields_throw
  | succ n ih =>
    unfold harvest
    split
    · exact yields_pure ⟨.refl p, hh⟩
    · refine yields_bind (mapM_reported fun f _ q =>
        substituteField_spec generic.type.arguments as f) ?_
      rintro own q ⟨hq, rfl⟩
      refine yields_bind (R := fun r q' => q' = q ∧ r = p.registry)
        (yields_registry ⟨rfl, hq.registry_eq⟩) ?_
      rintro r q' ⟨rfl, rfl⟩
      refine (yields_foldlM (I := fun _ (h : Harvest) q =>
        Reported p q ∧ ∀ f ∈ h.fields, P f.use.type) ?_ ⟨hq, ?_⟩)
      · rintro - base hbase h q ⟨hq, hh⟩
        have hbase' : base ∈ q.registry.classes.items := hq.registry_eq ▸ directBases_mem hbase
        refine yields_bind (baseInstance?_supplies (hp.reported hq) has hbase') ?_
        rintro (_ | ⟨template, bound⟩) q' ⟨hq', hinst⟩
        · exact yields_pure ⟨hq.trans hq', hh⟩
        · obtain ⟨htemplate, hbound⟩ := hinst _ rfl
          refine (ih ((hp.reported hq).reported hq') (hq'.registry_eq ▸ htemplate) hbound hh).mono ?_
          rintro h' q'' ⟨hq'', hh'⟩
          exact ⟨(hq.trans hq').trans hq'', hh'⟩
      · intro f hf
        rcases List.mem_append.1 hf with hf | hf
        · exact hh f hf
        · obtain ⟨g, hg, rfl⟩ := List.mem_map.1 hf
          exact substituted_holds has (hp.fields _ hgeneric g hg)

theorem templateFields_supplies (hp : Supplies P p) {generic : ClassRecord} {as : List CppType}
    (hgeneric : generic ∈ p.registry.classes.items) (has : ∀ a ∈ as, P a) :
    Yields (templateFields generic as) p fun fs q =>
      Reported p q ∧ ∀ f ∈ fs, P f.use.type := by
  refine yields_bind (R := fun r q => q = p) (yields_registry rfl) ?_
  rintro r q rfl
  refine yields_bind (harvest_supplies _ hp hgeneric has (by simp)) ?_
  rintro h q' ⟨hq', hh⟩
  exact yields_pure ⟨hq', hh⟩

/-- A specialisation has the fields of its template. -/
theorem promotedFields_of_specialized {c : ClassRecord} (h : c.type.isSpecialized) :
    promotedFields c =
      (do templateFields (← genericClass c.type) c.type.arguments : Walk (List Field)) := by
  have hkind : c.type.template? = some .specialized := by simpa [CppType.isSpecialized] using h
  simp only [promotedFields, hkind]

theorem promotedFields_supplies (hp : Supplies P p) {c : ClassRecord}
    (hc : ∀ a ∈ c.type.arguments, P a) :
    Yields (promotedFields c) p fun fs q => Reported p q ∧ ∀ f ∈ fs, P f.use.type := by
  unfold promotedFields
  split
  · exact yields_pure ⟨.refl p, by simp⟩
  · refine yields_bind (genericClass_spec c.type) ?_
    rintro generic q ⟨rfl, hgeneric⟩
    exact templateFields_supplies hp (Catalog.mem_of_find? hgeneric) hc
  · refine yields_bind (R := fun r q => q = p ∧ r = p.registry) (yields_registry ⟨rfl, rfl⟩) ?_
    rintro r q ⟨rfl, rfl⟩
    refine yields_foldlM (I := fun _ (fs : List Field) q' =>
      Reported q q' ∧ ∀ f ∈ fs, P f.use.type) ?_ ⟨.refl q, by simp⟩
    rintro - base hbase fs q' ⟨hq', hfs⟩
    split
    · exact yields_pure ⟨hq', hfs⟩
    · refine yields_bind (genericClass_spec base.type) ?_
      rintro generic q'' ⟨rfl, hgeneric⟩
      have hbound := (hp.reported hq').arguments base (hq'.registry_eq ▸ directBases_mem hbase)
      refine yields_bind (templateFields_supplies (hp.reported hq')
        (Catalog.mem_of_find? hgeneric) hbound) ?_
      rintro more s ⟨hs, hmore⟩
      refine yields_pure ⟨hq'.trans hs, ?_⟩
      intro f hf
      rcases List.mem_append.1 hf with hf | hf
      · exact hfs f hf
      · exact hmore f hf

end supplies
end Introspect.Reflection
