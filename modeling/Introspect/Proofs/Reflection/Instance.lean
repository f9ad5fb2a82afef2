import Introspect.Proofs.Reflection.Growth

/-! The members that classes have by the declarations of a unit and its registered types alone: of
templates those for given arguments, with everything that they inherit from other templates. -/
namespace Introspect.Reflection

/-- The argument at the place of a parameter; any other type stays. -/
def bound (ps as : List CppType) (t : CppType) : CppType :=
  if t.kind = .template then
    (((ps.zip as).find? fun b => b.1.qualifiedName = t.qualifiedName).map Prod.snd).getD t
  else t

def boundUse (ps as : List CppType) (v : TypeUse) : TypeUse := { v with type := bound ps as v.type }

def boundField (ps as : List CppType) (f : Field) : Field := { f with use := boundUse ps as f.use }

def boundMethod (ps as : List CppType) (m : Method) : Method :=
  { m with result := boundUse ps as m.result, arguments := m.arguments.map (boundUse ps as) }

section types
variable (u : CompilationUnit) (r : Registry)

/-- What a type of the unit is registered as. -/
def typeOf (i : TypeId) : CppType := (r.types.find? (recordedName u i)).getD default

def useOf (i : TypeId) : TypeUse := ⟨typeOf u r i, (u.type i).isConst⟩

/-- The class template of that name. -/
def templateNamed? (n : String) : Option CursorId :=
  (List.range u.cursors.size).find? fun d =>
    (u.cursor d).type = none ∧ (u.cursor d).kind = .classTemplate ∧ declaredName u d = n

/-- The registered parameters of a class template. -/
def parametersOf (e : CursorId) : List CppType :=
  ((r.types.find? (declaredName u e)).map CppType.arguments).getD []

/-- The registered type behind a base specifier and the class template that it belongs to. -/
def baseTemplate? (x : CursorId) : Option (CppType × CursorId) := do
  let t ← r.types.find? (← baseName? u (u.cursor x))
  return (t, ← templateNamed? u (← t.templateName?))

/-- The template arguments of a base specifier. -/
def specifierArguments (x : CursorId) : List CppType :=
  match (u.cursor x).type with
  | some i => (u.type i).arguments.map (typeOf u r)
  | none => []

/-- What a template with the given arguments gives to the template behind one of its bases: a base
that is the template itself takes what the specifier says, a specialisation has its own. -/
def givenArguments (e : CursorId) (as : List CppType) (x : CursorId) (t : CppType) : List CppType :=
  if t.isGeneric then (specifierArguments u r x).map (bound (parametersOf u r e) as)
  else t.arguments

end types

section members
variable (c : Context) (r : Registry)

def fieldAt? (x : CursorId) : Option Field := do
  let i ← (c.unit.cursor x).type
  return ⟨(c.unit.cursor x).spelling, useOf c.unit r i, ← c.reflected? (c.unit.cursor x)⟩

def methodAt? (x : CursorId) : Option Method := do
  let i ← (c.unit.cursor x).resultType
  let arguments := (c.unit.cursor x).arguments.filterMap fun a => (c.unit.cursor a).type
  return ⟨(c.unit.cursor x).spelling, useOf c.unit r i, arguments.map (useOf c.unit r),
    ← c.reflected? (c.unit.cursor x)⟩

/-- The fields in the body of a class that are marked for reflection. -/
def ownFields (d : CursorId) : List Field :=
  ((c.unit.cursor d).children.filter (isField c)).filterMap (fieldAt? c r)

/-- The methods in the body of a class that are marked for reflection. -/
def ownMethods (d : CursorId) : List Method :=
  ((c.unit.cursor d).children.filter (isMethod c)).filterMap (methodAt? c r)

def specifiers (d : CursorId) : List CursorId := (c.unit.cursor d).children.filter (isSpecifier c)

/-- The fields of a class template with the given arguments, and after them those of its bases, to
a depth of so many levels. -/
def instanceFields : Nat → CursorId → List CppType → List Field
  | 0, _, _ => []
  | n + 1, e, as =>
    (ownFields c r e).map (boundField (parametersOf c.unit r e) as) ++
      (specifiers c e).flatMap fun x =>
        match baseTemplate? c.unit r x with
        | none => []
        | some (t, e') => instanceFields n e' (givenArguments c.unit r e as x t)

/-- The class templates in the bases of one, itself first, to a depth of so many levels. -/
def lineage : Nat → CursorId → List String
  | 0, _ => []
  | n + 1, e =>
    declaredName c.unit e :: (specifiers c e).flatMap fun x =>
      match baseTemplate? c.unit r x with
      | none => []
      | some (_, e') => lineage n e'

/-- The fields that a base gives to a class template with the given arguments. -/
def baseFields (n : Nat) (e : CursorId) (as : List CppType) (x : CursorId) : List Field :=
  match baseTemplate? c.unit r x with
  | none => []
  | some (t, e') => instanceFields c r n e' (givenArguments c.unit r e as x t)

def baseLineage (n : Nat) (x : CursorId) : List String :=
  match baseTemplate? c.unit r x with
  | none => []
  | some (_, e') => lineage c r n e'

/-- The fields that a base gives to a plain class: those of a specialisation. -/
def specializedFields (n : Nat) (x : CursorId) : List Field :=
  match baseTemplate? c.unit r x with
  | none => []
  | some (t, e) => if t.isSpecialized then instanceFields c r n e t.arguments else []

/-- How a class comes by its members. A template has those that it declares. A specialisation has
the fields of its template for its arguments, after those of a declaration of its own, and the
methods of that declaration; without one it has the methods of the template. A plain class has its
own members, and then the fields of the specialisations among its bases. -/
inductive Promoted (k : ClassRecord) : Prop
  | template {e} : k.type.isGeneric → IsTemplate c.unit e →
      declaredName c.unit e = k.qualifiedName → k.fields = ownFields c r e →
      k.methods = ownMethods c r e → Promoted k
  | specialization {e} : k.type.isSpecialized → IsTemplate c.unit e →
      k.type.templateName? = some (declaredName c.unit e) →
      k.methods = (ownMethods c r e).map
        (boundMethod (parametersOf c.unit r e) k.type.arguments) →
      (∀ n, r.classes.size + 2 ≤ n → k.fields = instanceFields c r n e k.type.arguments) →
      Promoted k
  | declaredSpecialization {e d} : k.type.isSpecialized → IsTemplate c.unit e →
      k.type.templateName? = some (declaredName c.unit e) → Declares c.unit k.qualifiedName d →
      k.methods = ownMethods c r d →
      (∀ n, r.classes.size + 2 ≤ n →
        k.fields = ownFields c r d ++ instanceFields c r n e k.type.arguments) →
      Promoted k
  | plain {d} : k.type.isTemplated = false → Declares c.unit k.qualifiedName d →
      k.methods = ownMethods c r d →
      (∀ n, r.classes.size + 2 ≤ n →
        k.fields = ownFields c r d ++ (specifiers c d).flatMap (specializedFields c r n)) →
      Promoted k

/-- Names are distinct, templates get an argument for each of their parameters, and no template
occurs twice among the bases of one. -/
structure TemplatesRegular : Prop where
  distinct : NamesDistinct c.unit
  specifiers : ∀ x t e, (c.unit.cursor x).kind = .baseSpecifier →
    (c.unit.cursor x).type = some t → (c.unit.canonical t).declaration = some e →
    IsTemplate c.unit e →
    (c.unit.type t).arguments.length = (c.unit.templateParameters (c.unit.cursor e)).length
  specializations : ∀ n ∈ r.classes.keys, ∀ t, r.types.find? n = some t → t.isSpecialized →
    ∃ g, r.types.find? (t.templateName?.getD "") = some g ∧ g.isGeneric ∧
      t.arguments.length = g.arguments.length
  lineage : ∀ e, IsTemplate c.unit e → ∀ n, (lineage c r n e).Nodup

/-- Names are distinct, templates with parameters get arguments, and registered specialisations
belong to registered templates. A template may occur among the bases of one any number of times. -/
structure TemplatesSupplied : Prop where
  distinct : NamesDistinct c.unit
  specifiers : ∀ x t e, (c.unit.cursor x).kind = .baseSpecifier →
    (c.unit.cursor x).type = some t → (c.unit.canonical t).declaration = some e →
    IsTemplate c.unit e → c.unit.templateParameters (c.unit.cursor e) ≠ [] →
    (c.unit.type t).arguments ≠ []
  specializations : ∀ n ∈ r.classes.keys, ∀ t, r.types.find? n = some t → t.isSpecialized →
    ∃ g, r.types.find? (t.templateName?.getD "") = some g ∧ g.isGeneric

end members

section substitution
variable {ps as : List CppType}

theorem find?_zip_eq (n : String) : ∀ ps as : List CppType,
    ((ps.zip as).find? fun b => b.1.qualifiedName = n).map Prod.snd =
      ((ps.map CppType.qualifiedName).findIdx? (· == n)).bind fun i => as[i]?
  | [], as => by simp
  | p :: ps, [] => by simp
  | p :: ps, a :: as => by
    by_cases hp : p.qualifiedName = n
    · simp [List.findIdx?_cons, hp]
    · have htail := find?_zip_eq n ps as
      simp only [List.zip_cons_cons, List.find?_cons, hp, decide_false, htail, List.map_cons,
        List.findIdx?_cons, beq_false_of_ne hp, Bool.false_eq_true, if_false, Option.bind_map]
      rfl

/-- The walk finds the argument by the place of the parameter's name. -/
theorem substituted_eq_bound (ps as : List CppType) : substituted ps as = bound ps as := by
  funext t
  unfold substituted substitute? bound
  by_cases ht : t.kind = .template
  · simp only [ht, bne_self_eq_false, Bool.false_eq_true, if_false, if_true, find?_zip_eq]
    cases (ps.map CppType.qualifiedName).findIdx? (· == t.qualifiedName) <;> rfl
  · simp [ht]

theorem substitutedUse_eq_bound (ps as : List CppType) : substitutedUse ps as = boundUse ps as := by
  funext v
  simp only [substitutedUse, substituted_eq_bound, boundUse]

theorem substitutedField_eq_bound (ps as : List CppType) :
    substitutedField ps as = boundField ps as := by
  funext f
  simp only [substitutedField, substitutedUse_eq_bound, boundField]

theorem substitutedMethod_eq_bound (ps as : List CppType) :
    substitutedMethod ps as = boundMethod ps as := by
  funext m
  simp only [substitutedMethod, substitutedUse_eq_bound, boundMethod]

end substitution

section records
variable {c : Context} {p : Progress}

theorem Resolved.typeOf_eq {i : TypeId} {t : CppType} (h : Resolved c.unit p i t) :
    typeOf c.unit p.registry i = t := by
  rw [typeOf, h, Option.getD_some]

theorem ResolvedUse.useOf_eq {i : TypeId} {v : TypeUse} (h : ResolvedUse c.unit p i v) :
    useOf c.unit p.registry i = v := by
  obtain ⟨t, ht, rfl⟩ := h
  rw [useOf, ht.typeOf_eq]

theorem IsField.fieldAt?_eq {x : CursorId} {f : Field} (h : IsField c p x f) :
    fieldAt? c p.registry x = some f := by
  obtain ⟨i, hi, hv⟩ := h.use
  simp only [fieldAt?, hi, h.metadata, hv.useOf_eq, ← h.name, Option.bind_eq_bind,
    Option.bind_some, Option.pure_def]

theorem IsMethod.methodAt?_eq {x : CursorId} {m : Method} (h : IsMethod c p x m) :
    methodAt? c p.registry x = some m := by
  obtain ⟨⟨i, hi, hv⟩, harguments⟩ := h.signature
  have hmap : ((c.unit.cursor x).arguments.filterMap fun a => (c.unit.cursor a).type).map
      (useOf c.unit p.registry) = m.arguments := by
    rw [List.map_filterMap]
    apply filterMap_of_forall₂
    refine harguments.imp ?_
    rintro a v ⟨j, hj, hv⟩
    rw [hj, Option.map_some, hv.useOf_eq]
  simp only [methodAt?, hi, h.metadata, hv.useOf_eq, ← h.name, hmap, Option.bind_eq_bind,
    Option.bind_some, Option.pure_def]

theorem Members.fields_eq {d : CursorId} {k : ClassRecord}
    (h : Members c p false (c.unit.cursor d).children k) : k.fields = ownFields c p.registry d :=
  (filterMap_of_forall₂ (h.fields.imp fun _ _ h => h.fieldAt?_eq)).symm

theorem Members.methods_eq {d : CursorId} {k : ClassRecord}
    (h : Members c p false (c.unit.cursor d).children k) : k.methods = ownMethods c p.registry d :=
  (filterMap_of_forall₂ (h.methods.imp fun _ _ h => IsMethod.methodAt?_eq h)).symm

/-- A specialisation recorded from its type has the methods of its template, for its arguments. -/
theorem Members.boundMethods_eq {d : CursorId} {k : ClassRecord}
    (h : Members c p true (c.unit.cursor d).children k) :
    k.methods = (ownMethods c p.registry d).map (boundMethod
      (((p.registry.types.find? (k.type.templateName?.getD "")).map CppType.arguments).getD [])
      k.type.arguments) := by
  rw [ownMethods, List.map_filterMap]
  refine (filterMap_of_forall₂ (h.methods.imp ?_)).symm
  rintro x m hm
  obtain ⟨generic, m', hgeneric, hm', rfl⟩ := hm
  rw [hm'.methodAt?_eq, Option.map_some, substitutedMethod_eq_bound, hgeneric, Option.map_some,
    Option.getD_some]

theorem Members.specializedMethods_eq {d e : CursorId} {k : ClassRecord}
    (h : Members c p true (c.unit.cursor d).children k)
    (he : k.type.templateName? = some (declaredName c.unit e)) :
    k.methods = (ownMethods c p.registry d).map
      (boundMethod (parametersOf c.unit p.registry e) k.type.arguments) := by
  rw [h.boundMethods_eq, he]
  rfl

end records

section templates
variable {c : Context} {r : Registry}

theorem TemplatesRegular.supplied (h : TemplatesRegular c r) : TemplatesSupplied c r where
  distinct := h.distinct
  specifiers x t e hx ht he htemplate hparameters := by
    rw [← List.length_pos_iff, h.specifiers x t e hx ht he htemplate]
    exact List.length_pos_iff.2 hparameters
  specializations n hn t ht hspecial := by
    obtain ⟨g, hg, hgeneric, -⟩ := h.specializations n hn t ht hspecial
    exact ⟨g, hg, hgeneric⟩

theorem instanceFields_succ (n : Nat) (e : CursorId) (as : List CppType) :
    instanceFields c r (n + 1) e as =
      (ownFields c r e).map (boundField (parametersOf c.unit r e) as) ++
        (specifiers c e).flatMap (baseFields c r n e as) := rfl

theorem lineage_succ (n : Nat) (e : CursorId) :
    lineage c r (n + 1) e = declaredName c.unit e :: (specifiers c e).flatMap (baseLineage c r n) :=
  rfl

theorem templateNamed?_of_isTemplate (hu : NamesDistinct c.unit) {e : CursorId}
    (he : IsTemplate c.unit e) : templateNamed? c.unit (declaredName c.unit e) = some e := by
  cases hfind : templateNamed? c.unit (declaredName c.unit e) with
  | none =>
    have hnone := List.find?_eq_none.1 hfind e (List.mem_range.2 he.lt_size)
    exact absurd (decide_eq_true ⟨he.1, he.2, rfl⟩) hnone
  | some d =>
    have hd := List.find?_some hfind
    simp only [decide_eq_true_eq] at hd
    obtain ⟨htype, hkind, hname⟩ := hd
    have htemplate : IsTemplate c.unit d := ⟨htype, hkind⟩
    rw [hu _ d e (hname ▸ htemplate.declares) he.declares]

theorem lineage_subset {m n : Nat} (h : m ≤ n) (e : CursorId) :
    lineage c r m e ⊆ lineage c r n e := by
  induction m generalizing n e with
  | zero => exact List.nil_subset _
  | succ m ih =>
    obtain ⟨n, rfl⟩ : ∃ k, n = k + 1 := ⟨n - 1, by omega⟩
    intro s hs
    rw [lineage_succ, List.mem_cons, List.mem_flatMap] at hs ⊢
    refine hs.imp_right ?_
    rintro ⟨x, hx, hs⟩
    refine ⟨x, hx, ?_⟩
    cases hbase : baseTemplate? c.unit r x with
    | none => simp [baseLineage, hbase] at hs
    | some b =>
      simp only [baseLineage, hbase] at hs ⊢
      exact ih (by omega) b.2 hs

/-- Lineages that no more level makes longer have no template twice at any level. -/
theorem lineage_nodup {k : Nat}
    (hstable : ∀ e < c.unit.cursors.size, lineage c r (k + 2) e = lineage c r (k + 1) e)
    (hnodup : ∀ e < c.unit.cursors.size, ∀ n < k + 2, (lineage c r n e).Nodup) {e : CursorId}
    (he : IsTemplate c.unit e) (n : Nat) : (lineage c r n e).Nodup := by
  have hall : ∀ e, lineage c r (k + 2) e = lineage c r (k + 1) e := by
    intro e
    by_cases he : e < c.unit.cursors.size
    · exact hstable e he
    · have hnone : specifiers c e = [] := by
        rw [specifiers, cursor_of_size_le (Nat.le_of_not_lt he)]
        rfl
      rw [lineage_succ, lineage_succ, hnone, List.flatMap_nil, List.flatMap_nil]
  have hlevel : ∀ j e, lineage c r (k + 1 + j) e = lineage c r (k + 1) e := by
    intro j
    induction j with
    | zero => exact fun _ => rfl
    | succ j ih =>
      intro e
      have hbases : baseLineage c r (k + 1 + j) = baseLineage c r (k + 1) := by
        funext x
        simp only [baseLineage, ih]
      rw [← Nat.add_assoc, lineage_succ, hbases, ← lineage_succ]
      exact hall e
  by_cases hn : n < k + 2
  · exact hnodup e he.lt_size n hn
  · obtain ⟨j, rfl⟩ : ∃ j, n = k + 1 + j := ⟨n - (k + 1), by omega⟩
    rw [hlevel]
    exact hnodup e he.lt_size (k + 1) (by omega)

/-- What is left of regular templates to test in a registry, with that many levels of bases. -/
def RegularTo (c : Context) (r : Registry) (k : Nat) : Prop :=
  (∀ n ∈ r.classes.keys, ∀ t ∈ r.types.find? n, t.isSpecialized →
    ∃ g ∈ r.types.find? (t.templateName?.getD ""), g.isGeneric ∧
      t.arguments.length = g.arguments.length) ∧
  (∀ e < c.unit.cursors.size, lineage c r (k + 2) e = lineage c r (k + 1) e) ∧
  ∀ e < c.unit.cursors.size, ∀ n < k + 2, (lineage c r n e).Nodup

instance (c : Context) (r : Registry) (k : Nat) : Decidable (RegularTo c r k) :=
  inferInstanceAs (Decidable (_ ∧ _ ∧ _))

theorem lt_size_of_specifier {u : CompilationUnit} {x : CursorId}
    (h : (u.cursor x).kind = .baseSpecifier) : x < u.cursors.size := by
  apply Nat.lt_of_not_le
  intro hge
  rw [cursor_of_size_le hge] at h
  cases h

theorem templatesRegular_of_regularTo {k : Nat} (hnames : NamesDistinct c.unit)
    (hspecifiers : ∀ x < c.unit.cursors.size, (c.unit.cursor x).kind = .baseSpecifier →
      ∀ t ∈ (c.unit.cursor x).type, ∀ e ∈ (c.unit.canonical t).declaration,
        (c.unit.cursor e).kind = .classTemplate →
        (c.unit.type t).arguments.length =
          (c.unit.templateParameters (c.unit.cursor e)).length)
    (h : RegularTo c r k) : TemplatesRegular c r where
  distinct := hnames
  specifiers x t e hkind ht he htemplate :=
    hspecifiers x (lt_size_of_specifier hkind) hkind t ht e he htemplate.2
  specializations n hn t ht hspecial := h.1 n hn t ht hspecial
  lineage _ he n := lineage_nodup h.2.1 h.2.2 he n

end templates
end Introspect.Reflection
