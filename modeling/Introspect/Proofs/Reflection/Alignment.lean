import Mathlib.Data.List.ReduceOption
import Introspect.CompilationUnit.Raw
import Introspect.Proofs.Reflection.Promotion
import Introspect.Proofs.Reflection.Tally

/-! The arguments that a specialisation has for the parameters of its template. Reported arguments
that are no types leave no gap, so what follows one of them moves to the place of another
parameter. -/
namespace Introspect

/-- The template arguments of a type, place by place: nothing where one is no type. -/
def RawUnit.argumentPlaces (u : RawUnit) (t : RawType) : List (Option TypeId) :=
  let holder := u.argumentHolder t
  (holder.arguments.take holder.argumentCount.toNat).map fun a => a.bind u.validType?

theorem RawUnit.templateArguments_eq (u : RawUnit) (t : RawType) :
    u.templateArguments t = (u.argumentPlaces t).reduceOption := by
  simp only [templateArguments, argumentPlaces, List.reduceOption, List.filterMap_map,
    Function.id_comp]

theorem RawUnit.type_toUnit (u : RawUnit) (cwd : List String) (i : TypeId) :
    (u.toUnit cwd).type i =
      (u.types.entries[i]?.map fun e => u.frontType i e.2).getD (.unknown i) := by
  simp [toUnit, CompilationUnit.type, List.getElem?_zipIdx, Option.map_map, Function.comp_def]

namespace Reflection

/-! ## Arguments by place -/

section places
variable {α : Type} {l : List (Option α)} {i : Nat} {a : α}

/-- Of different items, one keeps its place when gaps are closed just where no gap is before it. -/
theorem getElem?_reduceOption_iff (hl : l.reduceOption.Nodup) (hi : l[i]? = some (some a)) :
    l.reduceOption[i]? = some a ↔ ∀ o ∈ l.take i, o.isSome := by
  obtain ⟨hlt, hget⟩ := List.getElem?_eq_some_iff.1 hi
  have hlength : (l.take i).length = i := List.length_take_of_le (Nat.le_of_lt hlt)
  have hsplit : l.reduceOption =
      (l.take i).reduceOption ++ a :: (l.drop (i + 1)).reduceOption := by
    rw [← List.reduceOption_cons_of_some, ← List.reduceOption_append, ← hget,
      List.getElem_cons_drop, List.take_append_drop]
  -- the place that the item has without the gaps
  have hplace : l.reduceOption[(l.take i).reduceOption.length]? = some a := by
    rw [hsplit, List.getElem?_append_right (Nat.le_refl _), Nat.sub_self, List.getElem?_cons_zero]
  rw [← List.reduceOption_length_eq_iff, hlength]
  constructor
  · intro h
    exact (List.getElem?_inj (List.getElem?_eq_some_iff.1 hplace).1 hl).1 (hplace.trans h.symm)
  · intro h
    rwa [h] at hplace

end places

/-- The place of a parameter of that name. -/
def parameterPlace? (ps : List CppType) (t : CppType) : Option Nat :=
  (ps.map CppType.qualifiedName).findIdx? (· == t.qualifiedName)

/-- The argument at the place of a parameter, if it is a type; any other type stays. -/
def placed (ps : List CppType) (places : List (Option CppType)) (t : CppType) : CppType :=
  if t.kind = .template then
    ((parameterPlace? ps t).bind fun i => places[i]?.join).getD t
  else t

/-- Closing gaps gives a parameter no other argument. -/
def StaysInPlace (ps : List CppType) (places : List (Option CppType)) (t : CppType) : Prop :=
  t.kind = .template → ∀ i ∈ parameterPlace? ps t,
    places.reduceOption[i]?.getD t = places[i]?.join.getD t

instance (ps : List CppType) (places : List (Option CppType)) (t : CppType) :
    Decidable (StaysInPlace ps places t) :=
  inferInstanceAs (Decidable (_ → ∀ i ∈ parameterPlace? ps t, _))

section substitution
variable {ps : List CppType} {places : List (Option CppType)} {t : CppType}

theorem bound_eq_placed_iff :
    bound ps places.reduceOption t = placed ps places t ↔ StaysInPlace ps places t := by
  rw [← substituted_eq_bound, StaysInPlace, placed]
  by_cases ht : t.kind = .template
  · have hfound : substituted ps places.reduceOption t =
        ((parameterPlace? ps t).bind fun i => places.reduceOption[i]?).getD t := by
      simp only [substituted, substitute?, ht, bne_self_eq_false, Bool.false_eq_true, if_false]
      unfold parameterPlace?
      cases (ps.map CppType.qualifiedName).findIdx? (· == t.qualifiedName) <;> rfl
    rw [hfound, if_pos ht]
    cases parameterPlace? ps t <;> simp [ht]
  · simp [ht, substituted_of_kind ht]

/-- With different types for arguments, a parameter has its argument just where all arguments before
it are types as well. -/
theorem staysInPlace_iff {i : Nat} {a : CppType} (hdistinct : places.reduceOption.Nodup)
    (ht : t.kind = .template) (hi : parameterPlace? ps t = some i)
    (ha : places[i]? = some (some a)) (hne : a ≠ t) :
    StaysInPlace ps places t ↔ ∀ o ∈ places.take i, o.isSome := by
  rw [← getElem?_reduceOption_iff hdistinct ha]
  constructor
  · intro h
    have hsame := h ht i hi
    rw [ha, Option.join_some, Option.getD_some] at hsame
    cases hfound : places.reduceOption[i]? with
    | none =>
      rw [hfound, Option.getD_none] at hsame
      exact absurd hsame.symm hne
    | some b =>
      rw [hfound, Option.getD_some] at hsame
      rw [hsame]
  · intro h _ j hj
    obtain rfl := Option.some.inj (hi.symm.trans hj)
    rw [h, ha, Option.join_some]

end substitution

/-! ## Members of a specialisation -/

def fieldWith (σ : CppType → CppType) (f : Field) : Field :=
  { f with use := { f.use with type := σ f.use.type } }

def methodWith (σ : CppType → CppType) (m : Method) : Method :=
  { m with
    result := { m.result with type := σ m.result.type }
    arguments := m.arguments.map fun v => { v with type := σ v.type } }

section members
variable (c : Context) (r : Registry) (k : ClassRecord) (e : CursorId)

/-- The class is a specialisation of the class template. -/
structure Specializes : Prop where
  mem : k ∈ r.classes.items
  special : k.type.isSpecialized
  template : IsTemplate c.unit e
  name : k.type.templateName? = some (declaredName c.unit e)
  generic : ∃ g, r.types.find? (declaredName c.unit e) = some g ∧ g.isGeneric

/-- The specialisation has what its template declares, with other types. Fields of a declaration of
its own come before, and others after. Methods are those of that declaration, if there is one. -/
structure Instantiated (σ : CppType → CppType) (own : Option CursorId) (rest : List Field) :
    Prop where
  fields : k.fields = own.elim [] (ownFields c r) ++ (ownFields c r e).map (fieldWith σ) ++ rest
  methods : k.methods = own.elim ((ownMethods c r e).map (methodWith σ)) (ownMethods c r)

/-- The types in what a template declares and a specialisation takes over. -/
def inheritedTypes (own : Option CursorId) : List CppType :=
  (ownFields c r e).map (·.use.type) ++ own.elim ((ownMethods c r e).flatMap fun m =>
    m.result.type :: m.arguments.map (·.type)) fun _ => []

theorem inheritedTypes_subset (own : Option CursorId) :
    inheritedTypes c r e own ⊆ inheritedTypes c r e none := by
  cases own with
  | none => exact List.Subset.refl _
  | some d => exact List.append_subset.2 ⟨List.subset_append_left .., List.nil_subset _⟩

end members

section instantiated
variable {c : Context} {r : Registry} {k : ClassRecord} {e : CursorId} {σ τ : CppType → CppType}
  {own : Option CursorId} {rest : List Field}

theorem map_fieldWith_eq_iff {l : List Field} :
    l.map (fieldWith σ) = l.map (fieldWith τ) ↔ ∀ t ∈ l.map (·.use.type), σ t = τ t := by
  rw [List.map_inj_left, List.forall_mem_map]
  simp [fieldWith]

theorem map_methodWith_eq_iff {l : List Method} :
    l.map (methodWith σ) = l.map (methodWith τ) ↔
      ∀ t ∈ l.flatMap fun m => m.result.type :: m.arguments.map (·.type), σ t = τ t := by
  rw [List.map_inj_left, List.forall_mem_flatMap]
  simp [methodWith]

/-- Two ways to replace the types of a template give the same members just where they agree on the
types in use. -/
theorem Instantiated.iff (h : Instantiated c r k e σ own rest) :
    Instantiated c r k e τ own rest ↔ ∀ t ∈ inheritedTypes c r e own, σ t = τ t := by
  have hfields : k.fields =
      own.elim [] (ownFields c r) ++ (ownFields c r e).map (fieldWith τ) ++ rest ↔
        ∀ t ∈ (ownFields c r e).map (·.use.type), σ t = τ t := by
    rw [h.fields, List.append_left_inj, List.append_right_inj, map_fieldWith_eq_iff]
  have hmethods : k.methods = own.elim ((ownMethods c r e).map (methodWith τ)) (ownMethods c r) ↔
      ∀ t ∈ own.elim ((ownMethods c r e).flatMap fun m =>
        m.result.type :: m.arguments.map (·.type)) fun _ => [], σ t = τ t := by
    rw [h.methods]
    cases own with
    | none => exact map_methodWith_eq_iff
    | some d => simp
  rw [inheritedTypes, List.forall_mem_append, ← hfields, ← hmethods]
  exact ⟨fun h => ⟨h.fields, h.methods⟩, fun h => ⟨h.1, h.2⟩⟩

end instantiated

section walk
variable {c : Context} {p q : Progress}

/-- A harvest adds to the fields: first those of a template that it had not seen, for its
arguments. -/
theorem harvest_starts (n : Nat) (k : ClassRecord) (as : List CppType) (h : Harvest) :
    Yields (harvest n k as h) q fun h' _ => h.fields ++ (if k.qualifiedName ∈ h.seen then [] else
      k.fields.map (substitutedField k.type.arguments as)) <+: h'.fields := by
  induction n generalizing q k as h with
  | zero => exact yields_throw
  | succ n ih =>
    unfold harvest
    split
    · exact yields_pure (by simp)
    · refine yields_bind (mapM_reported fun f _ q => substituteField_spec k.type.arguments as f) ?_
      rintro own q' ⟨-, rfl⟩
      refine yields_bind (R := fun _ _ => True) (fun _ _ _ => trivial) ?_
      rintro r q'' -
      refine yields_foldlM (I := fun _ (h' : Harvest) _ => h.fields ++
        k.fields.map (substitutedField k.type.arguments as) <+: h'.fields) ?_ List.prefix_rfl
      rintro - base - h' q₁ hh'
      refine yields_bind (R := fun _ _ => True) (fun _ _ _ => trivial) ?_
      rintro (_ | ⟨template, bound⟩) q₂ -
      · exact yields_pure hh'
      · exact (ih template bound h').mono fun _ _ hh'' =>
          hh'.trans ((List.prefix_append _ _).trans hh'')

theorem templateFields_starts (k : ClassRecord) (as : List CppType) :
    Yields (templateFields k as) q fun fs _ =>
      k.fields.map (substitutedField k.type.arguments as) <+: fs := by
  refine yields_bind (R := fun _ _ => True) (fun _ _ _ => trivial) ?_
  rintro r q' -
  refine yields_bind (harvest_starts _ k as ⟨[], []⟩) ?_
  rintro h q'' hprefix
  exact yields_pure (by simpa using hprefix)

theorem Describes.template_eq (hu : NamesDistinct c.unit) {e e' : CursorId} {k : ClassRecord}
    (h : Describes c q e' k) (he : IsTemplate c.unit e)
    (hname : k.qualifiedName = declaredName c.unit e) : e' = e :=
  hu _ e' e h.template.declares (h.name.trans hname ▸ he.declares)

/-- What a specialisation has from templates starts with what its own template declares. -/
theorem promotedFields_starts (hu : NamesDistinct c.unit) (hq : Traced c q) (hg : Grows q p)
    {k : ClassRecord} {e : CursorId} (hspecial : k.type.isSpecialized) (he : IsTemplate c.unit e)
    (hname : k.type.templateName? = some (declaredName c.unit e))
    (hgeneric : ∀ t, q.registry.types.find? (declaredName c.unit e) = some t → t.isGeneric) :
    Yields (promotedFields k) q fun fs _ => (ownFields c p.registry e).map
      (boundField (parametersOf c.unit p.registry e) k.type.arguments) <+: fs := by
  rw [promotedFields_of_specialized hspecial]
  refine yields_bind (genericClass_spec k.type) ?_
  rintro k' q' ⟨rfl, hk'⟩
  rw [hname, Option.getD_some] at hk'
  have hmem := Catalog.mem_of_find? hk'
  have hname' := Catalog.key_of_find? hk'
  have htype := Catalog.find?_of_mem (hq.types k' hmem)
  obtain ⟨e', hdescribes⟩ := hq.describes hu hmem (hgeneric _ (hname' ▸ htype))
  obtain rfl := hdescribes.template_eq hu he hname'
  refine (templateFields_starts k' k.type.arguments).mono fun fs _ hfs => ?_
  rwa [substitutedField_eq_bound, hdescribes.fields_eq hg, ← hdescribes.parameters_eq hq hg] at hfs

/-- From the moment when it is entered, a specialisation has the members of its template, for its
arguments. -/
theorem Specializes.instantiated {k : ClassRecord} {e : CursorId}
    (hk : Specializes c p.registry k e) (hu : NamesDistinct c.unit) (h : Entered c p k) :
    ∃ own rest, (∀ d ∈ own, Declares c.unit k.qualifiedName d) ∧
      Instantiated c p.registry k e (bound (parametersOf c.unit p.registry e) k.type.arguments)
        own rest := by
  obtain ⟨o, q, flag, d, r, promoted, ho, hgrows, hsource, hmembers, hrun, rfl⟩ := h
  have hspecial : r.type.isSpecialized := hk.special
  have hname : r.type.templateName? = some (declaredName c.unit e) := hk.name
  obtain ⟨g, hg, hgeneric⟩ := hk.generic
  have htemplate : ∀ t, o.registry.types.find? (declaredName c.unit e) = some t → t.isGeneric := by
    intro t ht
    obtain rfl := Option.some.inj (hg.symm.trans (hgrows.types _ _ ht))
    exact hgeneric
  obtain ⟨rest, rfl⟩ := promotedFields_starts hu ho hgrows hspecial hk.template hname
    htemplate _ _ hrun
  have hlater := hmembers.grows hgrows
  cases flag with
  | true =>
    obtain rfl := hsource.declaration_of_specialized ho.generic hu hk.template hname htemplate
    have hown : r.fields = [] := List.forall₂_nil_left_iff.1 hmembers.fields
    refine ⟨none, rest, by simp, ?_, hlater.specializedMethods_eq hname⟩
    dsimp only
    rw [hown]
    rfl
  | false =>
    refine ⟨some d, rest, ?_, ?_, hlater.methods_eq⟩
    · intro d' hd'
      obtain rfl := Option.mem_some_iff.1 hd'
      exact hsource.declares
    · dsimp only
      rw [hlater.fields_eq, ← List.append_assoc]
      rfl

end walk

/-! ## Reported arguments -/

/-- The number of the type whose kind and arguments are recorded. -/
def underlyingId (u : CompilationUnit) (i : TypeId) : TypeId :=
  if (u.type (unwrap u i)).isParameter then unwrap u i else (u.type (unwrap u i)).canonical

theorem underlying_eq (u : CompilationUnit) (i : TypeId) :
    underlying u (u.type (unwrap u i)) = u.type (underlyingId u i) := by
  unfold underlying underlyingId
  split <;> rfl

/-- The registered type has the name of a type of the unit, and its arguments are those of the
reported one. -/
def ReportedAs (raw : RawUnit) (u : CompilationUnit) (type : CppType) (t : RawType) : Prop :=
  ∃ i id, type.qualifiedName = recordedName u i ∧
    raw.types.entries[underlyingId u i]? = some (id, t)

/-- What the arguments of a reported type are registered as, place by place. -/
def placedTypes (raw : RawUnit) (u : CompilationUnit) (r : Registry) (t : RawType) :
    List (Option CppType) :=
  (raw.argumentPlaces t).map (Option.map (typeOf u r))

section reported
variable {raw : RawUnit} {cwd : List String} {c : Context} {p : Progress}

theorem exists_reported {i : TypeId} (h : ((raw.toUnit cwd).type i).arguments ≠ []) :
    ∃ id t, raw.types.entries[i]? = some (id, t) ∧
      ((raw.toUnit cwd).type i).arguments = (raw.argumentPlaces t).reduceOption := by
  rw [RawUnit.type_toUnit] at h ⊢
  cases hentry : raw.types.entries[i]? with
  | none => simp [hentry, FrontType.unknown] at h
  | some entry =>
    refine ⟨entry.1, entry.2, rfl, ?_⟩
    rw [← RawUnit.templateArguments_eq]
    rfl

theorem arguments_ne_nil_of_isSpecialized {t : CppType} (h : t.isSpecialized) :
    t.arguments ≠ [] := by
  cases t with
  | plain => simp [CppType.isSpecialized, CppType.template?] at h
  | templated => simp [CppType.arguments]

theorem isSpecialized_build_generic (i : QualifiedName) (k : TypeKind) (as : List CppType) :
    (CppType.build i k .generic as).isSpecialized = false := by
  cases as <;> rfl

/-- The arguments of a registered specialisation are the types among those of the reported one. -/
theorem Stems.reported {type : CppType} {r : Registry} (h : Stems (raw.toUnit cwd) type)
    (hspecial : type.isSpecialized) (hmem : ∀ a ∈ type.arguments, a ∈ r.types.items) :
    ∃ t, ReportedAs raw (raw.toUnit cwd) type t ∧
      type.arguments = (placedTypes raw (raw.toUnit cwd) r t).reduceOption := by
  have harguments := arguments_ne_nil_of_isSpecialized hspecial
  cases h with
  | @type i as has =>
    rw [CppType.arguments_build] at harguments hmem ⊢
    rw [underlying_eq] at has
    have hne : ((raw.toUnit cwd).type (underlyingId (raw.toUnit cwd) i)).arguments ≠ [] := by
      intro hnil
      rw [hnil] at has
      exact harguments (List.forall₂_nil_left_iff.1 has)
    obtain ⟨id, t, hentry, hplaces⟩ := exists_reported hne
    refine ⟨t, ⟨i, id, ?_, hentry⟩, ?_⟩
    · rw [CppType.qualifiedName, CppType.id_build, text_nameOf]
    · rw [placedTypes, List.reduceOption_map, ← hplaces]
      refine (map_of_forall₂ ((forall₂_mem_right has).imp ?_)).symm
      rintro j a ⟨ha, hname⟩
      rw [typeOf, ← hname, Catalog.find?_of_mem (hmem a ha), Option.getD_some]
  | @template d as =>
    rw [isSpecialized_build_generic] at hspecial
    cases hspecial

/-- The parameters of a registered template are its type and value parameters. -/
theorem Stems.parameters {e : CursorId} {g : CppType} (h : Stems c.unit g)
    (hu : NamesDistinct c.unit) (he : IsTemplate c.unit e)
    (hg : p.registry.types.find? (declaredName c.unit e) = some g) (hgeneric : g.isGeneric)
    (hmem : ∀ a ∈ g.arguments, a ∈ p.registry.types.items) :
    List.Forall₂ (ResolvedCursor c.unit p) (c.unit.templateParameters (c.unit.cursor e))
      (parametersOf c.unit p.registry e) := by
  have hname := Catalog.key_of_find? hg
  rw [parametersOf, hg, Option.map_some, Option.getD_some]
  cases h with
  | type _ =>
    rw [isGeneric_build_specialized] at hgeneric
    cases hgeneric
  | @template d as hd has =>
    rw [CppType.qualifiedName, CppType.id_build, ← hd.declaredName_eq] at hname
    obtain rfl : d = e := hu _ d e hd.declares (hname ▸ he.declares)
    rw [CppType.arguments_build] at hmem ⊢
    refine (forall₂_mem_right has).imp ?_
    rintro x a ⟨ha, i, hi, hai⟩
    refine ⟨i, hi, ?_⟩
    rw [Resolved, ← hai]
    exact Catalog.find?_of_mem (hmem a ha)

end reported

/-- After a walk, a specialisation has the members of its template for the types among its reported
arguments. They are those for the arguments place by place exactly when every parameter that is in
use stays in its place. -/
theorem reflect_aligned_iff (c : Context) (raw : RawUnit) (hc : c.unit = raw.toUnit c.cwd)
    (hash : NameHash) (i : CursorId) (p : Progress)
    (hrun : (reflect c i).run (.start (.empty hash)) = .ok () p)
    (hapart : NamesApart c.unit) (hu : NamesDistinct c.unit) (k : ClassRecord) (e : CursorId)
    (hk : Specializes c p.registry k e) :
    List.Forall₂ (ResolvedCursor c.unit p) (c.unit.templateParameters (c.unit.cursor e))
      (parametersOf c.unit p.registry e) ∧
    ∃ t own rest, ReportedAs raw c.unit k.type t ∧
      k.type.arguments = (placedTypes raw c.unit p.registry t).reduceOption ∧
      (∀ d ∈ own, Declares c.unit k.qualifiedName d) ∧
      Instantiated c p.registry k e (bound (parametersOf c.unit p.registry e) k.type.arguments)
        own rest ∧
      (Instantiated c p.registry k e
          (placed (parametersOf c.unit p.registry e) (placedTypes raw c.unit p.registry t))
          own rest ↔
        ∀ s ∈ inheritedTypes c p.registry e own, StaysInPlace (parametersOf c.unit p.registry e)
          (placedTypes raw c.unit p.registry t) s) := by
  have hclosed := (closed_start c.unit hash).steps hapart (reflect_steps_start hrun)
  obtain ⟨htraced, hentered⟩ :=
    entered_of_steps (traced_start c hash) rfl (reflect_steps_start hrun)
  obtain ⟨g, hg, hgeneric⟩ := hk.generic
  have htype := htraced.types k hk.mem
  have hgmem := Catalog.mem_of_find? hg
  refine ⟨(reflect_stems hrun hgmem).parameters hu hk.template hg hgeneric
    (hclosed.arguments g hgmem), ?_⟩
  have hstems := reflect_stems hrun htype
  rw [hc] at hstems
  obtain ⟨t, hreported, harguments⟩ := hstems.reported hk.special (hclosed.arguments _ htype)
  rw [← hc] at hreported harguments
  obtain ⟨own, rest, hown, hinstantiated⟩ := hk.instantiated hu (hentered k hk.mem)
  refine ⟨t, own, rest, hreported, harguments, hown, hinstantiated, ?_⟩
  rw [hinstantiated.iff, harguments]
  simp only [bound_eq_placed_iff]

/-- A reported declaration in a file of the module. -/
def reportedCursor (parent : Option String) (kind spelling : String) (type : Option String)
    (children : List String) : RawCursor where
  kind := kind
  spelling := spelling
  type := type
  resultType := none
  isDefinition := true
  children := children
  arguments := []
  parent := parent
  file := some "/module/a.h"
  line := 1
  isAbstract := false
  tokens := []
  enumValue := 0
  comment := none

def reportedType (kind spelling : String) (declaration : Option String)
    (arguments : List (Option String)) : RawType where
  kind := kind
  spelling := spelling
  isConst := false
  declaration := declaration
  canonical := none
  element := none
  named := none
  arguments := arguments
  argumentCount := if arguments.isEmpty then -1 else arguments.length

/-- The type `Grid<3, float, double>`. -/
def gridType : RawType :=
  reportedType "RECORD" "Grid<3, float, double>" (some "grid") [none, some "float", some "double"]

/-- The type `Row<float, 4>`. -/
def rowType : RawType := reportedType "RECORD" "Row<float, 4>" (some "row") [some "float", none]

/-- A class template `Grid` with a value parameter before two type parameters, a class template
`Row` with one behind its type parameter, each with fields of its type parameters, and a class
`Crate` derived from a specialisation of each. -/
def grids : RawUnit where
  root := "unit"
  cursors := .ofList [
    ("unit", reportedCursor none "TRANSLATION_UNIT" "a.h" none ["Grid", "Row", "crate"]),
    ("Grid", reportedCursor (some "unit") "CLASS_TEMPLATE" "Grid" none
      ["mark", "N", "T", "U", "first", "second"]),
    ("mark", reportedCursor none "ANNOTATE_ATTR" "mark" none []),
    ("N", reportedCursor (some "Grid") "TEMPLATE_NON_TYPE_PARAMETER" "N" (some "int") []),
    ("T", reportedCursor (some "Grid") "TEMPLATE_TYPE_PARAMETER" "T" (some "T") []),
    ("U", reportedCursor (some "Grid") "TEMPLATE_TYPE_PARAMETER" "U" (some "U") []),
    ("first", reportedCursor (some "Grid") "FIELD_DECL" "first" (some "T") ["mark"]),
    ("second", reportedCursor (some "Grid") "FIELD_DECL" "second" (some "U") ["mark"]),
    ("Row", reportedCursor (some "unit") "CLASS_TEMPLATE" "Row" none ["mark", "E", "M", "cell"]),
    ("E", reportedCursor (some "Row") "TEMPLATE_TYPE_PARAMETER" "E" (some "E") []),
    ("M", reportedCursor (some "Row") "TEMPLATE_NON_TYPE_PARAMETER" "M" (some "int") []),
    ("cell", reportedCursor (some "Row") "FIELD_DECL" "cell" (some "E") ["mark"]),
    ("grid", reportedCursor (some "unit") "STRUCT_DECL" "Grid" (some "grid") []),
    ("row", reportedCursor (some "unit") "STRUCT_DECL" "Row" (some "row") []),
    ("crate", reportedCursor (some "unit") "STRUCT_DECL" "Crate" (some "crate")
      ["mark", "base", "other"]),
    ("base", reportedCursor (some "crate") "CXX_BASE_SPECIFIER" "Grid<3, float, double>"
      (some "grid") []),
    ("other", reportedCursor (some "crate") "CXX_BASE_SPECIFIER" "Row<float, 4>" (some "row") [])]
  types := .ofList [
    ("int", reportedType "INT" "int" none []),
    ("T", reportedType "UNEXPOSED" "T" (some "T") []),
    ("U", reportedType "UNEXPOSED" "U" (some "U") []),
    ("E", reportedType "UNEXPOSED" "E" (some "E") []),
    ("float", reportedType "FLOAT" "float" none []),
    ("double", reportedType "DOUBLE" "double" none []),
    ("grid", gridType),
    ("row", rowType),
    ("crate", reportedType "RECORD" "Crate" (some "crate") [])]

theorem grids_namesApart : NamesApart (grids.toUnit []) :=
  namesApart_of_flat (by decide +kernel) (by decide +kernel)

theorem grids_namesDistinct : NamesDistinct (grids.toUnit []) :=
  namesDistinct_of_declarations (by decide +kernel)

/-- What is left of a specialisation to test. -/
def isSpecialization (r : Registry) (k : ClassRecord) (n template : String) : Bool :=
  k.qualifiedName == n && k.type.isSpecialized && k.type.templateName? == some template &&
    (r.types.find? template).any CppType.isGeneric

theorem qualifiedName_of_test {r : Registry} {k : ClassRecord} {n template : String}
    (htest : isSpecialization r k n template) : k.qualifiedName = n := by
  simp only [isSpecialization, Bool.and_eq_true, beq_iff_eq] at htest
  exact htest.1.1.1

theorem specializes_of_test {r : Registry} {k : ClassRecord} {n : String} {e : CursorId}
    (hmem : k ∈ r.classes.items) (he : IsTemplate (grids.toUnit []) e)
    (htest : isSpecialization r k n (declaredName (grids.toUnit []) e)) :
    Specializes (walkOver (grids.toUnit [])) r k e := by
  simp only [isSpecialization, Bool.and_eq_true, beq_iff_eq, Option.any_eq_true] at htest
  obtain ⟨⟨⟨-, hspecial⟩, hname⟩, g, hg, hgeneric⟩ := htest
  exact ⟨hmem, hspecial, he, hname, g, hg, hgeneric⟩

theorem recordedName_of_size_le {u : CompilationUnit} {i : TypeId} (h : u.types.size ≤ i) :
    recordedName u i = "" := by
  simp [recordedName, unwrap, type_of_size_le h, FrontType.unknown]

theorem reported_row {type : CppType} {t : RawType}
    (h : ReportedAs grids (grids.toUnit []) type t) (hname : type.qualifiedName = "Row<float, 4>") :
    t = rowType := by
  obtain ⟨i, id, hi, ht⟩ := h
  rw [hname] at hi
  have honly : ∀ j < (grids.toUnit []).types.size,
      recordedName (grids.toUnit []) j = "Row<float, 4>" →
        underlyingId (grids.toUnit []) j = 7 := by decide +kernel
  have hlt : i < (grids.toUnit []).types.size := by
    apply Nat.lt_of_not_le
    intro hge
    exact absurd (hi.trans (recordedName_of_size_le hge)) (by decide)
  rw [honly i hlt hi.symm] at ht
  exact (congrArg Prod.snd (Option.some.inj ht)).symm

/-- `Row<float, 4>` has its field with the argument for the parameter. -/
theorem reflect_aligned_iff_grids : ∃ p k,
    (reflect (walkOver (grids.toUnit [])) 0).run (.start (.empty NameHash.crc32)) = .ok () p ∧
      NamesApart (grids.toUnit []) ∧ NamesDistinct (grids.toUnit []) ∧
      Specializes (walkOver (grids.toUnit [])) p.registry k 8 ∧
      (∃ own rest, Instantiated (walkOver (grids.toUnit [])) p.registry k 8
        (placed (parametersOf (grids.toUnit []) p.registry 8)
          (placedTypes grids (grids.toUnit []) p.registry rowType)) own rest) ∧
      fieldTypes p.registry "Row<float, 4>" = [("cell", "float")] := by
  have hleaves : leaves (grids.toUnit []) fun p => decide (∃ k ∈ p.registry.classes.items,
      isSpecialization p.registry k "Row<float, 4>" (declaredName (grids.toUnit []) 8) ∧
      (∀ s ∈ inheritedTypes (walkOver (grids.toUnit [])) p.registry 8 none,
        StaysInPlace (parametersOf (grids.toUnit []) p.registry 8)
          (placedTypes grids (grids.toUnit []) p.registry rowType) s) ∧
      fieldTypes p.registry "Row<float, 4>" = [("cell", "float")]) := by
    decide +kernel
  obtain ⟨p, hrun, htest⟩ := exists_of_leaves hleaves
  obtain ⟨k, hk, hspecial, hstays, hfields⟩ := of_decide_eq_true htest
  have hspecializes := specializes_of_test hk
    (show IsTemplate (grids.toUnit []) 8 from ⟨by decide +kernel, by decide +kernel⟩) hspecial
  obtain ⟨-, t, own, rest, hreported, -, -, -, haligned⟩ :=
    reflect_aligned_iff (walkOver (grids.toUnit [])) grids rfl _ 0 p hrun grids_namesApart
      grids_namesDistinct k 8 hspecializes
  obtain rfl := reported_row hreported (qualifiedName_of_test hspecial)
  refine ⟨p, k, hrun, grids_namesApart, grids_namesDistinct, hspecializes, ⟨own, rest, ?_⟩, hfields⟩
  exact haligned.2 fun s hs => hstays s (inheritedTypes_subset _ _ _ own hs)

/-- `Grid<3, float, double>` has not: its fields have the argument that comes next, or none. -/
theorem exists_not_aligned_grids : ∃ p k,
    (reflect (walkOver (grids.toUnit [])) 0).run (.start (.empty NameHash.crc32)) = .ok () p ∧
      Specializes (walkOver (grids.toUnit [])) p.registry k 1 ∧
      ReportedAs grids (grids.toUnit []) k.type gridType ∧
      (∀ own rest, ¬ Instantiated (walkOver (grids.toUnit [])) p.registry k 1
        (placed (parametersOf (grids.toUnit []) p.registry 1)
          (placedTypes grids (grids.toUnit []) p.registry gridType)) own rest) ∧
      (parametersOf (grids.toUnit []) p.registry 1).map CppType.qualifiedName = ["int", "T", "U"] ∧
      (placedTypes grids (grids.toUnit []) p.registry gridType).map
        (Option.map CppType.qualifiedName) = [none, some "float", some "double"] ∧
      fieldTypes p.registry "Grid<3, float, double>" = [("first", "double"), ("second", "U")] := by
  have hleaves : leaves (grids.toUnit []) fun p => decide (∃ k ∈ p.registry.classes.items,
      isSpecialization p.registry k "Grid<3, float, double>" (declaredName (grids.toUnit []) 1) ∧
      (ownFields (walkOver (grids.toUnit [])) p.registry 1).length = k.fields.length ∧
      (ownFields (walkOver (grids.toUnit [])) p.registry 1).map (fieldWith
        (placed (parametersOf (grids.toUnit []) p.registry 1)
          (placedTypes grids (grids.toUnit []) p.registry gridType))) ≠ k.fields ∧
      (parametersOf (grids.toUnit []) p.registry 1).map CppType.qualifiedName = ["int", "T", "U"] ∧
      (placedTypes grids (grids.toUnit []) p.registry gridType).map
        (Option.map CppType.qualifiedName) = [none, some "float", some "double"] ∧
      fieldTypes p.registry "Grid<3, float, double>" = [("first", "double"), ("second", "U")]) := by
    decide +kernel
  obtain ⟨p, hrun, htest⟩ := exists_of_leaves hleaves
  obtain ⟨k, hk, hspecial, hlength, hne, hparameters, hplaces, hfields⟩ := of_decide_eq_true htest
  have hid : underlyingId (grids.toUnit []) 6 = 6 := by decide +kernel
  refine ⟨p, k, hrun, specializes_of_test hk ⟨by decide +kernel, by decide +kernel⟩ hspecial,
    ⟨6, "grid", (qualifiedName_of_test hspecial).trans (by decide +kernel), by rw [hid]; rfl⟩,
    fun own rest h => hne ?_, hparameters, hplaces, hfields⟩
  -- there is no room for other fields
  have hsum := congrArg List.length h.fields
  simp only [List.length_append, List.length_map] at hsum
  have hown : own.elim [] (ownFields (walkOver (grids.toUnit [])) p.registry) = [] :=
    List.length_eq_zero_iff.1 (by omega)
  have hrest : rest = [] := List.length_eq_zero_iff.1 (by omega)
  rw [h.fields, hown, hrest, List.nil_append, List.append_nil]

end Reflection
end Introspect
