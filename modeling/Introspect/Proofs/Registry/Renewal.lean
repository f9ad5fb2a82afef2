import Introspect.Proofs.Registry.Order
import Introspect.Proofs.Registry.Redefinition

/-! Registries whose records follow the types that come in. A record that stays behind in a merge
goes on mentioning its types as they were; here it is brought up to date, which its names and the
rest of its data survive. -/
namespace Introspect

/-! ## Types -/

namespace CppType
variable {f g : CppType → CppType} {types : Catalog qualifiedName} {t u : CppType}

/-- The type with other template arguments in the places of its own. -/
def mapArguments (f : CppType → CppType) : CppType → CppType
  | .plain i k => .plain i k
  | .templated i k g a as => .templated i k g (f a) (as.map f)

@[simp] theorem id_mapArguments : (t.mapArguments f).id = t.id := by
  cases t <;> rfl

@[simp] theorem kind_mapArguments : (t.mapArguments f).kind = t.kind := by
  cases t <;> rfl

@[simp] theorem template?_mapArguments : (t.mapArguments f).template? = t.template? := by
  cases t <;> rfl

@[simp] theorem arguments_mapArguments : (t.mapArguments f).arguments = t.arguments.map f := by
  cases t <;> rfl

@[simp] theorem qualifiedName_mapArguments : (t.mapArguments f).qualifiedName = t.qualifiedName :=
  congrArg QualifiedName.text id_mapArguments

theorem mapArguments_congr (h : ∀ a ∈ t.arguments, f a = g a) :
    t.mapArguments f = t.mapArguments g := by
  cases t with
  | plain i k => rfl
  | templated i k _ a as =>
    have hfirst : f a = g a := h a (List.mem_cons_self ..)
    have hrest : as.map f = as.map g :=
      List.map_congr_left fun b hb => h b (List.mem_cons_of_mem _ hb)
    rw [mapArguments, mapArguments, hfirst, hrest]

theorem mapArguments_mapArguments :
    (t.mapArguments f).mapArguments g = t.mapArguments fun a => g (f a) := by
  cases t with
  | plain i k => rfl
  | templated i k _ a as => simp [mapArguments]

@[simp] theorem mapArguments_id : (t.mapArguments fun a => a) = t := by
  cases t <;> simp [mapArguments]

/-- The types are renamed nowhere. -/
def KeepsNames (f : CppType → CppType) : Prop := ∀ t, (f t).qualifiedName = t.qualifiedName

/-- What a name stands for among the registered types; a type of another name is left alone. -/
def registered (types : Catalog qualifiedName) (t : CppType) : CppType :=
  (types.find? t.qualifiedName).getD t

theorem registered_of_mem (h : t ∈ types.items) : t.registered types = t := by
  rw [registered, Catalog.find?_of_mem h]
  rfl

theorem keepsNames_registered (types : Catalog qualifiedName) : KeepsNames (registered types) := by
  intro t
  rw [registered]
  cases h : types.find? t.qualifiedName with
  | none => rfl
  | some u => exact Catalog.key_of_find? h

mutual
/-- The type with everything in it, down to the innermost arguments, that has a registered name
replaced by what is registered. -/
def renew (types : Catalog qualifiedName) : CppType → CppType
  | .plain i k => (types.find? i.text).getD (.plain i k)
  | .templated i k g a as =>
    (types.find? i.text).getD (.templated i k g (renew types a) (renewAll types as))
def renewAll (types : Catalog qualifiedName) : List CppType → List CppType
  | [] => []
  | t :: ts => renew types t :: renewAll types ts
end

private theorem renewAll_eq (ts : List CppType) : renewAll types ts = ts.map (renew types) := by
  induction ts with
  | nil => rw [renewAll, List.map_nil]
  | cons t ts ih => rw [renewAll, ih, List.map_cons]

theorem renew_eq (types : Catalog qualifiedName) (t : CppType) :
    t.renew types = (types.find? t.qualifiedName).getD (t.mapArguments (renew types)) := by
  cases t with
  | plain i k =>
    rw [renew]
    rfl
  | templated i k g a as =>
    rw [renew, renewAll_eq]
    rfl

theorem keepsNames_renew (types : Catalog qualifiedName) : KeepsNames (renew types) := by
  intro t
  rw [renew_eq]
  cases h : types.find? t.qualifiedName with
  | none => exact qualifiedName_mapArguments
  | some u => exact Catalog.key_of_find? h

theorem renew_of_mem (h : t ∈ types.items) : t.renew types = t := by
  rw [renew_eq, Catalog.find?_of_mem h]
  rfl

end CppType

/-! ## Records -/

variable {f g : CppType → CppType}

namespace TypeUse
variable {u : TypeUse} {us : List TypeUse}

def mapType (f : CppType → CppType) (u : TypeUse) : TypeUse := { u with type := f u.type }

@[simp] theorem type_mapType : (u.mapType f).type = f u.type := rfl

theorem mapType_congr (h : f u.type = g u.type) : u.mapType f = u.mapType g := by
  rw [mapType, mapType, h]

theorem map_mapType_congr (h : ∀ u ∈ us, f u.type = g u.type) :
    us.map (mapType f) = us.map (mapType g) :=
  List.map_congr_left fun u hu => mapType_congr (h u hu)

end TypeUse

def Field.mapType (f : CppType → CppType) (m : Field) : Field := { m with use := m.use.mapType f }

namespace Method

def mapTypes (f : CppType → CppType) (m : Method) : Method :=
  { m with result := m.result.mapType f, arguments := m.arguments.map (TypeUse.mapType f) }

/-- The types that a method names, in order. -/
def mentioned (m : Method) : List CppType := m.result.type :: m.arguments.map (·.type)

theorem mapTypes_congr {m : Method} (h : ∀ t ∈ m.mentioned, f t = g t) :
    m.mapTypes f = m.mapTypes g := by
  have hresult := TypeUse.mapType_congr (h _ (List.mem_cons_self ..))
  have harguments := TypeUse.map_mapType_congr fun u hu =>
    h _ (List.mem_cons_of_mem _ (List.mem_map_of_mem hu))
  rw [mapTypes, mapTypes, hresult, harguments]

theorem mentioned_mapTypes {m : Method} : (m.mapTypes f).mentioned = m.mentioned.map f := by
  simp [mentioned, mapTypes]

end Method

namespace FunctionRecord

def mapTypes (f : CppType → CppType) (h : FunctionRecord) : FunctionRecord :=
  { h with result := h.result.mapType f, arguments := h.arguments.map (TypeUse.mapType f) }

theorem mapTypes_congr {h : FunctionRecord} (hr : f h.result.type = g h.result.type)
    (ha : ∀ u ∈ h.arguments, f u.type = g u.type) : h.mapTypes f = h.mapTypes g := by
  rw [mapTypes, mapTypes, TypeUse.mapType_congr hr, TypeUse.map_mapType_congr ha]

end FunctionRecord

namespace ClassRecord

def mapTypes (f : CppType → CppType) (c : ClassRecord) : ClassRecord :=
  { c with
    type := f c.type
    fields := c.fields.map (Field.mapType f)
    methods := c.methods.map (Method.mapTypes f) }

theorem mapTypes_congr {c : ClassRecord} (ht : f c.type = g c.type)
    (hf : ∀ m ∈ c.fields, f m.use.type = g m.use.type)
    (hm : ∀ m ∈ c.methods, ∀ t ∈ m.mentioned, f t = g t) : c.mapTypes f = c.mapTypes g := by
  have hfields : c.fields.map (Field.mapType f) = c.fields.map (Field.mapType g) := by
    refine List.map_congr_left fun m hmem => ?_
    rw [Field.mapType, Field.mapType, TypeUse.mapType_congr (hf m hmem)]
  have hmethods : c.methods.map (Method.mapTypes f) = c.methods.map (Method.mapTypes g) :=
    List.map_congr_left fun m hmem => Method.mapTypes_congr (hm m hmem)
  rw [mapTypes, mapTypes, ht, hfields, hmethods]

theorem classTypes_mapTypes {c : ClassRecord} :
    Document.classTypes (c.mapTypes f) = (Document.classTypes c).map f := by
  have hmethods : (c.methods.map (Method.mapTypes f)).flatMap Method.mentioned =
      (c.methods.flatMap Method.mentioned).map f := by
    rw [List.flatMap_map, List.map_flatMap]
    exact congrArg (List.flatMap · c.methods) (funext fun m => Method.mentioned_mapTypes)
  have hfields : (c.fields.map (Field.mapType f)).map (fun m => m.use.type) =
      (c.fields.map fun m => m.use.type).map f := by
    simp [Field.mapType, Function.comp_def]
  change f c.type :: (c.fields.map (Field.mapType f)).map (fun m => m.use.type) ++
    (c.methods.map (Method.mapTypes f)).flatMap Method.mentioned = _
  rw [hfields, hmethods, ← List.map_cons, ← List.map_append]
  rfl

end ClassRecord

namespace Category
variable {c : Category}

/-- The types that a record itself refers to: of a type, its template arguments. -/
def mentioned : (c : Category) → c.Record → List CppType
  | .types, (t : CppType) => t.arguments
  | .classes, (d : ClassRecord) => Document.classTypes d
  | .enums, (e : EnumRecord) => [e.type]
  | .aliases, (a : AliasRecord) => [a.type, a.target]
  | .functions, (h : FunctionRecord) => h.result.type :: h.arguments.map (·.type)

/-- A record with other types in the places of those that it refers to. -/
def mapTypes (f : CppType → CppType) : (c : Category) → c.Record → c.Record
  | .types, (t : CppType) => t.mapArguments f
  | .classes, (d : ClassRecord) => d.mapTypes f
  | .enums, (e : EnumRecord) => { e with type := f e.type }
  | .aliases, (a : AliasRecord) => { a with type := f a.type, target := f a.target }
  | .functions, (h : FunctionRecord) => h.mapTypes f

theorem key_mapTypes (hf : CppType.KeepsNames f) (c : Category) (v : c.Record) :
    c.key (c.mapTypes f v) = c.key v := by
  cases c with
  | types => exact CppType.qualifiedName_mapArguments
  | functions => rfl
  | classes | enums | aliases => exact hf _

theorem mentioned_mapTypes (c : Category) (v : c.Record) :
    c.mentioned (c.mapTypes f v) = (c.mentioned v).map f := by
  cases c with
  | types => exact CppType.arguments_mapArguments
  | classes => exact ClassRecord.classTypes_mapTypes
  | enums | aliases => rfl
  | functions => simp [mentioned, mapTypes, FunctionRecord.mapTypes, Function.comp_def]

theorem mapTypes_congr (c : Category) {v : c.Record} (h : ∀ t ∈ c.mentioned v, f t = g t) :
    c.mapTypes f v = c.mapTypes g v := by
  cases c with
  | types => exact CppType.mapArguments_congr h
  | enums =>
    have htype := h _ (List.mem_singleton_self _)
    simp only [mapTypes, htype]
    rfl
  | aliases =>
    have htype := h _ (List.mem_cons_self ..)
    have htarget := h _ (List.mem_cons_of_mem _ (List.mem_singleton_self _))
    simp only [mapTypes, htype, htarget]
    rfl
  | functions =>
    exact FunctionRecord.mapTypes_congr (h _ (List.mem_cons_self ..))
      fun u hu => h _ (List.mem_cons_of_mem _ (List.mem_map_of_mem hu))
  | classes =>
    simp only [mentioned, Document.classTypes, List.cons_append, List.forall_mem_cons,
      List.forall_mem_append, List.forall_mem_map, List.mem_flatMap, forall_exists_index,
      and_imp] at h
    obtain ⟨htype, hfields, hmethods⟩ := h
    exact ClassRecord.mapTypes_congr htype hfields fun m hm t ht => hmethods t m hm ht

theorem mapTypes_mapTypes (c : Category) (v : c.Record) :
    c.mapTypes g (c.mapTypes f v) = c.mapTypes (fun t => g (f t)) v := by
  have huses : ∀ us : List TypeUse, (us.map (TypeUse.mapType f)).map (TypeUse.mapType g) =
      us.map (TypeUse.mapType fun t => g (f t)) := fun us => List.map_map
  cases c with
  | types => exact CppType.mapArguments_mapArguments
  | enums | aliases => rfl
  | functions =>
    simp only [mapTypes, FunctionRecord.mapTypes, huses]
    rfl
  | classes =>
    have hmethods : ∀ ms : List Method, (ms.map (Method.mapTypes f)).map (Method.mapTypes g) =
        ms.map (Method.mapTypes fun t => g (f t)) := by
      intro ms
      simp [Method.mapTypes, huses, TypeUse.mapType]
    have hfields : ∀ ms : List Field, (ms.map (Field.mapType f)).map (Field.mapType g) =
        ms.map (Field.mapType fun t => g (f t)) := fun ms => List.map_map
    simp only [mapTypes, ClassRecord.mapTypes, hmethods, hfields]
    rfl

theorem mapTypes_id (c : Category) (v : c.Record) : c.mapTypes (fun t => t) v = v := by
  have huses : ∀ us : List TypeUse, us.map (TypeUse.mapType fun t => t) = us := List.map_id
  cases c with
  | types => exact CppType.mapArguments_id
  | enums | aliases => rfl
  | functions =>
    simp only [mapTypes, FunctionRecord.mapTypes, huses]
    rfl
  | classes =>
    have hmethod : Method.mapTypes (fun t => t) = id := by
      funext m
      rw [Method.mapTypes, huses]
      rfl
    have hfield : Field.mapType (fun t => t) = id := rfl
    simp only [mapTypes, ClassRecord.mapTypes, hmethod, hfield, List.map_id]
    rfl

/-- A record stays as it is when its types do. -/
theorem mapTypes_eq_self (c : Category) {v : c.Record} (h : ∀ t ∈ c.mentioned v, f t = t) :
    c.mapTypes f v = v :=
  (c.mapTypes_congr h).trans (c.mapTypes_id v)

end Category

/-! ## Registries -/

namespace Registry
variable {a b r : Registry} {c : Category} {n : String} {t : CppType}

theorem mem_recordTypes_iff : t ∈ Document.recordTypes r ↔
    ∃ c ≠ Category.types, ∃ v ∈ (r.records c).items, t ∈ c.mentioned v := by
  simp only [Document.recordTypes, List.mem_append, List.mem_flatMap, List.mem_map]
  constructor
  · rintro (((⟨d, hd, ht⟩ | ⟨e, he, rfl⟩) | ⟨l, hl, ht⟩) | ⟨f, hf, ht⟩)
    · exact ⟨.classes, by simp, d, hd, ht⟩
    · exact ⟨.enums, by simp, e, he, List.mem_singleton_self _⟩
    · exact ⟨.aliases, by simp, l, hl, ht⟩
    · exact ⟨.functions, by simp, f, hf, ht⟩
  · rintro ⟨c, hc, v, hv, ht⟩
    cases c with
    | types => exact absurd rfl hc
    | classes => exact .inl (.inl (.inl ⟨v, hv, ht⟩))
    | enums => exact .inl (.inl (.inr ⟨v, hv, (List.mem_singleton.1 ht).symm⟩))
    | aliases => exact .inl (.inr ⟨v, hv, ht⟩)
    | functions => exact .inr ⟨v, hv, ht⟩

/-- What a record of a registry refers to is mentioned in it. -/
theorem Mentions.of_mentioned {v : c.Record} (hv : v ∈ (r.records c).items)
    (ht : t ∈ c.mentioned v) : r.Mentions t := by
  by_cases hc : c = .types
  · subst hc
    exact (Mentions.of_type hv).within (.of_argument ht)
  · exact .of_record (mem_recordTypes_iff.2 ⟨c, hc, v, hv, ht⟩)

/-- A registry is coherent when the types that its records refer to are registered, among them the
arguments of registered types. -/
theorem coherent_iff : r.Coherent ↔
    ∀ c, ∀ v ∈ (r.records c).items, ∀ t ∈ c.mentioned v, t ∈ r.types.items := by
  constructor
  · exact fun hr c v hv t ht => hr.mem_types (.of_mentioned hv ht)
  · intro h
    apply coherent_of_closed
    · intro t ht
      obtain ⟨c, -, v, hv, ht⟩ := mem_recordTypes_iff.1 ht
      exact h c v hv t ht
    · exact h .types

/-- The registry with other types in the places of those that its records refer to. -/
def relink (f : CppType → CppType) (hf : CppType.KeepsNames f) (r : Registry) : Registry :=
  { r with
    types := r.types.mapValues (Category.types.mapTypes f) (Category.types.key_mapTypes hf)
    classes := r.classes.mapValues (Category.classes.mapTypes f) (Category.classes.key_mapTypes hf)
    enums := r.enums.mapValues (Category.enums.mapTypes f) (Category.enums.key_mapTypes hf)
    aliases := r.aliases.mapValues (Category.aliases.mapTypes f) (Category.aliases.key_mapTypes hf)
    functions :=
      r.functions.mapValues (Category.functions.mapTypes f) (Category.functions.key_mapTypes hf) }

theorem records_relink (f : CppType → CppType) (hf : CppType.KeepsNames f) (r : Registry)
    (c : Category) :
    (r.relink f hf).records c = (r.records c).mapValues (c.mapTypes f) (c.key_mapTypes hf) := by
  cases c <;> rfl

theorem record?_relink (f : CppType → CppType) (hf : CppType.KeepsNames f) (r : Registry)
    (c : Category) (n : String) :
    (r.relink f hf).record? c n = (r.record? c n).map (c.mapTypes f) := by
  rw [record?, records_relink]
  exact Catalog.find?_mapValues _ _ _ n

/-- The union in which the records that stay follow the types that come in. -/
def renewed (a b : Registry) : Registry :=
  (a.relink (CppType.renew b.types) (CppType.keepsNames_renew b.types)).union b

theorem record?_renewed (a b : Registry) (c : Category) (n : String) :
    (a.renewed b).record? c n =
      (b.record? c n).or ((a.record? c n).map (c.mapTypes (CppType.renew b.types))) := by
  rw [renewed, record?_union, record?_relink]

theorem keys_renewed (a b : Registry) (c : Category) :
    ((a.renewed b).records c).keys = ((a.records c).keys ++ (b.records c).keys).eraseDups := by
  rw [renewed, records_union, Catalog.keys_insertAll, records_relink, Catalog.keys_mapValues]
  rfl

theorem mem_of_record? {v : c.Record} (h : r.record? c n = some v) : v ∈ (r.records c).items :=
  Catalog.mem_of_find? h

theorem record?_of_mem {v : c.Record} (h : v ∈ (r.records c).items) :
    r.record? c (c.key v) = some v :=
  Catalog.find?_of_mem h

/-- A type that was registered before is registered afterwards as it is renewed. -/
theorem renew_mem_renewed (ht : t ∈ a.types.items) :
    t.renew b.types ∈ (a.renewed b).types.items := by
  have hold : a.record? .types t.qualifiedName = some t := record?_of_mem (c := .types) ht
  have hfind := record?_renewed a b .types t.qualifiedName
  rw [hold] at hfind
  refine mem_of_record? (c := .types) (n := t.qualifiedName) (hfind.trans ?_)
  rw [CppType.renew_eq]
  change (b.types.find? _).or _ = _
  cases b.types.find? t.qualifiedName <;> rfl

theorem mem_renewed_of_mem {v : c.Record} (hv : v ∈ (b.records c).items) :
    v ∈ ((a.renewed b).records c).items := by
  refine mem_of_record? (n := c.key v) ?_
  rw [record?_renewed, record?_of_mem hv, Option.some_or]

/-- Coherence survives: what stays mentions the types as they are now. -/
theorem Coherent.renewed (ha : a.Coherent) (hb : b.Coherent) : (a.renewed b).Coherent := by
  rw [coherent_iff] at ha hb ⊢
  intro c v hv t ht
  have hfind := record?_of_mem hv
  rw [record?_renewed, Option.or_eq_some_iff] at hfind
  rcases hfind with hcomes | ⟨-, hstays⟩
  · exact mem_renewed_of_mem (c := .types) (hb c v (mem_of_record? hcomes) t ht)
  · obtain ⟨w, hw, rfl⟩ := Option.map_eq_some_iff.1 hstays
    rw [Category.mentioned_mapTypes] at ht
    obtain ⟨u, hu, rfl⟩ := List.mem_map.1 ht
    exact renew_mem_renewed (ha c w (mem_of_record? hw) u hu)

end Registry
end Introspect
