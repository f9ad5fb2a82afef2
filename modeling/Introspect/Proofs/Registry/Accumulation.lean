import Introspect.Proofs.Document.RoundTrip
import Introspect.Proofs.Registry.Renewal
import Introspect.Proofs.Registry.Order

/-! Registries put together one after another, where later records win and all that stay follow the
types that come in. -/
namespace Introspect

namespace Category
variable {numbers : Int → Prop} {f : CppType → CppType}

/-- The values of a record are of the kinds that belong at their places. -/
def WellFormed (numbers : Int → Prop) : (c : Category) → c.Record → Prop
  | .types, (t : CppType) => t.id.WellFormed
  | .classes, (d : ClassRecord) => d.WellFormed numbers
  | .enums, (e : EnumRecord) => e.WellFormed numbers
  | .aliases, (a : AliasRecord) => a.WellFormed numbers
  | .functions, (h : FunctionRecord) => h.WellFormed numbers

private theorem forall_mem_mapType {us : List TypeUse} (h : ∀ u ∈ us, u.WellFormed) :
    ∀ u ∈ us.map (TypeUse.mapType f), u.WellFormed := by
  intro u hu
  obtain ⟨v, hv, rfl⟩ := List.mem_map.1 hu
  exact h v hv

private theorem WellFormed.mapTypes_class {d : ClassRecord} (hd : d.WellFormed numbers) :
    (d.mapTypes f).WellFormed numbers where
  metadata := hd.metadata
  abstractness := hd.abstractness
  bases := hd.bases
  bodyLine := hd.bodyLine
  fields := by
    intro m hm
    obtain ⟨k, hk, rfl⟩ := List.mem_map.1 hm
    exact ⟨(hd.fields k hk).use, (hd.fields k hk).metadata⟩
  methods := by
    intro m hm
    obtain ⟨k, hk, rfl⟩ := List.mem_map.1 hm
    obtain ⟨hresult, harguments, hmetadata⟩ := hd.methods k hk
    exact ⟨hresult, forall_mem_mapType harguments, hmetadata⟩

/-- Which types a record mentions makes no difference to its other values. -/
theorem WellFormed.mapTypes {c : Category} {v : c.Record} (hv : c.WellFormed numbers v) :
    c.WellFormed numbers (c.mapTypes f v) := by
  cases c with
  | types =>
    have hid : (CppType.mapArguments f v).id = CppType.id v := CppType.id_mapArguments
    exact Eq.subst (motive := QualifiedName.WellFormed) hid.symm hv
  | classes => exact mapTypes_class hv
  | enums => exact ⟨hv.metadata, hv.values, hv.bodyLine⟩
  | aliases => exact ⟨hv.metadata, hv.targetClass, hv.targetEnum⟩
  | functions => exact ⟨hv.id, hv.result, forall_mem_mapType hv.arguments, hv.metadata⟩

end Category

namespace Registry
variable {a b r s : Registry} {rs : List Registry} {c : Category} {n : String} {t : CppType}
  {hash : NameHash} {numbers : Int → Prop}

theorem wellFormed_iff :
    r.WellFormed numbers ↔ ∀ c, ∀ v ∈ (r.records c).items, c.WellFormed numbers v := by
  constructor
  · rintro ⟨ht, hc, he, ha, hf⟩ (_ | _ | _ | _ | _)
    exacts [ht, hc, he, ha, hf]
  · intro h
    exact ⟨h .types, h .classes, h .enums, h .aliases, h .functions⟩

theorem Coherent.of_records (h : ∀ c, a.records c = b.records c) (hb : b.Coherent) :
    a.Coherent := by
  rw [coherent_iff] at hb ⊢
  have htypes : a.types = b.types := h .types
  intro c v hv t ht
  rw [h c] at hv
  rw [htypes]
  exact hb c v hv t ht

theorem WellFormed.of_records (h : ∀ c, a.records c = b.records c) (hb : b.WellFormed numbers) :
    a.WellFormed numbers := by
  rw [wellFormed_iff] at hb ⊢
  intro c v hv
  rw [h c] at hv
  exact hb c v hv

theorem NoCollisions.of_records (hhash : a.hash = b.hash) (h : ∀ c, a.records c = b.records c)
    (hb : b.NoCollisions) : a.NoCollisions := by
  have htypes : a.types = b.types := h .types
  have hclasses : a.classes = b.classes := h .classes
  have hfunctions : a.functions = b.functions := h .functions
  obtain ⟨ht, hf, hfields, hmethods⟩ := hb
  rw [← hhash, ← htypes] at ht
  rw [← hhash, ← hfunctions] at hf
  rw [← hhash, ← hclasses] at hfields hmethods
  exact ⟨ht, hf, hfields, hmethods⟩

theorem coherent_empty (hash : NameHash) : (empty hash).Coherent := by
  rw [coherent_iff]
  intro c v hv
  cases c <;> cases hv

theorem wellFormed_empty (hash : NameHash) : (empty hash).WellFormed numbers := by
  rw [wellFormed_iff]
  intro c v hv
  cases c <;> cases hv

/-- The record of a name in the last of some registries that has one. -/
def lastRecord? (rs : List Registry) (c : Category) (n : String) : Option c.Record :=
  rs.reverse.findSome? (·.record? c n)

/-- The registry holds the records of some registries by the names in the order of their first
appearance, each as the last of these registries has it, but for the types in it: they are the
registered ones of their names. -/
structure Accumulates (rs : List Registry) (s : Registry) : Prop where
  keys : ∀ c, (s.records c).keys = (rs.flatMap fun r => (r.records c).keys).eraseDups
  records : ∀ c n,
    s.record? c n = (lastRecord? rs c n).map (c.mapTypes (CppType.registered s.types))

theorem accumulates_empty (hash : NameHash) : Accumulates [] (empty hash) := by
  constructor
  · intro c
    cases c <;> rfl
  · intro c n
    simp [lastRecord?]

theorem Accumulates.of_records (h : ∀ c, a.records c = b.records c) (hb : Accumulates rs b) :
    Accumulates rs a := by
  have htypes : a.types = b.types := h .types
  constructor
  · intro c
    rw [h c, hb.keys c]
  · intro c n
    rw [record?, h c, htypes]
    exact hb.records c n

theorem lastRecord?_concat (rs : List Registry) (r : Registry) (c : Category) (n : String) :
    lastRecord? (rs ++ [r]) c n = (r.record? c n).or (lastRecord? rs c n) := by
  rw [lastRecord?, List.reverse_concat, List.findSome?_cons]
  cases r.record? c n <;> rfl

private theorem eraseDups_append_congr {names names' more : List String}
    (hnames : names.eraseDups = names) (h : names = names'.eraseDups) :
    (names ++ more).eraseDups = (names' ++ more).eraseDups := by
  have hkept : more.removeAll names = more.removeAll names' := by
    simp [List.removeAll, h]
  rw [List.eraseDups_append, List.eraseDups_append, hnames, hkept, h]

/-- The registry holds the records of some registries by the names in the order of their first
appearance, each as the last of these registries has it. -/
structure Joins (rs : List Registry) (s : Registry) : Prop where
  keys : ∀ c, (s.records c).keys = (rs.flatMap fun r => (r.records c).keys).eraseDups
  records : ∀ c n, s.record? c n = lastRecord? rs c n

private theorem Joins.union (hs : Joins rs s) (r : Registry) : Joins (rs ++ [r]) (s.union r) := by
  constructor
  · intro c
    rw [records_union, Catalog.keys_insertAll, List.flatMap_append, List.flatMap_singleton]
    exact eraseDups_append_congr (Catalog.eraseDups_keys _) (hs.keys c)
  · intro c n
    rw [record?_union, lastRecord?_concat, hs.records c n]

private theorem Joins.foldl {as : List Registry} (hs : Joins as s) (rs : List Registry) :
    Joins (as ++ rs) (rs.foldl Registry.union s) := by
  induction rs generalizing as s with
  | nil => simpa using hs
  | cons r rs ih => simpa using ih (hs.union r)

theorem hash_foldl (rs : List Registry) : (rs.foldl union s).hash = s.hash := by
  induction rs generalizing s with
  | nil => rfl
  | cons r rs ih => exact ih

/-- What later registries win over, one after another, comes to what the last of them have. -/
theorem joins_foldl (hash : NameHash) (rs : List Registry) :
    Joins rs (rs.foldl union (empty hash)) := by
  have hempty : Joins [] (empty hash) := by
    refine ⟨fun c => ?_, fun c n => by simp [lastRecord?]⟩
    cases c <;> rfl
  exact hempty.foldl rs

/-- A type that one of the registries refers to is renamed nowhere and so is known afterwards. -/
private theorem Accumulates.name_mem (hs : Accumulates rs s) (hrs : ∀ r ∈ rs, r.Coherent)
    {v : c.Record} (hv : lastRecord? rs c n = some v) (ht : t ∈ c.mentioned v) :
    t.qualifiedName ∈ s.types.keys := by
  obtain ⟨r, hr, hfind⟩ := List.exists_of_findSome?_eq_some hv
  rw [List.mem_reverse] at hr
  have hregistered := coherent_iff.1 (hrs r hr) c v (mem_of_record? hfind) t ht
  have hkeys : s.types.keys = (rs.flatMap fun r => r.types.keys).eraseDups := hs.keys .types
  rw [hkeys, List.mem_eraseDups, List.mem_flatMap]
  exact ⟨r, hr, Catalog.key_mem_keys hregistered⟩

/-- What a name stands for after a registry came in is what it stood for, renewed. -/
private theorem registered_renewed (ht : t.qualifiedName ∈ s.types.keys) :
    t.registered (s.renewed r).types = (t.registered s.types).renew r.types := by
  obtain ⟨u, hu⟩ := Option.isSome_iff_exists.1 ((Catalog.find?_isSome_iff _ _).2 ht)
  have hname : u.qualifiedName = t.qualifiedName := Catalog.key_of_find? hu
  have hfind : (s.renewed r).types.find? t.qualifiedName = some (u.renew r.types) := by
    rw [← hname, ← CppType.keepsNames_renew r.types u]
    exact Catalog.find?_of_mem (renew_mem_renewed (Catalog.mem_of_find? hu))
  rw [CppType.registered, CppType.registered, hfind, hu]
  rfl

/-- One more registry comes in. -/
theorem Accumulates.renewed (hs : Accumulates rs s) (hrs : ∀ r ∈ rs, r.Coherent)
    (hr : r.Coherent) : Accumulates (rs ++ [r]) (s.renewed r) := by
  constructor
  · intro c
    rw [keys_renewed, List.flatMap_append, List.flatMap_singleton]
    exact eraseDups_append_congr (Catalog.eraseDups_keys _) (hs.keys c)
  · intro c n
    rw [record?_renewed, lastRecord?_concat]
    cases hcomes : r.record? c n with
    | some v =>
      have hkept : c.mapTypes (CppType.registered (s.renewed r).types) v = v :=
        c.mapTypes_eq_self fun t ht => CppType.registered_of_mem (mem_renewed_of_mem
          (c := .types) (coherent_iff.1 hr c v (mem_of_record? hcomes) t ht))
      simp [hkept]
    | none =>
      rw [Option.none_or, Option.none_or, hs.records c n, Option.map_map]
      refine Option.map_congr fun v hv => ?_
      rw [Function.comp_apply, Category.mapTypes_mapTypes]
      exact c.mapTypes_congr fun t ht => (registered_renewed (hs.name_mem hrs hv ht)).symm

/-- Every record comes from one of the registries. -/
theorem Accumulates.exists_mem (hs : Accumulates rs s) {v : c.Record}
    (hv : v ∈ (s.records c).items) :
    ∃ r ∈ rs, ∃ u ∈ (r.records c).items, v = c.mapTypes (CppType.registered s.types) u := by
  have hfind := hs.records c (c.key v)
  rw [record?_of_mem hv] at hfind
  obtain ⟨u, hu, hvu⟩ := Option.map_eq_some_iff.1 hfind.symm
  obtain ⟨r, hr, hru⟩ := List.exists_of_findSome?_eq_some hu
  exact ⟨r, List.mem_reverse.1 hr, u, mem_of_record? hru, hvu.symm⟩

theorem Accumulates.wellFormed (hs : Accumulates rs s) (hrs : ∀ r ∈ rs, r.WellFormed numbers) :
    s.WellFormed numbers := by
  rw [wellFormed_iff]
  intro c v hv
  obtain ⟨r, hr, u, hu, rfl⟩ := hs.exists_mem hv
  exact (wellFormed_iff.1 (hrs r hr) c u hu).mapTypes

/-- What is asked of registries that are to be put together in one file: coherence, proper values,
and numbers that tell all names of types and of functions apart, and the members of each class. -/
structure Combinable (hash : NameHash) (rs : List Registry) : Prop where
  hashes : ∀ r ∈ rs, r.hash = hash
  coherent : ∀ r ∈ rs, r.Coherent
  wellFormed : ∀ r ∈ rs, r.WellFormed IsShort
  types : hash.Separates (rs.flatMap fun r => r.types.keys)
  functions : hash.Separates (rs.flatMap fun r => r.functions.keys)
  fields : ∀ r ∈ rs, ∀ d ∈ r.classes.items, hash.Separates (d.fields.map (·.name))
  methods : ∀ r ∈ rs, ∀ d ∈ r.classes.items, hash.Separates (d.methods.map (·.name))

private theorem flatMap_subset {α β : Type} {l l' : List α} (f : α → List β) (h : l ⊆ l') :
    l.flatMap f ⊆ l'.flatMap f := by
  intro b hb
  obtain ⟨a, ha, hab⟩ := List.mem_flatMap.1 hb
  exact List.mem_flatMap.2 ⟨a, h ha, hab⟩

theorem Combinable.of_subset {rs' : List Registry} (h : Combinable hash rs) (hsub : rs' ⊆ rs) :
    Combinable hash rs' where
  hashes r hr := h.hashes r (hsub hr)
  coherent r hr := h.coherent r (hsub hr)
  wellFormed r hr := h.wellFormed r (hsub hr)
  types := h.types.of_subset (flatMap_subset _ hsub)
  functions := h.functions.of_subset (flatMap_subset _ hsub)
  fields r hr := h.fields r (hsub hr)
  methods r hr := h.methods r (hsub hr)

theorem Accumulates.noCollisions (hs : Accumulates rs s) (hrs : Combinable s.hash rs) :
    s.NoCollisions where
  types := by
    apply hrs.types.of_subset
    intro n hn
    have hkeys : s.types.keys = (rs.flatMap fun r => r.types.keys).eraseDups := hs.keys .types
    rwa [hkeys, List.mem_eraseDups] at hn
  functions := by
    apply hrs.functions.of_subset
    intro n hn
    have hkeys : s.functions.keys = (rs.flatMap fun r => r.functions.keys).eraseDups :=
      hs.keys .functions
    rwa [hkeys, List.mem_eraseDups] at hn
  fields := by
    intro d hd
    obtain ⟨r, hr, u, hu, rfl⟩ := hs.exists_mem (c := .classes) hd
    have hnames : (u.mapTypes (CppType.registered s.types)).fields.map (·.name) =
        u.fields.map (·.name) := by
      simp [ClassRecord.mapTypes, Field.mapType, Function.comp_def]
    exact Eq.subst (motive := s.hash.Separates) hnames.symm (hrs.fields r hr u hu)
  methods := by
    intro d hd
    obtain ⟨r, hr, u, hu, rfl⟩ := hs.exists_mem (c := .classes) hd
    have hnames : (u.mapTypes (CppType.registered s.types)).methods.map (·.name) =
        u.methods.map (·.name) := by
      simp [ClassRecord.mapTypes, Method.mapTypes, Function.comp_def]
    exact Eq.subst (motive := s.hash.Separates) hnames.symm (hrs.methods r hr u hu)

end Registry
end Introspect
