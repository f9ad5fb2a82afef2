import Introspect.Proofs.Agreement
import Introspect.Proofs.Registry.Merge

/-! Merging many registries one after another. A strict merge compares what comes in with what was
merged before it only, and yet the order of the registries makes no difference. -/
namespace Introspect

namespace Category

/-- What a category keeps. -/
def Record : Category → Type
  | .types => CppType
  | .classes => ClassRecord
  | .enums => EnumRecord
  | .aliases => AliasRecord
  | .functions => FunctionRecord

/-- The name by which a category knows a record. -/
def key : (c : Category) → c.Record → String
  | .types => CppType.qualifiedName
  | .classes => ClassRecord.qualifiedName
  | .enums => EnumRecord.qualifiedName
  | .aliases => AliasRecord.qualifiedName
  | .functions => FunctionRecord.qualifiedName

/-- Equality of records as data. -/
def agrees : (c : Category) → c.Record → c.Record → Bool
  | .types => CppType.agrees
  | .classes => ClassRecord.agrees
  | .enums => EnumRecord.agrees
  | .aliases => AliasRecord.agrees
  | .functions => FunctionRecord.agrees

theorem agreement : (c : Category) → Agreement c.agrees
  | .types => CppType.agreement
  | .classes => ClassRecord.agreement
  | .enums => EnumRecord.agreement
  | .aliases => AliasRecord.agreement
  | .functions => FunctionRecord.agreement

end Category

namespace Registry
variable {a b r s : Registry} {rs rs' : List Registry}

/-- The records of a category. -/
def records (r : Registry) : (c : Category) → Catalog c.key
  | .types => r.types
  | .classes => r.classes
  | .enums => r.enums
  | .aliases => r.aliases
  | .functions => r.functions

/-- The record of a name in a category. -/
def record? (r : Registry) (c : Category) (n : String) : Option c.Record := (r.records c).find? n

@[simp] theorem record?_empty (hash : NameHash) (c : Category) (n : String) :
    (empty hash).record? c n = none := by
  cases c <;> rfl

theorem records_union (a b : Registry) (c : Category) :
    (a.union b).records c = (a.records c).insertAll (b.records c).items := by
  cases c <;> rfl

theorem record?_union (a b : Registry) (c : Category) (n : String) :
    (a.union b).record? c n = (b.record? c n).or (a.record? c n) := by
  rw [record?, records_union]
  exact Catalog.find?_insertAll _ _ n

/-! ## One strict merge -/

/-- No name is bound in both registries to records that differ. -/
def Agreeing (a b : Registry) : Prop :=
  ∀ c n v w, a.record? c n = some v → b.record? c n = some w → c.agrees v w

theorem Agreeing.symm (h : a.Agreeing b) : b.Agreeing a :=
  fun c n v w hv hw => c.agreement.symm (h c n w v hw hv)

theorem agreeing_self (a : Registry) : a.Agreeing a := by
  intro c n v w hv hw
  rw [hv] at hw
  rw [Option.some.inj hw]
  exact c.agreement.refl w

/-- Values of different names come in one by one and stand in each other's way nowhere, so each of
them is compared with what was there before. -/
private theorem mergeItems_strict_iff {α : Type} {key : α → String} {agrees : α → α → Bool}
    {l : List α} (hl : (l.map key).Nodup) (c : Catalog key) :
    (mergeItems true agrees l c).2 = none ↔
      ∀ v ∈ l, ∀ m, c.find? (key v) = some m → agrees m v := by
  induction l generalizing c with
  | nil => simp [mergeItems]
  | cons v l ih =>
    simp only [List.map_cons, List.nodup_cons] at hl
    have hlater : (mergeItems true agrees l (c.insert v)).2 = none ↔
        ∀ w ∈ l, ∀ m, c.find? (key w) = some m → agrees m w := by
      rw [ih hl.2]
      refine forall₂_congr fun w hw => ?_
      rw [Catalog.find?_insert, if_neg]
      exact fun hkey => hl.1 (hkey ▸ List.mem_map_of_mem hw)
    rw [mergeItems, List.forall_mem_cons]
    cases hm : c.find? (key v) with
    | none => simp [hlater]
    | some m => by_cases hagrees : agrees m v = true <;> simp [hagrees, hlater]

/-- A strict merge goes through when every category does. -/
private theorem merge_none_iff :
    (a.merge b true).2 = none ↔
      ∀ c, (mergeItems true c.agrees (b.records c).items (a.records c)).2 = none := by
  have hall : (∀ c, (mergeItems true c.agrees (b.records c).items (a.records c)).2 = none) ↔
      (mergeItems true CppType.agrees b.types.items a.types).2 = none ∧
      (mergeItems true ClassRecord.agrees b.classes.items a.classes).2 = none ∧
      (mergeItems true EnumRecord.agrees b.enums.items a.enums).2 = none ∧
      (mergeItems true AliasRecord.agrees b.aliases.items a.aliases).2 = none ∧
      (mergeItems true FunctionRecord.agrees b.functions.items a.functions).2 = none := by
    constructor
    · intro h
      exact ⟨h .types, h .classes, h .enums, h .aliases, h .functions⟩
    · rintro ⟨ht, hc, he, ha, hf⟩ (_ | _ | _ | _ | _)
      exacts [ht, hc, he, ha, hf]
  rw [hall, merge]
  rcases mergeItems true CppType.agrees b.types.items a.types with ⟨types, _ | k⟩
  case some => simp
  dsimp only
  rcases mergeItems true ClassRecord.agrees b.classes.items a.classes with ⟨classes, _ | k⟩
  case some => simp
  dsimp only
  rcases mergeItems true EnumRecord.agrees b.enums.items a.enums with ⟨enums, _ | k⟩
  case some => simp
  dsimp only
  rcases mergeItems true AliasRecord.agrees b.aliases.items a.aliases with ⟨aliases, _ | k⟩
  case some => simp
  dsimp only
  rcases mergeItems true FunctionRecord.agrees b.functions.items a.functions with ⟨functions, _ | k⟩ <;>
    simp

/-- A strict merge goes through exactly when the two registries agree. -/
theorem merge_strict_iff : (a.merge b true).2 = none ↔ a.Agreeing b := by
  simp only [merge_none_iff, mergeItems_strict_iff (b.records _).nodup]
  constructor
  · intro h c n v w hv hw
    obtain ⟨hmem, rfl⟩ := Catalog.find?_eq_some_iff.1 hw
    exact h c w hmem v hv
  · intro h c w hw v hv
    exact h c _ v w hv (Catalog.find?_of_mem hw)

/-! ## Many merges -/

/-- Merges registries into one, one after another, until a merge fails. -/
def mergeAll (strict : Bool) (rs : List Registry) (r : Registry) : Except Failure Registry :=
  rs.foldlM (fun r other =>
    match r.merge other strict with
    | (s, none) => .ok s
    | (_, some e) => .error e) r

/-- In every category, no name is bound to different records by two registries of a list. -/
def Compatible (rs : List Registry) : Prop := ∀ a ∈ rs, ∀ b ∈ rs, a.Agreeing b

/-- The two registries bind the same names, to equal records. -/
def SameRecords (r s : Registry) : Prop :=
  ∀ c n, Option.Rel (c.agrees · ·) (r.record? c n) (s.record? c n)

theorem compatible_cons_iff :
    Compatible (r :: rs) ↔ (∀ a ∈ rs, r.Agreeing a) ∧ Compatible rs := by
  simp only [Compatible, List.forall_mem_cons]
  constructor
  · rintro ⟨⟨-, hr⟩, hrs⟩
    exact ⟨hr, fun a ha => (hrs a ha).2⟩
  · rintro ⟨hr, hrs⟩
    exact ⟨⟨agreeing_self r, hr⟩, fun a ha => ⟨(hr a ha).symm, hrs a ha⟩⟩

/-- What two registries that agree are together agrees with just what both of them agree with: a
record that is replaced is replaced by an equal one. -/
theorem agreeing_union_iff (h : a.Agreeing b) :
    (a.union b).Agreeing s ↔ a.Agreeing s ∧ b.Agreeing s := by
  constructor
  · intro hs
    constructor
    · intro c n v w hv hw
      cases hv' : b.record? c n with
      | none => exact hs c n v w (by rw [record?_union, hv', Option.none_or, hv]) hw
      | some v' =>
        have hv'w := hs c n v' w (by rw [record?_union, hv', Option.some_or]) hw
        exact c.agreement.trans (h c n v v' hv hv') hv'w
    · intro c n v w hv hw
      exact hs c n v w (by rw [record?_union, hv, Option.some_or]) hw
  · rintro ⟨ha, hb⟩ c n v w hv hw
    rw [record?_union, Option.or_eq_some_iff] at hv
    rcases hv with hv | ⟨-, hv⟩
    · exact hb c n v w hv hw
    · exact ha c n v w hv hw

theorem compatible_union_iff :
    a.Agreeing b ∧ Compatible (a.union b :: rs) ↔ Compatible (a :: b :: rs) := by
  simp only [compatible_cons_iff, List.forall_mem_cons]
  constructor
  · rintro ⟨hab, hunion, hrs⟩
    refine ⟨⟨hab, fun s hs => ?_⟩, fun s hs => ?_, hrs⟩
    · exact ((agreeing_union_iff hab).1 (hunion s hs)).1
    · exact ((agreeing_union_iff hab).1 (hunion s hs)).2
  · rintro ⟨⟨hab, ha⟩, hb, hrs⟩
    exact ⟨hab, fun s hs => (agreeing_union_iff hab).2 ⟨ha s hs, hb s hs⟩, hrs⟩

/-- Merges that are not strict leave the union of all. -/
theorem mergeAll_lenient (rs : List Registry) (r : Registry) :
    mergeAll false rs r = .ok (rs.foldl union r) := by
  induction rs generalizing r with
  | nil => rfl
  | cons b rs ih =>
    rw [mergeAll, List.foldlM_cons, merge_lenient]
    exact ih (r.union b)

/-- Strict merges all go through exactly when no two of the registries bind a name to different
records, the one they start from included. They then leave the union. -/
theorem mergeAll_strict_iff :
    mergeAll true rs r = .ok s ↔ Compatible (r :: rs) ∧ s = rs.foldl union r := by
  induction rs generalizing r with
  | nil =>
    have hself : Compatible [r] := compatible_cons_iff.2 ⟨by simp, by simp [Compatible]⟩
    simp only [mergeAll, List.foldlM_nil, List.foldl_nil, hself, true_and]
    constructor
    · rintro ⟨⟩
      rfl
    · rintro rfl
      rfl
  | cons b rs ih =>
    rw [mergeAll, List.foldlM_cons, List.foldl_cons, ← compatible_union_iff, and_assoc, ← ih,
      ← merge_strict_iff]
    rcases hmerge : r.merge b true with ⟨t, _ | e⟩
    · have ht := merge_ok hmerge
      subst ht
      simp only [true_and]
      exact Iff.rfl
    · simp only [reduceCtorEq, false_and, iff_false]
      rintro ⟨⟩

/-- Every record of a union of registries stems from one of them. -/
theorem exists_of_foldl_union {c : Category} {n : String} {v : c.Record}
    (h : (rs.foldl union r).record? c n = some v) : ∃ a ∈ r :: rs, a.record? c n = some v := by
  induction rs generalizing r with
  | nil => exact ⟨r, List.mem_cons_self .., h⟩
  | cons b rs ih =>
    obtain ⟨a, ha, hv⟩ := ih h
    rcases List.mem_cons.1 ha with rfl | ha
    · rw [record?_union, Option.or_eq_some_iff] at hv
      rcases hv with hv | ⟨-, hv⟩
      · exact ⟨b, by simp, hv⟩
      · exact ⟨r, by simp, hv⟩
    · exact ⟨a, by simp [ha], hv⟩

/-- A union of registries binds every name that one of them binds. -/
theorem isSome_foldl_union {c : Category} {n : String} (ha : a ∈ r :: rs)
    (h : (a.record? c n).isSome) : ((rs.foldl union r).record? c n).isSome := by
  induction rs generalizing a r with
  | nil => exact List.mem_singleton.1 ha ▸ h
  | cons b rs ih =>
    have hunion : ∀ d, d = r ∨ d = b → (d.record? c n).isSome →
        ((r.union b).record? c n).isSome := by
      rintro d (rfl | rfl) hd <;> simp [record?_union, Option.isSome_or, hd]
    rcases List.mem_cons.1 ha with rfl | ha
    · exact ih (List.mem_cons_self ..) (hunion a (.inl rfl) h)
    rcases List.mem_cons.1 ha with rfl | ha
    · exact ih (List.mem_cons_self ..) (hunion a (.inr rfl) h)
    · exact ih (List.mem_cons_of_mem _ ha) h

/-- Registries that are compatible have one union, whatever their order. -/
theorem sameRecords_foldl_union (hperm : rs.Perm rs') (h : Compatible (r :: rs)) :
    (rs.foldl union r).SameRecords (rs'.foldl union r) := by
  intro c n
  have hmem : ∀ a, a ∈ r :: rs ↔ a ∈ r :: rs' := fun a => (hperm.cons r).mem_iff
  cases hv : (rs.foldl union r).record? c n with
  | some v =>
    obtain ⟨a, ha, hav⟩ := exists_of_foldl_union hv
    have hsome := isSome_foldl_union ((hmem a).1 ha) (by rw [hav]; rfl)
    obtain ⟨w, hw⟩ := Option.isSome_iff_exists.1 hsome
    obtain ⟨b, hb, hbw⟩ := exists_of_foldl_union hw
    rw [hw]
    exact .some (h a ha b ((hmem b).2 hb) c n v w hav hbw)
  | none =>
    cases hw : (rs'.foldl union r).record? c n with
    | none => exact .none
    | some w =>
      obtain ⟨b, hb, hbw⟩ := exists_of_foldl_union hw
      have hsome := isSome_foldl_union ((hmem b).2 hb) (by rw [hbw]; rfl)
      rw [hv] at hsome
      cases hsome

theorem compatible_empty_cons_iff {hash : NameHash} :
    Compatible (empty hash :: rs) ↔ Compatible rs := by
  rw [compatible_cons_iff, and_iff_right]
  intro a _ c n v w hv
  simp at hv

/-- Registries can be merged strictly, one after another from an empty one, exactly when in every
category no name is bound to different records by two of them. When they can, every order of them
leaves the same records, strict or not. -/
theorem mergeAll_perm (hash : NameHash) (hperm : rs.Perm rs') :
    ((∃ s, mergeAll true rs (empty hash) = .ok s) ↔ Compatible rs) ∧
      ∀ s, mergeAll true rs (empty hash) = .ok s →
        ∀ strict, ∃ s', mergeAll strict rs' (empty hash) = .ok s' ∧ s.SameRecords s' := by
  simp only [mergeAll_strict_iff, compatible_empty_cons_iff]
  refine ⟨by simp, ?_⟩
  rintro s ⟨hcompatible, rfl⟩ strict
  have hcompatible' : Compatible rs' := fun a ha b hb =>
    hcompatible a (hperm.mem_iff.2 ha) b (hperm.mem_iff.2 hb)
  refine ⟨rs'.foldl union (empty hash), ?_,
    sameRecords_foldl_union hperm (compatible_empty_cons_iff.2 hcompatible)⟩
  cases strict with
  | false => exact mergeAll_lenient _ _
  | true => exact mergeAll_strict_iff.2 ⟨compatible_empty_cons_iff.2 hcompatible', rfl⟩

/-- A registry of one function with the given attributes. -/
def tuned (attributes : List (String × Note)) : Registry :=
  { empty NameHash.crc32 with
    functions := .ofList [{
      id := ⟨"tune", ""⟩
      result := ⟨.plain ⟨"void", ""⟩ .void, false⟩
      arguments := []
      metadata := ⟨Path.ofString "/module/tune.h", (3 : Int), true, [], .ofList attributes, .proper none⟩ }] }

/-- Registries that differ in the order of attributes only can be merged in both orders. -/
theorem mergeAll_perm_tuned :
    let low : String × Note := ("low", ⟨"1", .runtime⟩)
    let high : String × Note := ("high", ⟨"9", .compile⟩)
    ∃ s s', mergeAll true [tuned [low, high], tuned [high, low]] (empty NameHash.crc32) = .ok s ∧
      mergeAll true [tuned [high, low], tuned [low, high]] (empty NameHash.crc32) = .ok s' ∧
      s.SameRecords s' := by
  intro low high
  have hmerge : ∃ s, mergeAll true [tuned [low, high], tuned [high, low]] (empty NameHash.crc32) =
      .ok s := ⟨_, rfl⟩
  obtain ⟨s, hs⟩ := hmerge
  obtain ⟨s', hs', hsame⟩ :=
    (mergeAll_perm NameHash.crc32 (.swap (tuned [high, low]) (tuned [low, high]) [])).2 s hs true
  exact ⟨s, s', hs, hs', hsame⟩

end Registry
end Introspect

/-! ## Merges that are not strict

What comes in wins, what was there keeps its place, and it makes no difference how the merges are
grouped. -/
namespace Introspect

namespace Catalog
variable {α κ : Type} {key : α → κ} [DecidableEq κ]

theorem keys_beyond (c d : Catalog key) : (c.beyond d).keys = c.keys.filter (· ∉ d.keys) := by
  change (c.items.filter _).map key = (c.items.map key).filter _
  rw [List.filter_map]
  refine congrArg _ (List.filter_congr fun v _ => ?_)
  rw [Bool.eq_iff_iff]
  simp [← contains_iff]

/-- New keys come behind those that were there, each group in its own order. -/
theorem keys_insertAll_items (c d : Catalog key) :
    (c.insertAll d.items).keys = c.keys ++ d.keys.filter (· ∉ c.keys) := by
  have hitems : d.items.map key = d.keys := rfl
  have hnew : d.keys.removeAll c.keys = (d.beyond c).keys := by
    rw [keys_beyond, List.removeAll]
    exact List.filter_congr fun k _ => by simp
  rw [keys_insertAll, hitems, List.eraseDups_append, eraseDups_keys, hnew, eraseDups_keys,
    keys_beyond]

theorem insertAll_self (c : Catalog key) : c.insertAll c.items = c := by
  refine ext_of_find? ?_ fun k => ?_
  · have hnone : c.keys.filter (· ∉ c.keys) = [] := by simp
    rw [keys_insertAll_items, hnone, List.append_nil]
  · rw [find?_insertAll, Option.or_self]

end Catalog

namespace Registry
variable {a a' b b' : Registry}

/-- The numbers of a union are read off its names. -/
theorem union_eq_union (hhash : a.hash = a'.hash)
    (h : ∀ c, (a.union b).records c = (a'.union b').records c) : a.union b = a'.union b' := by
  have htypes : (a.union b).types = (a'.union b').types := h .types
  have hclasses : (a.union b).classes = (a'.union b').classes := h .classes
  have henums : (a.union b).enums = (a'.union b').enums := h .enums
  have haliases : (a.union b).aliases = (a'.union b').aliases := h .aliases
  have hfunctions : (a.union b).functions = (a'.union b').functions := h .functions
  have hnumbered : ∀ a b : Registry, a.union b =
      (⟨a.hash, (a.union b).types, (a.union b).classes, (a.union b).enums, (a.union b).aliases,
        (a.union b).functions, .empty, .empty⟩ : Registry).withHolders := fun _ _ => rfl
  rw [hnumbered a b, hnumbered a' b', hhash, htypes, hclasses, henums, haliases, hfunctions]

/-- Nothing is lost when a registry comes into an empty one. -/
theorem records_empty_union (hash : NameHash) (r : Registry) (c : Category) :
    ((empty hash).union r).records c = r.records c := by
  have hempty : (empty hash).records c = .empty := by cases c <;> rfl
  rw [records_union, hempty]
  exact Catalog.ofList_items _

theorem records_union_empty (r : Registry) (hash : NameHash) (c : Category) :
    (r.union (empty hash)).records c = r.records c := by
  cases c <;> rfl

theorem records_union_self (r : Registry) (c : Category) :
    (r.union r).records c = r.records c := by
  rw [records_union, Catalog.insertAll_self]

theorem union_assoc (a b r : Registry) : a.union (b.union r) = (a.union b).union r :=
  union_eq_union rfl fun c => by
    simp only [records_union, Catalog.insertAll_insertAll]

/-- What comes in a second time changes nothing. -/
theorem union_union_self (a b : Registry) : (a.union b).union b = a.union b := by
  rw [← union_assoc]
  exact union_eq_union rfl fun c => by
    simp only [records_union, Catalog.insertAll_self]

theorem union_union_empty (a b : Registry) (hash : NameHash) :
    (a.union b).union (empty hash) = a.union b :=
  union_eq_union rfl fun c => records_union_empty (a.union b) hash c

/-- Registries that are put together first come in as they would one after another. -/
theorem union_foldl (a s : Registry) (rs : List Registry) :
    a.union (rs.foldl union s) = rs.foldl union (a.union s) := by
  induction rs generalizing s with
  | nil => rfl
  | cons r rs ih => rw [List.foldl_cons, ih, List.foldl_cons, union_assoc]

/-- Merges that are not strict never fail. They can be grouped in any way, down to the numbers of
names; an empty registry adds nothing and loses nothing; a registry that comes in again changes
nothing. Under every name the incoming record wins, and the names that are new come behind the
others, all in the order that they had. -/
theorem merge_lastWins (a b r : Registry) (hash : NameHash) :
    (∀ x y : Registry, x.merge y false = (x.union y, none)) ∧
      (a.union b).union r = a.union (b.union r) ∧
      (∀ c, ((empty hash).union a).records c = a.records c ∧
        (a.union (empty hash)).records c = a.records c) ∧
      (∀ c, (a.union a).records c = a.records c) ∧
      (a.union b).union b = a.union b ∧
      ∀ c, (∀ n, (a.union b).record? c n = (b.record? c n).or (a.record? c n)) ∧
        ((a.union b).records c).keys =
          (a.records c).keys ++ (b.records c).keys.filter (· ∉ (a.records c).keys) := by
  refine ⟨merge_lenient, (union_assoc a b r).symm, fun c => ⟨?_, ?_⟩, records_union_self a,
    union_union_self a b, fun c => ⟨record?_union a b c, ?_⟩⟩
  · exact records_empty_union hash a c
  · exact records_union_empty a hash c
  · rw [records_union]
    exact Catalog.keys_insertAll_items _ _

end Registry
end Introspect
