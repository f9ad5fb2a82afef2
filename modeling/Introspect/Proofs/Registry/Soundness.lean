import Introspect.Proofs.Catalog
import Introspect.Proofs.NameHash
import Introspect.Registry.Basic

/-! What holds of every registry that was filled by inserts: the types of its records are
registered, the numbers of names are exact, and no two members of a class share a number. -/
namespace Introspect.Registry

/-- A number stands for a name exactly when the name is one of the given ones and has the number. -/
def HoldersExact (hash : NameHash) (holders : Table Int String) (names : List String) : Prop :=
  ∀ v n, holders.find? v = some n ↔ n ∈ names ∧ hash n = v

namespace HoldersExact
variable {hash : NameHash} {holders holders' : Table Int String} {names names' : List String}
  {kind : NameKind} {n : String}

theorem empty : HoldersExact hash .empty [] := by
  intro v n
  simp

/-- Exact holders leave each name its own number. -/
theorem separates (hx : HoldersExact hash holders names) : hash.Separates names := by
  intro a ha b hb hab
  have h1 := (hx (hash a) a).2 ⟨ha, rfl⟩
  have h2 := (hx (hash a) b).2 ⟨hb, hab.symm⟩
  exact Option.some.inj (h1.symm.trans h2)

/-- A claim keeps holders exact. -/
theorem claim_ok (hx : HoldersExact hash holders names)
    (h : claim hash kind holders n = .ok holders')
    (hn : ∀ m, m ∈ names' ↔ m = n ∨ m ∈ names) : HoldersExact hash holders' names' := by
  intro v m
  rw [hn]
  cases hf : holders.find? (hash n) with
  | none =>
    simp only [claim, hf, Except.ok.injEq] at h
    subst h
    rw [Table.find?_insert]
    by_cases hv : hash n = v
    · subst hv
      have hno : ¬(m ∈ names ∧ hash m = hash n) := by
        intro hm
        have := (hx _ m).2 hm
        simp [hf] at this
      simp only [↓reduceIte, Option.some.injEq]
      constructor
      · rintro rfl
        exact ⟨.inl rfl, rfl⟩
      · rintro ⟨rfl | hm, hv⟩
        · rfl
        · exact absurd ⟨hm, hv⟩ hno
    · rw [if_neg hv, hx]
      constructor
      · rintro ⟨hm, hmv⟩
        exact ⟨.inr hm, hmv⟩
      · rintro ⟨rfl | hm, hmv⟩
        · exact absurd hmv hv
        · exact ⟨hm, hmv⟩
  | some holder =>
    by_cases hh : holder = n
    · subst hh
      simp only [claim, hf, ↓reduceIte, Except.ok.injEq] at h
      subst h
      rw [hx]
      have hmem := ((hx _ _).1 hf).1
      constructor
      · rintro ⟨hm, hmv⟩
        exact ⟨.inr hm, hmv⟩
      · rintro ⟨rfl | hm, hmv⟩
        · exact ⟨hmem, hmv⟩
        · exact ⟨hm, hmv⟩
    · simp [claim, hf, hh] at h

/-- A refused claim names the holder of the number. -/
theorem claim_error (hx : HoldersExact hash holders names) {e : Failure}
    (h : claim hash kind holders n = .error e) :
    ∃ m ∈ names, m ≠ n ∧ hash m = hash n ∧ e = .collision kind ⟨m, n, hash n⟩ := by
  cases hf : holders.find? (hash n) with
  | none => simp [claim, hf] at h
  | some holder =>
    obtain ⟨hm, hv⟩ := (hx _ _).1 hf
    by_cases hh : holder = n
    · simp [claim, hf, hh] at h
    · simp only [claim, hf, hh, ↓reduceIte, Except.error.injEq] at h
      exact ⟨holder, hm, hh, hv, h.symm⟩

end HoldersExact

/-- What inserts keep. -/
structure Sound (r : Registry) : Prop where
  class_type : ∀ c ∈ r.classes.items, c.type.qualifiedName ∈ r.types.keys
  enum_type : ∀ e ∈ r.enums.items, e.type.qualifiedName ∈ r.types.keys
  alias_type : ∀ a ∈ r.aliases.items, a.type.qualifiedName ∈ r.types.keys
  type_holders : HoldersExact r.hash r.typeHolders r.types.keys
  function_holders : HoldersExact r.hash r.functionHolders r.functions.keys
  fields : ∀ c ∈ r.classes.items, r.hash.Separates (c.fields.map (·.name))
  methods : ∀ c ∈ r.classes.items, r.hash.Separates (c.methods.map (·.name))

theorem sound_empty (hash : NameHash) : (empty hash).Sound where
  class_type := by simp [empty]
  enum_type := by simp [empty]
  alias_type := by simp [empty]
  type_holders := .empty
  function_holders := .empty
  fields := by simp [empty]
  methods := by simp [empty]

section inserts
variable {r r' : Registry}

theorem addType_ok {t : CppType} (h : r.addType t = .ok r') :
    ∃ holders, claim r.hash .type r.typeHolders t.qualifiedName = .ok holders ∧
      r' = { r with types := r.types.insert t, typeHolders := holders } := by
  unfold addType at h
  cases hc : claim r.hash .type r.typeHolders t.qualifiedName with
  | error e =>
    rw [hc] at h
    cases h
  | ok holders =>
    rw [hc] at h
    cases h
    exact ⟨holders, rfl, rfl⟩

theorem ensureType_ok {t : CppType} (h : r.ensureType t = .ok r') :
    (t.qualifiedName ∈ r.types.keys ∧ r' = r) ∨
      (t.qualifiedName ∉ r.types.keys ∧ r.addType t = .ok r') := by
  unfold ensureType at h
  split at h
  · next hc =>
    cases h
    exact .inl ⟨Catalog.contains_iff.1 hc, rfl⟩
  · next hc => exact .inr ⟨fun hk => hc (Catalog.contains_iff.2 hk), h⟩

/-- Ensuring a type touches nothing but the types and their numbers. -/
theorem ensureType_frame {t : CppType} (h : r.ensureType t = .ok r') :
    ∃ types holders, r' = { r with types := types, typeHolders := holders } ∧
      ∀ n, n ∈ types.keys ↔ n = t.qualifiedName ∨ n ∈ r.types.keys := by
  obtain ⟨hk, rfl⟩ | ⟨-, hadd⟩ := ensureType_ok h
  · refine ⟨r'.types, r'.typeHolders, rfl, fun n => ?_⟩
    constructor
    · exact .inr
    · rintro (rfl | hn)
      · exact hk
      · exact hn
  · obtain ⟨holders, -, rfl⟩ := addType_ok hadd
    exact ⟨_, _, rfl, fun n => Catalog.mem_keys_insert⟩

theorem requireDistinct_ok {kind : NameKind} {names : List String}
    (h : r.requireDistinct kind names = .ok ()) : r.hash.Separates names := by
  unfold requireDistinct at h
  cases hc : r.hash.collision? names with
  | none => exact NameHash.collision?_eq_none_iff.1 hc
  | some c => simp [hc] at h

theorem requireDistinct_of_separates {kind : NameKind} {names : List String}
    (h : r.hash.Separates names) : r.requireDistinct kind names = .ok () := by
  rw [requireDistinct, NameHash.collision?_eq_none_iff.2 h]

theorem addClass_ok {c : ClassRecord} (h : r.addClass c = .ok r') :
    r.hash.Separates (c.fields.map (·.name)) ∧ r.hash.Separates (c.methods.map (·.name)) ∧
      ∃ s, r.ensureType c.type = .ok s ∧ r' = { s with classes := s.classes.insert c } := by
  unfold addClass at h
  cases hf : r.requireDistinct .field (c.fields.map (·.name)) with
  | error e => simp [hf, bind, Except.bind] at h
  | ok _ =>
    cases hm : r.requireDistinct .method (c.methods.map (·.name)) with
    | error e => simp [hf, hm, bind, Except.bind] at h
    | ok _ =>
      cases hs : r.ensureType c.type with
      | error e => simp [hf, hm, hs, bind, Except.bind] at h
      | ok s =>
        rw [hf, hm, hs] at h
        cases h
        exact ⟨requireDistinct_ok hf, requireDistinct_ok hm, s, rfl, rfl⟩

theorem addEnum_ok {e : EnumRecord} (h : r.addEnum e = .ok r') :
    ∃ s, r.ensureType e.type = .ok s ∧ r' = { s with enums := s.enums.insert e } := by
  unfold addEnum at h
  cases hs : r.ensureType e.type with
  | error e => simp [hs, bind, Except.bind] at h
  | ok s =>
    rw [hs] at h
    cases h
    exact ⟨s, rfl, rfl⟩

theorem addAlias_ok {a : AliasRecord} (h : r.addAlias a = .ok r') :
    ∃ s, r.ensureType a.type = .ok s ∧ r' = { s with aliases := s.aliases.insert a } := by
  unfold addAlias at h
  cases hs : r.ensureType a.type with
  | error e => simp [hs, bind, Except.bind] at h
  | ok s =>
    rw [hs] at h
    cases h
    exact ⟨s, rfl, rfl⟩

theorem addFunction_ok {f : FunctionRecord} (h : r.addFunction f = .ok r') :
    ∃ holders, claim r.hash .function r.functionHolders f.qualifiedName = .ok holders ∧
      r' = { r with functions := r.functions.insert f, functionHolders := holders } := by
  unfold addFunction at h
  cases hc : claim r.hash .function r.functionHolders f.qualifiedName with
  | error e =>
    rw [hc] at h
    cases h
  | ok holders =>
    rw [hc] at h
    cases h
    exact ⟨holders, rfl, rfl⟩

end inserts

namespace Sound
variable {r r' : Registry}

theorem addType (hr : r.Sound) {t : CppType} (h : r.addType t = .ok r') : r'.Sound := by
  obtain ⟨holders, hc, rfl⟩ := addType_ok h
  have hmem : ∀ n, n ∈ (r.types.insert t).keys ↔ n = t.qualifiedName ∨ n ∈ r.types.keys :=
    fun n => Catalog.mem_keys_insert
  exact {
    class_type := fun c hc => (hmem _).2 (.inr (hr.class_type c hc))
    enum_type := fun e he => (hmem _).2 (.inr (hr.enum_type e he))
    alias_type := fun a ha => (hmem _).2 (.inr (hr.alias_type a ha))
    type_holders := hr.type_holders.claim_ok hc hmem
    function_holders := hr.function_holders
    fields := hr.fields
    methods := hr.methods }

/-- Once a type is ensured, it is registered. -/
theorem ensureType (hr : r.Sound) {t : CppType} (h : r.ensureType t = .ok r') :
    r'.Sound ∧ t.qualifiedName ∈ r'.types.keys ∧ r'.hash = r.hash := by
  have hsound : r'.Sound := by
    obtain ⟨-, rfl⟩ | ⟨-, hadd⟩ := ensureType_ok h
    · exact hr
    · exact hr.addType hadd
  obtain ⟨types, holders, rfl, hk⟩ := ensureType_frame h
  exact ⟨hsound, (hk _).2 (.inl rfl), rfl⟩

theorem addClass (hr : r.Sound) {c : ClassRecord} (h : r.addClass c = .ok r') : r'.Sound := by
  obtain ⟨hf, hm, s, hs, rfl⟩ := addClass_ok h
  obtain ⟨hsound, hk, hhash⟩ := hr.ensureType hs
  have hall : ∀ {P : ClassRecord → Prop}, (∀ d ∈ s.classes.items, P d) → P c →
      ∀ d ∈ (s.classes.insert c).items, P d := by
    intro P hP hc d hd
    rcases Catalog.mem_items_insert.1 hd with rfl | ⟨hd, -⟩
    · exact hc
    · exact hP d hd
  exact {
    class_type := hall hsound.class_type hk
    enum_type := hsound.enum_type
    alias_type := hsound.alias_type
    type_holders := hsound.type_holders
    function_holders := hsound.function_holders
    fields := hall hsound.fields (hhash ▸ hf)
    methods := hall hsound.methods (hhash ▸ hm) }

theorem addEnum (hr : r.Sound) {e : EnumRecord} (h : r.addEnum e = .ok r') : r'.Sound := by
  obtain ⟨s, hs, rfl⟩ := addEnum_ok h
  obtain ⟨hsound, hk, -⟩ := hr.ensureType hs
  refine { hsound with enum_type := ?_ }
  intro d hd
  rcases Catalog.mem_items_insert.1 hd with rfl | ⟨hd, -⟩
  · exact hk
  · exact hsound.enum_type d hd

theorem addAlias (hr : r.Sound) {a : AliasRecord} (h : r.addAlias a = .ok r') : r'.Sound := by
  obtain ⟨s, hs, rfl⟩ := addAlias_ok h
  obtain ⟨hsound, hk, -⟩ := hr.ensureType hs
  refine { hsound with alias_type := ?_ }
  intro d hd
  rcases Catalog.mem_items_insert.1 hd with rfl | ⟨hd, -⟩
  · exact hk
  · exact hsound.alias_type d hd

theorem addFunction (hr : r.Sound) {f : FunctionRecord} (h : r.addFunction f = .ok r') :
    r'.Sound := by
  obtain ⟨holders, hc, rfl⟩ := addFunction_ok h
  exact { hr with
    function_holders := hr.function_holders.claim_ok hc fun _ => Catalog.mem_keys_insert }

end Sound
end Introspect.Registry
