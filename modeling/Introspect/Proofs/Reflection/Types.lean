import Introspect.Proofs.Reflection.Growth
import Introspect.Proofs.Registry.Soundness

/-! Resolving a type records it with its template arguments, and nothing else. -/
namespace Introspect.Reflection
open Relation

section origins
variable {u : CompilationUnit} {p : Progress} {t : CppType} {holders : Table Int String}
  {origin : Option CursorId}

theorem TypeSource.named {d : CursorId} (h : TypeSource u p t (some d)) :
    Origin u t.qualifiedName d := by
  generalize ho : some d = origin at h
  cases h with
  | type _ =>
    rw [CppType.qualifiedName, CppType.id_build, text_nameOf]
    exact .type ho.symm
  | template hd _ =>
    obtain rfl := Option.some.inj ho
    rw [CppType.qualifiedName, CppType.id_build, ← hd.declaredName_eq]
    exact .template hd

theorem TypeSource.arguments_mem {t : CppType} {origin : Option CursorId}
    (h : TypeSource u p t origin) : ∀ a ∈ t.arguments, a ∈ p.registry.types.items := by
  cases h with
  | type has =>
    rw [CppType.arguments_build]
    intro a ha
    obtain ⟨j, -, hj⟩ := exists_of_forall₂ has ha
    exact Catalog.mem_of_find? hj
  | template _ has =>
    rw [CppType.arguments_build]
    intro a ha
    obtain ⟨x, -, i, -, hi⟩ := exists_of_forall₂ has ha
    exact Catalog.mem_of_find? hi

theorem find?_origins_withType (p : Progress) {n : String} (hn : t.qualifiedName ≠ n) :
    (p.withType t holders origin).origins.find? n = p.origins.find? n := by
  cases origin with
  | none => rfl
  | some d => simp only [Progress.withType, Table.find?_insert, if_neg hn]

theorem OriginsNamed.withType (hp : OriginsNamed u p) (ht : TypeSource u p t origin) :
    OriginsNamed u (p.withType t holders origin) := by
  intro n d hd
  by_cases hn : t.qualifiedName = n
  · subst hn
    cases origin with
    | none => exact hp _ d hd
    | some e =>
      simp only [Progress.withType, Table.find?_insert, if_true, Option.some.injEq] at hd
      exact hd ▸ ht.named
  · rw [find?_origins_withType p hn] at hd
    exact hp n d hd

theorem GenericTypes.withType (hp : GenericTypes u p) (ht : TypeSource u p t origin) :
    GenericTypes u (p.withType t holders origin) := by
  intro s hs hgeneric
  rcases Catalog.mem_items_insert.1 hs with rfl | ⟨hs, hne⟩
  · cases ht with
    | @type i as =>
      cases as <;> simp [CppType.build, CppType.isGeneric, CppType.template?] at hgeneric
    | @template e as he has =>
      have hname : (CppType.build (templateId u (u.cursor e)) .record .generic as).qualifiedName =
          declaredName u e := by
        rw [CppType.qualifiedName, CppType.id_build, he.declaredName_eq]
      refine ⟨e, he, hname, ?_, ?_⟩
      · rw [CppType.arguments_build]
        exact has.length_eq.symm
      · simp only [Progress.withType, Table.find?_insert, if_true]
  · obtain ⟨e, he, hname, hlength, horigin⟩ := hp s hs hgeneric
    exact ⟨e, he, hname, hlength, (find?_origins_withType p hne.symm).trans horigin⟩

end origins

namespace Resolves
variable {u : CompilationUnit} {p q r : Progress}

theorem refl (p : Progress) : Resolves u p p :=
  ⟨⟨_, _, _, rfl⟩, fun _ _ h => h, fun _ _ _ _ h => h, id, id, fun _ => id⟩

theorem trans (hpq : Resolves u p q) (hqr : Resolves u q r) : Resolves u p r where
  frame := by
    obtain ⟨_, _, _, rfl⟩ := hpq.frame
    obtain ⟨_, _, _, rfl⟩ := hqr.frame
    exact ⟨_, _, _, rfl⟩
  types n t h := hqr.types n t (hpq.types n t h)
  origins n t d ht h := hqr.origins n t d (hpq.types n t ht) (hpq.origins n t d ht h)
  named h := hqr.named (hpq.named h)
  generic h := hqr.generic (hpq.generic h)
  closed hu h := hqr.closed hu (hpq.closed hu h)

theorem grows (h : Resolves u p q) : Grows p q := .of_resolves h

theorem classes_eq (h : Resolves u p q) : q.registry.classes = p.registry.classes := by
  obtain ⟨_, _, _, rfl⟩ := h.frame
  rfl

/-- A type comes in after its arguments. It is new to the progress before them, but may have the
name of one of them, unless names are apart. -/
theorem withType {t : CppType} {holders : Table Int String} {origin : Option CursorId}
    (h : Resolves u p q) (hsource : TypeSource u q t origin)
    (hnew : t.qualifiedName ∉ p.registry.types.keys)
    (hapart : NamesApart u → t.qualifiedName ∉ q.registry.types.keys) :
    Resolves u p (q.withType t holders origin) where
  frame := by
    obtain ⟨_, _, _, rfl⟩ := h.frame
    exact ⟨_, _, _, rfl⟩
  types n s hs := by
    have hne : t.qualifiedName ≠ n := fun he => hnew (he ▸ Catalog.mem_keys_of_find? hs)
    simp only [Progress.withType, Catalog.find?_insert, if_neg hne, h.types n s hs]
  origins n s d hs hd := by
    have hne : t.qualifiedName ≠ n := fun he => hnew (he ▸ Catalog.mem_keys_of_find? hs)
    rw [find?_origins_withType q hne]
    exact h.origins n s d hs hd
  named hp := (h.named hp).withType hsource
  generic hp := (h.generic hp).withType hsource
  closed hu hp := by
    have hq := h.closed hu hp
    have hmono : ∀ s ∈ q.registry.types.items, s ∈ (q.registry.types.insert t).items := by
      intro s hs
      refine Catalog.mem_items_insert.2 (.inr ⟨hs, ?_⟩)
      exact fun he => hapart hu (he ▸ Catalog.key_mem_keys hs)
    intro s hs a ha
    rcases Catalog.mem_items_insert.1 hs with rfl | ⟨hs, -⟩
    · exact hmono a (hsource.arguments_mem a ha)
    · exact hmono a (hq s hs a ha)

end Resolves

/-- Types came in under the given names only. -/
structure ResolvesNamed (u : CompilationUnit) (names : String → Prop) (p q : Progress) : Prop where
  resolves : Resolves u p q
  names : ∀ n ∈ q.registry.types.keys, n ∈ p.registry.types.keys ∨ names n

namespace ResolvesNamed
variable {u : CompilationUnit} {names names' : String → Prop} {p q r : Progress}

theorem refl (p : Progress) : ResolvesNamed u names p p := ⟨.refl p, fun _ h => .inl h⟩

theorem trans (hpq : ResolvesNamed u names p q) (hqr : ResolvesNamed u names q r) :
    ResolvesNamed u names p r where
  resolves := hpq.resolves.trans hqr.resolves
  names n hn := by
    rcases hqr.names n hn with hn | hn
    · exact hpq.names n hn
    · exact .inr hn

theorem mono (h : ResolvesNamed u names p q) (hnames : ∀ n, names n → names' n) :
    ResolvesNamed u names' p q :=
  ⟨h.resolves, fun n hn => (h.names n hn).imp_right (hnames n)⟩

end ResolvesNamed

/-- The name of a type or of a template argument in it. -/
def NamedWithin (u : CompilationUnit) (i : TypeId) (n : String) : Prop :=
  ∃ j, ReflTransGen (IsArgument u) i j ∧ n = recordedName u j

section specs
variable {u : CompilationUnit} {p : Progress}

theorem addType_spec {t : CppType} {n : String} (hn : t.qualifiedName = n)
    (origin : Option CursorId) :
    Yields (do
      Walk.update fun r => r.addType t
      recordOrigin n origin
      return t) p fun a q => a = t ∧ ∃ holders, q = p.withType t holders origin := by
  subst hn
  refine yields_bind (R := fun _ q => ∃ holders, q =
    { p with registry := { p.registry with
        types := p.registry.types.insert t, typeHolders := holders } }) ?_ ?_
  · apply yields_update
    intro r hr
    obtain ⟨holders, -, rfl⟩ := Registry.addType_ok hr
    exact ⟨holders, rfl⟩
  · rintro - q ⟨holders, rfl⟩
    refine yields_bind (R := fun _ q => q = p.withType t holders origin) ?_ ?_
    · cases origin with
      | none => exact yields_pure rfl
      | some d => exact yields_modify rfl
    · rintro - q rfl
      exact yields_pure ⟨rfl, holders, rfl⟩

theorem withType_find? (p : Progress) (t : CppType) (holders : Table Int String)
    (origin : Option CursorId) :
    (p.withType t holders origin).registry.types.find? t.qualifiedName = some t := by
  simp only [Progress.withType, Catalog.find?_insert, if_true]

theorem withType_names (p : Progress) (t : CppType) (holders : Table Int String)
    (origin : Option CursorId) {n : String}
    (hn : n ∈ (p.withType t holders origin).registry.types.keys) :
    n = t.qualifiedName ∨ n ∈ p.registry.types.keys :=
  Catalog.mem_keys_insert.1 hn

/-- The template arguments of a type come in, and nothing under its own name unless one of them has
it. -/
theorem arguments_spec {argument : TypeId → Walk CppType}
    (h : ∀ j p, Yields (argument j) p fun t q =>
      ResolvesNamed u (NamedWithin u j) p q ∧ Resolved u q j t) (i : TypeId) :
    Yields ((underlying u (u.type (unwrap u i))).arguments.mapM argument) p fun as q =>
      ResolvesNamed u (fun n => ∃ j, TransGen (IsArgument u) i j ∧ n = recordedName u j) p q ∧
        List.Forall₂ (Resolved u q) (underlying u (u.type (unwrap u i))).arguments as := by
  refine yields_mapM (R := Resolved u) .refl .trans (fun h ht => h.resolves.types _ _ ht) ?_
  intro j hj p' _
  refine (h j p').mono ?_
  rintro t q' ⟨hq', ht⟩
  refine ⟨hq'.mono ?_, ht⟩
  rintro _ ⟨k, hjk, rfl⟩
  exact ⟨k, .head' hj hjk, rfl⟩

/-- Where names are apart, the name of a type is free still when its arguments have come in. -/
theorem ResolvesNamed.free {q : Progress} {i : TypeId}
    (h : ResolvesNamed u (fun n => ∃ j, TransGen (IsArgument u) i j ∧ n = recordedName u j) p q)
    (hnew : recordedName u i ∉ p.registry.types.keys) (hu : NamesApart u) :
    recordedName u i ∉ q.registry.types.keys := by
  intro hmem
  rcases h.names _ hmem with hmem | ⟨j, hij, he⟩
  · exact hnew hmem
  · exact hu.types i j hij he.symm

theorem qualifiedName_build (i : TypeId) (arguments : List CppType) :
    (CppType.build (nameOf u (u.type (unwrap u i)))
      (classify (underlying u (u.type (unwrap u i)))) .specialized arguments).qualifiedName =
        recordedName u i := by
  rw [CppType.qualifiedName, CppType.id_build, text_nameOf]

theorem resolveWithin_spec (n : Nat) (i : TypeId) :
    Yields (resolveWithin u n i) p fun t q =>
      ResolvesNamed u (NamedWithin u i) p q ∧ Resolved u q i t := by
  induction n generalizing p i with
  | zero => exact yields_throw
  | succ n ih =>
    rw [resolveWithin, resolveWith]
    refine yields_bind (R := fun r q => q = p ∧ r = p.registry) (yields_registry ⟨rfl, rfl⟩) ?_
    rintro r q ⟨rfl, rfl⟩
    rw [text_nameOf]
    split
    · next known hknown => exact yields_pure ⟨.refl q, hknown⟩
    · next hnone =>
      -- the arguments come in first
      refine yields_bind (arguments_spec (fun j _ => ih j) i) ?_
      rintro arguments q' ⟨hq', hargs⟩
      have hname := qualifiedName_build (u := u) i arguments
      have hnew := Catalog.find?_eq_none_iff.1 hnone
      refine (addType_spec hname _).mono ?_
      rintro t q'' ⟨rfl, holders, rfl⟩
      refine ⟨⟨hq'.resolves.withType (.type hargs) (hname ▸ hnew) fun hu =>
        hname ▸ hq'.free hnew hu, ?_⟩, ?_⟩
      · intro m hm
        rcases withType_names q' _ _ _ hm with rfl | hm
        · exact .inr ⟨i, .refl, hname⟩
        · refine (hq'.names m hm).imp_right ?_
          rintro ⟨j, hij, rfl⟩
          exact ⟨j, hij.to_reflTransGen, rfl⟩
      · rw [Resolved, ← hname]
        exact withType_find? q' _ _ _

theorem resolveType_spec (i : TypeId) :
    Yields (resolveType u i) p fun t q =>
      ResolvesNamed u (NamedWithin u i) p q ∧ Resolved u q i t :=
  resolveWithin_spec _ i

theorem resolveUse_spec (i : TypeId) :
    Yields (resolveUse u i) p fun v q => Resolves u p q ∧ ResolvedUse u q i v := by
  refine yields_bind (resolveType_spec i) ?_
  rintro t q ⟨hq, ht⟩
  exact yields_pure ⟨hq.resolves, t, ht, rfl⟩

theorem resolveTyped_spec (x : CursorId) :
    Yields (resolveTyped u (u.cursor x)) p fun t q =>
      ResolvedCursor u q x t ∧ ∀ i, (u.cursor x).type = some i →
        ResolvesNamed u (NamedWithin u i) p q := by
  unfold resolveTyped
  split
  · next i hi =>
    refine (resolveType_spec i).mono ?_
    rintro t q ⟨hq, ht⟩
    refine ⟨⟨i, hi, ht⟩, ?_⟩
    rintro j hj
    obtain rfl := Option.some.inj (hi.symm.trans hj)
    exact hq
  · exact yields_throw

/-- The parameters of a class template come in. -/
theorem parameters_spec (d : CursorId) :
    Yields ((u.templateParameters (u.cursor d)).mapM fun x => resolveTyped u (u.cursor x)) p
      fun as q =>
        ResolvesNamed u (fun n => ∃ j, IsParameter u d j ∧ n = recordedName u j) p q ∧
          List.Forall₂ (ResolvedCursor u q) (u.templateParameters (u.cursor d)) as := by
  refine yields_mapM (R := ResolvedCursor u) .refl .trans
    (fun h ht => ht.grows h.resolves.grows) ?_
  intro x hx p' _
  refine (resolveTyped_spec x).mono ?_
  rintro t q' ⟨⟨i, hi, ht⟩, hq'⟩
  refine ⟨(hq' i hi).mono ?_, i, hi, ht⟩
  rintro _ ⟨j, hij, rfl⟩
  exact ⟨j, ⟨x, hx, i, hi, hij⟩, rfl⟩

/-- Where names are apart, the name of a class template is free still when its parameters have come
in. -/
theorem ResolvesNamed.free_template {q : Progress} {d : CursorId}
    (h : ResolvesNamed u (fun n => ∃ j, IsParameter u d j ∧ n = recordedName u j) p q)
    (hd : IsTemplate u d) (hnew : declaredName u d ∉ p.registry.types.keys) (hu : NamesApart u) :
    declaredName u d ∉ q.registry.types.keys := by
  intro hmem
  rcases h.names _ hmem with hmem | ⟨j, hj, he⟩
  · exact hnew hmem
  · exact hu.templates d hd j hj he.symm

theorem IsTemplate.qualifiedName_build {d : CursorId} (hd : IsTemplate u d)
    (arguments : List CppType) :
    (CppType.build (templateId u (u.cursor d)) .record .generic arguments).qualifiedName =
      declaredName u d := by
  rw [CppType.qualifiedName, CppType.id_build, hd.declaredName_eq]

/-- The type of a declaration is resolved, and a class template is recorded with its parameters. -/
theorem resolveCursor_spec (d : CursorId) :
    Yields (resolveCursor u d) p fun t q =>
      Resolves u p q ∧ q.registry.types.find? (declaredName u d) = some t := by
  unfold resolveCursor
  dsimp only
  split
  · refine (resolveTyped_spec d).mono ?_
    rintro t q ⟨⟨i, hi, ht⟩, hq⟩
    rw [declaredName_of_type hi]
    exact ⟨(hq i hi).resolves, ht⟩
  · next hcond =>
    have hd : IsTemplate u d := by simpa [IsTemplate] using hcond
    have hid : (templateId u (u.cursor d)).text = declaredName u d := hd.declaredName_eq.symm
    rw [templateId] at hid
    rw [hid]
    refine yields_bind (R := fun r q => q = p ∧ r = p.registry) (yields_registry ⟨rfl, rfl⟩) ?_
    rintro r q ⟨rfl, rfl⟩
    split
    · next known hknown => exact yields_pure ⟨.refl q, hknown⟩
    · next hnone =>
      -- so do the parameters
      refine yields_bind (parameters_spec d) ?_
      rintro arguments q' ⟨hq', hargs⟩
      have hname := hd.qualifiedName_build arguments
      have hnew := Catalog.find?_eq_none_iff.1 hnone
      refine (addType_spec hname (some d)).mono ?_
      rintro t q'' ⟨rfl, holders, rfl⟩
      refine ⟨hq'.resolves.withType (.template hd hargs) (hname ▸ hnew) fun hu =>
        hname ▸ hq'.free_template hd hnew hu, ?_⟩
      rw [← hname]
      exact withType_find? q' _ _ _

end specs
end Introspect.Reflection
