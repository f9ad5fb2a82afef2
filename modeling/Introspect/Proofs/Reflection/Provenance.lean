import Introspect.Proofs.Reflection.Members

/-! Where registered types come from: each is made of a type of the unit or of a class template,
and the names of its arguments tell which ones. -/
namespace Introspect.Reflection

/-- The type is made of one of the unit, or of a class template. Its arguments have the names of
the arguments there, or of the parameters. -/
inductive Stems (u : CompilationUnit) : CppType → Prop
  | type {i as} :
      List.Forall₂ (fun j (a : CppType) => a.qualifiedName = recordedName u j)
        (underlying u (u.type (unwrap u i))).arguments as →
      Stems u (.build (nameOf u (u.type (unwrap u i))) (classify (underlying u (u.type (unwrap u i))))
        .specialized as)
  | template {d as} : IsTemplate u d →
      List.Forall₂ (fun x (a : CppType) => ∃ i, (u.cursor x).type = some i ∧
        a.qualifiedName = recordedName u i) (u.templateParameters (u.cursor d)) as →
      Stems u (.build (templateId u (u.cursor d)) .record .generic as)

/-- The type is made of one of the unit. -/
def StemsPlainly (u : CompilationUnit) (t : CppType) : Prop := Stems u t ∧ t.isGeneric = false

theorem isGeneric_build_specialized (i : QualifiedName) (k : TypeKind) (as : List CppType) :
    (CppType.build i k .specialized as).isGeneric = false := by
  cases as <;> rfl

theorem TypeSource.stems {u : CompilationUnit} {p : Progress} {t : CppType}
    {origin : Option CursorId} (h : TypeSource u p t origin) : Stems u t := by
  cases h with
  | type has => exact .type (has.imp fun _ _ ha => Catalog.key_of_find? ha)
  | template hd has =>
    refine .template hd (has.imp ?_)
    rintro x a ⟨i, hi, ha⟩
    exact ⟨i, hi, Catalog.key_of_find? ha⟩

/-- Every type that came in satisfies the condition. -/
def Brings (P : CppType → Prop) (p q : Progress) : Prop :=
  ∀ t ∈ q.registry.types.items, t ∈ p.registry.types.items ∨ P t

namespace Brings
variable {P Q : CppType → Prop} {p q r : Progress}

theorem refl (p : Progress) : Brings P p p := fun _ ht => .inl ht

theorem trans (hpq : Brings P p q) (hqr : Brings P q r) : Brings P p r := by
  intro t ht
  rcases hqr t ht with ht | ht
  · exact hpq t ht
  · exact .inr ht

theorem mono (h : Brings P p q) (hPQ : ∀ t, P t → Q t) : Brings Q p q :=
  fun t ht => (h t ht).imp_right (hPQ t)

theorem withType (h : Brings P p q) {t : CppType} (ht : P t) (holders : Table Int String)
    (origin : Option CursorId) : Brings P p (q.withType t holders origin) := by
  intro s hs
  rcases Catalog.mem_items_insert.1 hs with rfl | ⟨hs, -⟩
  · exact .inr ht
  · exact h s hs

end Brings

section specs
variable {u : CompilationUnit} {p : Progress}

theorem resolveWithin_brings (n : Nat) (i : TypeId) :
    Yields (resolveWithin u n i) p fun _ q => Brings (StemsPlainly u) p q := by
  induction n generalizing p i with
  | zero => exact yields_throw
  | succ n ih =>
    rw [resolveWithin, resolveWith]
    refine yields_bind (R := fun r q => q = p ∧ r = p.registry) (yields_registry ⟨rfl, rfl⟩) ?_
    rintro r q ⟨rfl, rfl⟩
    split
    · exact yields_pure (.refl q)
    · refine yields_bind (yields_mapM
        (S := fun p q => Grows p q ∧ Brings (StemsPlainly u) p q) (R := Resolved u)
        (fun p => ⟨.refl p, .refl p⟩) (fun h h' => ⟨h.1.trans h'.1, h.2.trans h'.2⟩)
        (fun h ht => ht.grows h.1) ?_) ?_
      · intro j _ p' _
        refine ((ih j).and (resolveWithin_spec n j)).mono ?_
        rintro t q' ⟨hbrings, hq', ht⟩
        exact ⟨⟨hq'.resolves.grows, hbrings⟩, ht⟩
      · rintro as q' ⟨⟨-, hbrings⟩, has⟩
        have hsource : TypeSource u q' _ _ := .type has
        refine (addType_spec (by rw [CppType.qualifiedName, CppType.id_build]) _).mono ?_
        rintro t q'' ⟨rfl, holders, rfl⟩
        exact hbrings.withType ⟨hsource.stems, isGeneric_build_specialized _ _ _⟩ _ _

theorem resolveType_brings (i : TypeId) :
    Yields (resolveType u i) p fun _ q => Brings (StemsPlainly u) p q :=
  resolveWithin_brings _ i

theorem resolveUse_brings (i : TypeId) :
    Yields (resolveUse u i) p fun _ q => Brings (StemsPlainly u) p q :=
  yields_bind (resolveType_brings i) fun _ _ h => yields_pure h

theorem resolveTyped_brings (d : Cursor) :
    Yields (resolveTyped u d) p fun _ q => Brings (StemsPlainly u) p q := by
  unfold resolveTyped
  split
  · exact resolveType_brings _
  · exact yields_throw

/-- A class template is the only generic type that comes in with it. -/
theorem resolveCursor_brings (d : CursorId) :
    Yields (resolveCursor u d) p fun _ q =>
      Brings (fun t => Stems u t ∧ (t.isGeneric → t.qualifiedName = declaredName u d)) p q := by
  have hplain : ∀ t, StemsPlainly u t →
      Stems u t ∧ (t.isGeneric → t.qualifiedName = declaredName u d) :=
    fun t ht => ⟨ht.1, fun h => absurd h (by simp [ht.2])⟩
  unfold resolveCursor
  dsimp only
  split
  · exact (resolveTyped_brings _).mono fun _ _ h => h.mono hplain
  · next hcond =>
    have hd : IsTemplate u d := by simpa [IsTemplate] using hcond
    refine yields_bind (R := fun r q => q = p ∧ r = p.registry) (yields_registry ⟨rfl, rfl⟩) ?_
    rintro r q ⟨rfl, rfl⟩
    split
    · exact yields_pure (.refl q)
    · refine yields_bind (yields_mapM
        (S := fun p q => Grows p q ∧ Brings (StemsPlainly u) p q) (R := ResolvedCursor u)
        (fun p => ⟨.refl p, .refl p⟩) (fun h h' => ⟨h.1.trans h'.1, h.2.trans h'.2⟩)
        (fun h ht => ht.grows h.1) ?_) ?_
      · intro x _ p' _
        refine ((resolveTyped_brings _).and (resolveTyped_spec x)).mono ?_
        rintro t q' ⟨hbrings, hx, hq'⟩
        obtain ⟨i, hi, -⟩ := id hx
        exact ⟨⟨(hq' i hi).resolves.grows, hbrings⟩, hx⟩
      · rintro as q' ⟨⟨-, hbrings⟩, has⟩
        have hsource : TypeSource u q' _ _ := .template hd has
        refine (addType_spec (by rw [CppType.qualifiedName, CppType.id_build]) (some d)).mono ?_
        rintro t q'' ⟨rfl, holders, rfl⟩
        refine (hbrings.mono hplain).withType ⟨hsource.stems, fun _ => ?_⟩ _ _
        rw [CppType.qualifiedName, CppType.id_build, hd.declaredName_eq]

theorem signatureOf_brings (d : Cursor) :
    Yields (signatureOf u d) p fun _ q => Brings (StemsPlainly u) p q := by
  unfold signatureOf
  split
  · refine yields_bind (resolveUse_brings _) ?_
    intro _ q hq
    refine yields_bind (yields_mapM (S := Brings (StemsPlainly u)) (R := fun _ _ _ => True) .refl
      .trans (fun _ h => h) ?_) ?_
    · intro x _ q' _
      dsimp only
      split
      · exact (resolveUse_brings _).mono fun _ _ h => ⟨h, trivial⟩
      · exact yields_throw
    · rintro _ q' ⟨hq', -⟩
      exact yields_pure (hq.trans hq')
  · exact yields_throw

theorem fieldOf_brings (d : Cursor) (m : Metadata) :
    Yields (fieldOf u d m) p fun _ q => Brings (StemsPlainly u) p q := by
  unfold fieldOf
  split
  · exact yields_bind (resolveUse_brings _) fun _ _ h => yields_pure h
  · exact yields_throw

theorem methodOf_brings (d : Cursor) (m : Metadata) :
    Yields (methodOf u d m) p fun _ q => Brings (StemsPlainly u) p q :=
  yields_bind (signatureOf_brings d) fun _ _ h => yields_pure h

end specs
end Introspect.Reflection
