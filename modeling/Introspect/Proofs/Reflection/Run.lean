import Introspect.Proofs.Reflection.Classes

/-! Every walk over a unit that does not fail is made of the known changes. -/
namespace Introspect.Reflection
open Relation

section specs
variable {c : Context} {p : Progress}

theorem addEnumerator_type (e : EnumRecord) (x : CursorId) : (addEnumerator c e x).type = e.type := by
  unfold addEnumerator
  dsimp only
  split
  · rfl
  · split <;> rfl

theorem foldl_addEnumerator_type (xs : List CursorId) (e : EnumRecord) :
    (xs.foldl (addEnumerator c) e).type = e.type := by
  induction xs generalizing e with
  | nil => rfl
  | cons x xs ih => rw [List.foldl_cons, ih, addEnumerator_type]

theorem reflectEnum_spec (d : CursorId) (m : Metadata) :
    Yields (reflectEnum c d m) p fun _ q => Steps c p q := by
  refine yields_bind (resolveCursor_spec d) ?_
  rintro type q ⟨hq, htype⟩
  have hsteps : Steps c p q := .single (.enterTypes hq)
  refine yields_bind (R := fun r q' => q' = q ∧ r = q.registry) (yields_registry ⟨rfl, rfl⟩) ?_
  rintro r q' ⟨rfl, rfl⟩
  split
  · exact yields_pure hsteps
  · refine yields_bind (R := fun _ q => Steps c p q) ?_ ?_
    · apply yields_update
      intro r hr
      obtain ⟨s, hs, rfl⟩ := Registry.addEnum_ok hr
      rw [foldl_addEnumerator_type] at hs
      have hmem : type ∈ q'.registry.types.items := Catalog.mem_of_find? htype
      obtain rfl := eq_of_ensureType hmem hs
      refine hsteps.tail (.enterEnum ?_)
      rw [foldl_addEnumerator_type]
      exact hmem
    · exact fun _ _ h => yields_pure h

theorem aliasTargets_spec (hp : OriginsNamed c.unit p) {t : TypeId}
    (ht : ∃ s, (c.unit.type s).canonical = t) (target : CppType) :
    Yields (aliasTargets c t target) p fun o q => Steps c p q ∧
      (∀ n ∈ o.1, n ∈ q.registry.classes.keys) ∧ ∀ n ∈ o.2, n ∈ q.registry.enums.keys := by
  refine yields_bind (R := fun r q => q = p ∧ r = p.registry) (yields_registry ⟨rfl, rfl⟩) ?_
  rintro r q ⟨rfl, rfl⟩
  split
  · next hkind =>
    split
    · next known hknown =>
      refine yields_pure ⟨.refl, ?_, by simp⟩
      simpa using Catalog.key_mem_keys (Catalog.mem_of_find? hknown)
    · split
      · refine yields_bind (reflectClass_records (.typed t) q ⟨ht, .inl hkind⟩ hp) ?_
        rintro r q' ⟨hq', hr, hmem⟩
        refine yields_pure ⟨hq'.steps, ?_, by simp⟩
        simpa [hr] using hmem
      · exact yields_pure ⟨.refl, by simp, by simp⟩
  · refine yields_pure ⟨.refl, by simp, ?_⟩
    intro n hn
    obtain ⟨e, he, rfl⟩ := Option.map_eq_some_iff.1 hn
    exact Catalog.key_mem_keys (Catalog.mem_of_find? he)
  · exact yields_pure ⟨.refl, by simp, by simp⟩

theorem reflectAlias_spec (hp : OriginsNamed c.unit p) (d : CursorId)
    (m : Metadata) : Yields (reflectAlias c d m) p fun _ q => Steps c p q := by
  unfold reflectAlias
  dsimp only
  split
  · next own _ =>
    refine yields_bind (resolveType_spec own) ?_
    rintro type q ⟨⟨hq, -⟩, htype⟩
    have hsteps : Steps c p q := .single (.enterTypes hq)
    refine yields_bind (R := fun r q' => q' = q ∧ r = q.registry) (yields_registry ⟨rfl, rfl⟩) ?_
    rintro r q' ⟨rfl, rfl⟩
    split
    · exact yields_pure hsteps
    · refine yields_bind (resolveType_spec _) ?_
      rintro target q ⟨⟨hq', -⟩, htarget⟩
      have hboth := hsteps.tail (.enterTypes hq')
      refine yields_bind (aliasTargets_spec (hp.steps hboth) ⟨own, rfl⟩ target) ?_
      rintro ⟨targetClass, targetEnum⟩ q'' ⟨hq'', hclass, henum⟩
      have hown := (hq'.grows.trans (.of_steps hq'')).type_mem (Catalog.mem_of_find? htype)
      have htarget' := (Grows.of_steps hq'').type_mem (Catalog.mem_of_find? htarget)
      refine yields_bind (R := fun _ q => Steps c p q) ?_ fun _ _ h => yields_pure h
      apply yields_update
      intro r hr
      obtain ⟨s, hs, rfl⟩ := Registry.addAlias_ok hr
      obtain rfl := eq_of_ensureType hown hs
      exact (hboth.trans hq'').tail (.enterAlias hown htarget' rfl rfl hclass henum)
  · exact yields_throw

theorem reflectFunction_spec (d : CursorId) (m : Metadata) :
    Yields (reflectFunction c d m) p fun _ q => Steps c p q := by
  refine yields_bind (R := fun r q => q = p ∧ r = p.registry) (yields_registry ⟨rfl, rfl⟩) ?_
  rintro r q ⟨rfl, rfl⟩
  split
  · exact yields_pure .refl
  · refine yields_bind (signatureOf_spec _) ?_
    rintro ⟨result, arguments⟩ q' ⟨hq', hsignature⟩
    refine yields_bind (R := fun _ q'' => Steps c q q'') ?_ ?_
    · apply yields_update
      intro r hr
      obtain ⟨holders, -, rfl⟩ := Registry.addFunction_ok hr
      exact .tail (.single (.enterTypes hq')) (.enterFunction hsignature)
    · exact fun _ _ h => yields_pure h

theorem yields_discard {α : Type} {m : Walk α} {Q : Progress → Prop}
    (hm : Yields m p fun _ q => Q q) : Yields (discard m) p fun _ q => Q q :=
  yields_bind hm fun _ _ h => yields_pure h

theorem reflectDeclaration_spec (hp : OriginsNamed c.unit p)
    (d : CursorId) : Yields (reflectDeclaration c d) p fun _ q => Steps c p q := by
  unfold reflectDeclaration
  dsimp only
  split
  · exact yields_pure .refl
  · split
    · exact yields_pure .refl
    · split
      · exact yields_pure .refl
      · next m _ =>
        split
        · next hclass =>
          apply yields_discard
          exact (reflectClass_records (.declared d m) p hclass hp).mono fun _ _ h => h.1.steps
        · split
          · exact yields_discard (reflectEnum_spec d m)
          · split
            · exact yields_discard (reflectAlias_spec hp d m)
            · exact yields_discard (reflectFunction_spec d m)

theorem reflectFrom_spec (n : Nat) (d : CursorId)
    (hp : OriginsNamed c.unit p) : Yields (reflectFrom c n d) p fun _ q => Steps c p q := by
  induction n generalizing p d with
  | zero => exact yields_throw
  | succ n ih =>
    unfold reflectFrom
    dsimp only
    split
    · refine yields_forM (I := fun q => Steps c p q) ?_ .refl
      intro x _ q hq
      exact (ih x (hp.steps hq)).mono fun _ _ h => hq.trans h
    · exact reflectDeclaration_spec hp d

/-- A walk that does not fail is a run of changes. -/
theorem reflect_steps (hp : OriginsNamed c.unit p) {i : CursorId}
    {q : Progress} (hrun : (reflect c i).run p = .ok () q) : Steps c p q :=
  reflectFrom_spec _ i hp () q hrun

/-- So is a walk that starts without records. -/
theorem reflect_steps_start {hash : NameHash} {i : CursorId} {q : Progress}
    (hrun : (reflect c i).run (.start (.empty hash)) = .ok () q) :
    Steps c (.start (.empty hash)) q :=
  reflect_steps (originsNamed_of_steps .refl) hrun

end specs
end Introspect.Reflection
