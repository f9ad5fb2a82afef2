import Introspect.Proofs.Reflection.Bodies
import Introspect.Proofs.Registry.History

/-! Walks that come to an end: they succeed, or they fail with an error of reflection, and no
recursion goes on without end. -/
namespace Introspect.Reflection
open Relation

/-! ## Rules -/

/-- Started from `p`, the walk fails in such ways only. -/
def Fails {α : Type} (P : Failure → Prop) (m : Walk α) (p : Progress) : Prop :=
  ∀ e q, m.run p = .error e q → P e

/-- Started from `p`, the walk succeeds or fails with an error of reflection. -/
def Ends {α : Type} (m : Walk α) (p : Progress) : Prop :=
  ∀ e q, m.run p = .error e q → e.isReflection

section rules
variable {α β : Type} {P : Failure → Prop} {p : Progress} {m : Walk α}

theorem fails_pure {a : α} : Fails P (pure a) p := by
  intro e q hrun
  cases hrun

theorem fails_bind {f : α → Walk β} (hm : Fails P m p)
    (hf : ∀ a q, m.run p = .ok a q → Fails P (f a) q) : Fails P (m >>= f) p := by
  intro e q hrun
  rw [EStateM.run_bind] at hrun
  cases hfirst : m.run p with
  | error e' q' =>
    rw [hfirst] at hrun
    cases hrun
    exact hm e q hfirst
  | ok a q' =>
    rw [hfirst] at hrun
    exact hf a q' hfirst e q hrun

theorem fails_modify {f : Progress → Progress} : Fails P (modify f) p := by
  intro e q hrun
  cases hrun

theorem fails_registry : Fails P Walk.registry p := by
  intro e q hrun
  cases hrun

theorem fails_update {f : Registry → Except Failure Registry}
    (h : ∀ e, f p.registry = .error e → P e) : Fails P (Walk.update f) p := by
  intro e q hrun
  simp only [Walk.update, EStateM.run_bind, EStateM.run_get] at hrun
  cases hf : f p.registry with
  | error e' =>
    rw [hf] at hrun
    cases hrun
    exact h e hf
  | ok r =>
    rw [hf] at hrun
    cases hrun

theorem fails_mapM {f : α → Walk β} {l : List α} (hf : ∀ a ∈ l, ∀ q, Fails P (f a) q) :
    Fails P (l.mapM f) p := by
  induction l generalizing p with
  | nil => exact fails_pure
  | cons a l ih =>
    rw [List.mapM_cons]
    refine fails_bind (hf a (List.mem_cons_self ..) p) fun b q _ => ?_
    exact fails_bind (ih fun a ha => hf a (List.mem_cons_of_mem _ ha)) fun _ _ _ => fails_pure

theorem ends_pure {a : α} : Ends (pure a) p := fails_pure

theorem ends_throw {e : Failure} (h : e.isReflection) : Ends (throw e : Walk α) p := by
  intro e' q hrun
  cases hrun
  exact h

theorem ends_bind {f : α → Walk β} (hm : Ends m p)
    (hf : ∀ a q, m.run p = .ok a q → Ends (f a) q) : Ends (m >>= f) p :=
  fails_bind hm hf

theorem ends_get : Ends (get : Walk Progress) p := by
  intro e q hrun
  cases hrun

theorem ends_modify {f : Progress → Progress} : Ends (modify f) p := fails_modify

theorem ends_registry : Ends Walk.registry p := fails_registry

theorem ends_update {f : Registry → Except Failure Registry}
    (h : ∀ e, f p.registry = .error e → e.isReflection) : Ends (Walk.update f) p :=
  fails_update h

theorem ends_mapM {f : α → Walk β} {l : List α} (hf : ∀ a ∈ l, ∀ q, Ends (f a) q) :
    Ends (l.mapM f) p :=
  fails_mapM hf

/-- Every item is done wherever the ones before it lead. -/
theorem ends_foldlM {I : List α → β → Progress → Prop} {f : β → α → Walk β} {l : List α}
    (hf : ∀ done, ∀ a ∈ l, ∀ b q, I done b q → Ends (f b a) q ∧ Yields (f b a) q (I (done ++ [a])))
    {b : β} (hb : I [] b p) : Ends (l.foldlM f b) p := by
  have hgen : ∀ (todo : List α) done b p, (∀ a ∈ todo, a ∈ l) → I done b p →
      Ends (todo.foldlM f b) p := by
    intro todo
    induction todo with
    | nil => exact fun _ _ _ _ _ => ends_pure
    | cons a todo ih =>
      intro done b p hmem hb
      obtain ⟨hends, hyields⟩ := hf done a (hmem a (List.mem_cons_self ..)) b p hb
      rw [List.foldlM_cons]
      refine ends_bind hends fun b q hrun => ?_
      exact ih (done ++ [a]) b q (fun a ha => hmem a (List.mem_cons_of_mem _ ha))
        (hyields b q hrun)
  exact hgen l [] b p (fun _ ha => ha) hb

end rules

/-! ## Types -/

/-- No type is among its own template arguments, at any depth. -/
def ArgumentsEnd (u : CompilationUnit) : Prop := ∀ i, ¬ TransGen (IsArgument u) i i

section types
variable {u : CompilationUnit} {p : Progress}

theorem IsArgument.lt_size {i j : TypeId} (h : IsArgument u i j) : i < u.types.size := by
  by_contra hge
  have hunknown := type_of_size_le (Nat.le_of_not_lt hge)
  simp [IsArgument, unwrap, underlying, hunknown, FrontType.unknown] at h

theorem fails_addType {P : Failure → Prop} (hP : ∀ kind c, P (.collision kind c)) {t : CppType} :
    Fails P (Walk.update fun r => r.addType t) p := by
  refine fails_update fun e h => ?_
  obtain ⟨kind, c, rfl⟩ := Insertion.exists_collision_of_error (i := .type t) h
  exact hP kind c

theorem fails_recordOrigin {P : Failure → Prop} {n : String} {d : Option CursorId} :
    Fails P (recordOrigin n d) p := by
  cases d with
  | none => exact fails_pure
  | some d => exact fails_modify

theorem fails_resolveWith {P : Failure → Prop} (hP : ∀ kind c, P (.collision kind c))
    {argument : TypeId → Walk CppType} {i : TypeId}
    (h : ∀ j, IsArgument u i j → ∀ p, Fails P (argument j) p) :
    Fails P (resolveWith u argument i) p := by
  refine fails_bind fails_registry fun r q _ => ?_
  split
  · exact fails_pure
  · refine fails_bind (fails_mapM h) fun as q _ => ?_
    refine fails_bind (fails_addType hP) fun _ q _ => ?_
    exact fails_bind fails_recordOrigin fun _ q _ => fails_pure

/-- The template arguments of a type are not nested deeper than there are types, and only names that
share a number stand in the way of it. -/
theorem fails_resolveType {P : Failure → Prop} (hP : ∀ kind c, P (.collision kind c))
    (hu : ArgumentsEnd u) (i : TypeId) : Fails P (resolveType u i) p := by
  have hfails : ∀ p, Fails P (resolveWithin u (2 * u.types.size + 2) i) p := by
    refine depth_induction (S := Finset.range u.types.size)
      (P := fun n i => ∀ p, Fails P (resolveWithin u n i) p)
      (fun i j h => Finset.mem_range.2 h.lt_size) ?_ (fun j _ => hu j) ?_
    · exact fun n i ih p => fails_resolveWith hP ih
    · rw [Finset.card_range]
      omega
  exact hfails p

theorem ends_resolveType (hu : ArgumentsEnd u) (i : TypeId) : Ends (resolveType u i) p :=
  fails_resolveType (fun _ _ => rfl) hu i

theorem ends_resolveUse (hu : ArgumentsEnd u) (i : TypeId) : Ends (resolveUse u i) p :=
  ends_bind (ends_resolveType hu i) fun _ _ _ => ends_pure

theorem ends_resolveTyped (hu : ArgumentsEnd u) (d : Cursor) : Ends (resolveTyped u d) p := by
  unfold resolveTyped
  split
  · exact ends_resolveType hu _
  · exact ends_throw rfl

theorem ends_resolveCursor (hu : ArgumentsEnd u) (d : CursorId) : Ends (resolveCursor u d) p := by
  unfold resolveCursor
  dsimp only
  split
  · exact ends_resolveTyped hu _
  · refine ends_bind ends_registry fun r q _ => ?_
    split
    · exact ends_pure
    · refine ends_bind (ends_mapM fun x _ q => ends_resolveTyped hu _) fun as q _ => ?_
      refine ends_bind (fails_addType fun _ _ => rfl) fun _ q _ => ?_
      exact ends_bind fails_recordOrigin fun _ q _ => ends_pure

theorem ends_signatureOf (hu : ArgumentsEnd u) (d : Cursor) : Ends (signatureOf u d) p := by
  unfold signatureOf
  split
  · refine ends_bind (ends_resolveUse hu _) fun result q _ => ?_
    refine ends_bind (ends_mapM fun x _ q => ?_) fun _ _ _ => ends_pure
    dsimp only
    split
    · exact ends_resolveUse hu _
    · exact ends_throw rfl
  · exact ends_throw rfl

theorem ends_fieldOf (hu : ArgumentsEnd u) (d : Cursor) (m : Metadata) :
    Ends (fieldOf u d m) p := by
  unfold fieldOf
  split
  · exact ends_bind (ends_resolveUse hu _) fun _ _ _ => ends_pure
  · exact ends_throw rfl

theorem ends_methodOf (hu : ArgumentsEnd u) (d : Cursor) (m : Metadata) :
    Ends (methodOf u d m) p :=
  ends_bind (ends_signatureOf hu d) fun _ _ _ => ends_pure

end types

/-! ## Fields from templates -/

section substitution
variable {p : Progress} (ps as : List CppType)

theorem ends_substitute (t : CppType) : Ends (substitute ps as t) p := by
  unfold substitute
  split
  · exact ends_pure
  · exact ends_bind ends_modify fun _ _ _ => ends_pure

theorem ends_substituteUse (v : TypeUse) : Ends (substituteUse ps as v) p :=
  ends_bind (ends_substitute ps as v.type) fun _ _ _ => ends_pure

theorem ends_substituteField (f : Field) : Ends (substituteField ps as f) p := by
  unfold substituteField
  split
  · exact ends_pure
  · exact ends_bind (ends_substituteUse ps as f.use) fun _ _ _ => ends_pure

theorem ends_specializeMethod (type : CppType) (m : Method) : Ends (specializeMethod type m) p := by
  refine ends_bind ends_registry fun r q _ => ?_
  refine ends_bind (ends_substituteUse _ _ m.result) fun result q _ => ?_
  exact ends_bind (ends_mapM fun v _ q => ends_substituteUse _ _ v) fun _ _ _ => ends_pure

theorem ends_genericClass (type : CppType) : Ends (genericClass type) p := by
  refine ends_bind ends_registry fun r q _ => ?_
  split
  · exact ends_pure
  · exact ends_throw rfl

theorem ends_baseInstance? (generic base : ClassRecord) : Ends (baseInstance? generic as base) p := by
  unfold baseInstance?
  split
  · exact ends_pure
  · exact ends_bind (ends_genericClass base.type) fun _ _ _ => ends_pure
  · refine ends_bind ends_get fun r q _ => ?_
    split
    · exact ends_pure
    · exact ends_bind (ends_mapM fun t _ q => ends_substitute _ _ t) fun _ _ _ => ends_pure

end substitution

/-- A harvest has seen recorded templates only, none twice. -/
structure Harvest.Sees (p : Progress) (h : Harvest) : Prop where
  nodup : h.seen.Nodup
  known : h.seen ⊆ p.registry.classes.keys

section harvest
variable {p : Progress} {k : ClassRecord} {as : List CppType} {h : Harvest}

theorem Harvest.Sees.reported {q : Progress} (hh : h.Sees p) (hq : Reported p q) : h.Sees q :=
  ⟨hh.nodup, hq.registry_eq ▸ hh.known⟩

theorem Harvest.Sees.length_le (hh : h.Sees p) : h.seen.length ≤ p.registry.classes.size := by
  have hle := (hh.nodup.subperm hh.known).length_le
  rwa [Catalog.keys, List.length_map] at hle

/-- A template that was not seen is seen from then on. -/
theorem Harvest.Sees.cons (hh : h.Sees p) (hk : k ∈ p.registry.classes.items)
    (hnew : k.qualifiedName ∉ h.seen) (fields : List Field) :
    (Harvest.mk fields (k.qualifiedName :: h.seen)).Sees p :=
  ⟨List.nodup_cons.2 ⟨hnew, hh.nodup⟩, List.cons_subset.2 ⟨Catalog.key_mem_keys hk, hh.known⟩⟩

theorem baseInstance?_mem (k : ClassRecord) (as : List CppType) {base : ClassRecord}
    (hbase : base ∈ p.registry.classes.items) :
    Yields (baseInstance? k as base) p fun o q =>
      Reported p q ∧ ∀ c ∈ o, c.1 ∈ p.registry.classes.items := by
  have hall : Supplies (fun _ => True) p := by constructor <;> simp
  exact (baseInstance?_supplies hall (by simp) hbase).mono
    fun _ _ h => ⟨h.1, fun c hc => (h.2 c hc).1⟩

/-- A harvest sees more and more. -/
theorem harvest_sees (n : Nat) (hk : k ∈ p.registry.classes.items) (hh : h.Sees p) :
    Yields (harvest n k as h) p fun h' q =>
      Reported p q ∧ h'.Sees p ∧ h.seen.length ≤ h'.seen.length := by
  induction n generalizing p k as h with
  | zero => exact yields_throw
  | succ n ih =>
    unfold harvest
    split
    · exact yields_pure ⟨.refl p, hh, Nat.le_refl _⟩
    · next hnew =>
      refine yields_bind (mapM_reported fun f _ q =>
        substituteField_spec k.type.arguments as f) ?_
      rintro own q ⟨hq, rfl⟩
      refine yields_bind (R := fun r q' => q' = q ∧ r = p.registry)
        (yields_registry ⟨rfl, hq.registry_eq⟩) ?_
      rintro r q' ⟨rfl, rfl⟩
      refine yields_foldlM (I := fun _ (h' : Harvest) q =>
        Reported p q ∧ h'.Sees p ∧ h.seen.length ≤ h'.seen.length) ?_
        ⟨hq, hh.cons hk hnew _, Nat.le_succ _⟩
      rintro - base hbase h₁ q₁ ⟨hq₁, hsees, hlength⟩
      refine yields_bind (baseInstance?_mem k as (hq₁.registry_eq ▸ directBases_mem hbase)) ?_
      rintro (_ | ⟨template, bound⟩) q₂ ⟨hq₂, htemplate⟩
      · exact yields_pure ⟨hq₁.trans hq₂, hsees, hlength⟩
      · have hboth := hq₁.trans hq₂
        refine (ih (hq₂.registry_eq ▸ htemplate _ rfl) (hsees.reported hboth)).mono ?_
        rintro h₂ q₃ ⟨hq₃, hsees', hlength'⟩
        exact ⟨hboth.trans hq₃, ⟨hsees'.nodup, hboth.registry_eq ▸ hsees'.known⟩,
          hlength.trans hlength'⟩

/-- The templates that are still to be seen bound the depth of a harvest. -/
theorem ends_harvest (n : Nat) (hk : k ∈ p.registry.classes.items) (hh : h.Sees p)
    (hn : p.registry.classes.size < n + h.seen.length) : Ends (harvest n k as h) p := by
  induction n generalizing p k as h with
  | zero => exact absurd hh.length_le (by omega)
  | succ n ih =>
    unfold harvest
    split
    · exact ends_pure
    · next hnew =>
      refine ends_bind (ends_mapM fun f _ q => ends_substituteField _ _ f) fun own q hrun => ?_
      obtain ⟨hq, -⟩ := mapM_reported (fun f _ q =>
        substituteField_spec k.type.arguments as f) own q hrun
      refine ends_bind ends_registry fun r q' hrun => ?_
      obtain ⟨rfl, rfl⟩ := EStateM.Result.ok.inj hrun
      refine ends_foldlM (I := fun _ (h' : Harvest) q =>
        Reported p q ∧ h'.Sees p ∧ h.seen.length + 1 ≤ h'.seen.length) ?_
        ⟨hq, hh.cons hk hnew _, Nat.le_refl _⟩
      rintro - base hbase h₁ q₁ ⟨hq₁, hsees, hlength⟩
      have hbase₁ : base ∈ q₁.registry.classes.items :=
        hq₁.registry_eq.trans hq.registry_eq.symm ▸ directBases_mem hbase
      have hinstance := baseInstance?_mem k as hbase₁
      constructor
      · refine ends_bind (ends_baseInstance? as k base) fun o q₂ hrun => ?_
        obtain ⟨hq₂, htemplate⟩ := hinstance o q₂ hrun
        have hboth := hq₁.trans hq₂
        cases o with
        | none => exact ends_pure
        | some c =>
          refine ih (hq₂.registry_eq ▸ htemplate c rfl) (hsees.reported hboth) ?_
          rw [hboth.registry_eq]
          omega
      · refine yields_bind hinstance ?_
        rintro (_ | c) q₂ ⟨hq₂, htemplate⟩
        · exact yields_pure ⟨hq₁.trans hq₂, hsees, hlength⟩
        · have hboth := hq₁.trans hq₂
          refine (harvest_sees n (hq₂.registry_eq ▸ htemplate c rfl) (hsees.reported hboth)).mono ?_
          rintro h₂ q₃ ⟨hq₃, hsees', hlength'⟩
          exact ⟨hboth.trans hq₃, ⟨hsees'.nodup, hboth.registry_eq ▸ hsees'.known⟩,
            hlength.trans hlength'⟩

theorem ends_templateFields (hk : k ∈ p.registry.classes.items) :
    Ends (templateFields k as) p := by
  refine ends_bind ends_registry fun r q hrun => ?_
  obtain ⟨rfl, rfl⟩ := EStateM.Result.ok.inj hrun
  refine ends_bind (ends_harvest _ hk ⟨.nil, List.nil_subset _⟩ ?_) fun _ _ _ => ends_pure
  simp only [List.length_nil]
  omega

theorem ends_promotedFields (r : ClassRecord) : Ends (promotedFields r) p := by
  have hgeneric : ∀ t q as, Ends (do templateFields (← genericClass t) as) q := by
    intro t q as
    refine ends_bind (ends_genericClass t) fun k q' hrun => ?_
    obtain ⟨rfl, hk⟩ := genericClass_spec t k q' hrun
    exact ends_templateFields (Catalog.mem_of_find? hk)
  unfold promotedFields
  split
  · exact ends_pure
  · exact hgeneric r.type p _
  · refine ends_bind ends_registry fun s q _ => ?_
    refine ends_foldlM (I := fun _ _ _ => True) (fun _ b _ fs q _ => ⟨?_, fun _ _ _ => trivial⟩)
      trivial
    split
    · exact ends_pure
    · refine ends_bind (ends_genericClass b.type) fun k q' hrun => ?_
      obtain ⟨rfl, hk⟩ := genericClass_spec b.type k q' hrun
      exact ends_bind (ends_templateFields (Catalog.mem_of_find? hk)) fun _ _ _ => ends_pure

theorem ends_finish (r : ClassRecord) : Ends (finish r) p := by
  refine ends_bind (ends_promotedFields r) fun promoted q _ => ?_
  exact ends_bind (ends_update fun _ h => Insertion.isReflection_of_error (i := .class _) h)
    fun _ _ _ => ends_pure

end harvest
end Introspect.Reflection
