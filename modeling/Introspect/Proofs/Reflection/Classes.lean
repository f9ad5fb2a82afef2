import Introspect.Proofs.Reflection.Members

/-! Recording a class records everything that it inherits from, and enters the class last. -/
namespace Introspect.Reflection
open Relation

section specs
variable {c : Context} {reflect : Target → Walk ClassRecord} {p : Progress}

theorem members_spec (hreflect : Records c reflect) {start : ClassRecord}
    {flag : Bool} {d : CursorId} (hsource : ClassSource c.unit p start.type flag d)
    (hp : OriginsNamed c.unit p) (hstart : Members c p flag [] start) :
    Yields ((c.unit.cursor d).children.foldlM (addMember c reflect flag) start) p fun r q =>
      Recording c (TransGen (Inherits c.unit) start.qualifiedName) p q ∧ r.type = start.type ∧
        Members c q flag (c.unit.cursor d).children r := by
  refine yields_foldlM (I := fun xs r q =>
    Recording c (TransGen (Inherits c.unit) start.qualifiedName) p q ∧ r.type = start.type ∧
      Members c q flag xs r) ?_ ⟨.refl p, rfl, hstart⟩
  rintro xs x hx r q ⟨hq, htype, hr⟩
  have hname : r.qualifiedName = start.qualifiedName := by
    rw [ClassRecord.qualifiedName, htype, ClassRecord.qualifiedName]
  refine (addMember_spec hreflect (htype ▸ hsource.grows hq.grows) (hp.steps hq.steps) hx
    hr).mono ?_
  rintro r' q' ⟨hq', htype', hr'⟩
  exact ⟨hq.trans (hname ▸ hq'), htype'.trans htype, hr'⟩

theorem eq_of_ensureType {r r' : Registry} {t : CppType} (ht : t ∈ r.types.items)
    (h : r.ensureType t = .ok r') : r' = r := by
  obtain ⟨-, rfl⟩ | ⟨hnew, -⟩ := Registry.ensureType_ok h
  · rfl
  · exact absurd (Catalog.key_mem_keys ht) hnew

/-- The class comes in with the fields that it has from templates. -/
theorem finish_spec {flag : Bool} {d : CursorId} {r : ClassRecord}
    (hsource : ClassSource c.unit p r.type flag d)
    (hr : Members c p flag (c.unit.cursor d).children r)
    (hagain : r.qualifiedName ∈ p.registry.classes.keys → Circular c.unit r.qualifiedName) :
    Yields (finish r) p fun r' q =>
      Recording c (· = r.qualifiedName) p q ∧ r'.qualifiedName = r.qualifiedName ∧
        r.qualifiedName ∈ q.registry.classes.keys := by
  refine yields_bind (R := fun promoted q => (promotedFields r).run p = .ok promoted q)
    (fun _ _ h => h) ?_
  intro promoted q hrun
  have hreported := promotedFields_reports r p _ _ hrun
  refine yields_bind (R := fun _ q' => q' = q.withClass { r with fields := r.fields ++ promoted })
    ?_ ?_
  · apply yields_update
    intro registry hadd
    obtain ⟨-, -, s, hs, rfl⟩ := Registry.addClass_ok hadd
    obtain rfl := eq_of_ensureType (hreported.registry_eq ▸ hsource.type_mem) hs
    rfl
  · rintro - q' rfl
    refine yields_pure ⟨⟨.single (.enterClass hsource hr hrun hagain), ?_⟩, rfl, ?_⟩
    · intro n hn
      rcases Catalog.mem_keys_insert.1 hn with rfl | hn
      · exact .inr rfl
      · exact .inl (hreported.registry_eq ▸ hn)
    · exact Catalog.mem_keys_insert.2 (.inl rfl)

/-! ## A class that is not known -/

/-- A record without members, for a class type and a declaration of it. -/
def freshRecord (d : Cursor) (m : Metadata) (type : CppType) : ClassRecord :=
  ⟨type, m, classKeyOf d, d.isAbstract, [], [], [], .proper none⟩

/-- The record with all its members. A specialisation does not have the place for generated members
that its template has. -/
def settled (specialized : Bool) (r : ClassRecord) : ClassRecord :=
  if specialized then { r with bodyLine := .proper none } else r

@[simp] theorem settled_type (flag : Bool) (r : ClassRecord) : (settled flag r).type = r.type := by
  cases flag <;> rfl

/-- The members of a declaration are entered into a record, and the record is entered. -/
def enterWith (c : Context) (reflect : Target → Walk ClassRecord) (specialized : Bool)
    (d : CursorId) (start : ClassRecord) : Walk ClassRecord := do
  let r ← (c.unit.cursor d).children.foldlM (addMember c reflect specialized) start
  finish (settled specialized r)

theorem members_freshRecord (flag : Bool) (d : Cursor) (m : Metadata) (type : CppType) :
    Members c p flag [] (freshRecord d m type) := by
  constructor <;> simp [freshRecord]

theorem Members.settled {flag : Bool} {xs : List CursorId} {r : ClassRecord}
    (h : Members c p flag xs r) (flag' : Bool) : Members c p flag xs (settled flag' r) := by
  cases flag' with
  | true => exact ⟨h.fields, h.methods, h.bases, h.bound⟩
  | false => exact h

theorem templateOrigin_spec (type : CppType) :
    Yields (templateOrigin type) p fun d q => q = p ∧
      p.origins.find? (type.templateName?.getD "") = some d ∧
        ∃ generic, p.registry.types.find? (type.templateName?.getD "") = some generic := by
  refine yields_bind (R := fun r q => q = p ∧ r = p) (yields_get ⟨rfl, rfl⟩) ?_
  rintro r q ⟨rfl, rfl⟩
  split
  · next generic d hgeneric hd => exact yields_pure ⟨rfl, hd, generic, hgeneric⟩
  · exact yields_throw

/-- What holds of a class recorded from its declaration: of the record that is known already, or of
the one that is entered. -/
theorem yields_reflectDeclared {d : CursorId} {m : Metadata} {Q : ClassRecord → Progress → Prop}
    (hknown : ∀ type q k, (resolveCursor c.unit d).run p = .ok type q →
      q.registry.classes.find? type.qualifiedName = some k → Q k q)
    (hnew : ∀ type q, (resolveCursor c.unit d).run p = .ok type q →
      type.qualifiedName ∉ q.registry.classes.keys →
      Yields (enterWith c reflect false d (freshRecord (c.unit.cursor d) m type)) q Q) :
    Yields (reflectDeclared c reflect d m) p Q := by
  refine yields_bind (R := fun type q => (resolveCursor c.unit d).run p = .ok type q)
    (fun _ _ h => h) ?_
  intro type q hrun
  refine yields_bind (R := fun r q' => q' = q ∧ r = q.registry) (yields_registry ⟨rfl, rfl⟩) ?_
  rintro r q' ⟨rfl, rfl⟩
  split
  · next k hk => exact yields_pure (hknown type q' k hrun hk)
  · next hnone => exact hnew type q' hrun (Catalog.find?_eq_none_iff.1 hnone)

/-- What holds of a class recorded by its type. A specialisation has the members of its template. -/
theorem yields_reflectTyped {t : TypeId} {Q : ClassRecord → Progress → Prop}
    (hknown : ∀ type q k, (resolveType c.unit t).run p = .ok type q →
      q.registry.classes.find? type.qualifiedName = some k → Q k q)
    (hplain : ∀ type q e, (resolveType c.unit t).run p = .ok type q →
      type.qualifiedName ∉ q.registry.classes.keys →
      (c.unit.canonical t).declaration = some e → type.isSpecialized = false →
      Yields (enterWith c reflect false e
        (freshRecord (c.unit.cursor e) (c.metadata (c.unit.cursor e)) type)) q Q)
    (hspecialized : ∀ type q e d generic, (resolveType c.unit t).run p = .ok type q →
      type.qualifiedName ∉ q.registry.classes.keys →
      (c.unit.canonical t).declaration = some e → type.isSpecialized →
      q.registry.types.find? (type.templateName?.getD "") = some generic →
      q.origins.find? (type.templateName?.getD "") = some d →
      Yields (enterWith c reflect true d
        (freshRecord (c.unit.cursor e) (c.metadata (c.unit.cursor e)) type)) q Q) :
    Yields (reflectTyped c reflect t) p Q := by
  refine yields_bind (R := fun type q => (resolveType c.unit t).run p = .ok type q)
    (fun _ _ h => h) ?_
  intro type q hrun
  refine yields_bind (R := fun r q' => q' = q ∧ r = q.registry) (yields_registry ⟨rfl, rfl⟩) ?_
  rintro r q' ⟨rfl, rfl⟩
  split
  · next k hk => exact yields_pure (hknown type q' k hrun hk)
  · next hnone =>
    have hnew := Catalog.find?_eq_none_iff.1 hnone
    split
    · next e he =>
      split
      · next hspecial =>
        refine yields_bind (templateOrigin_spec type) ?_
        rintro d q'' ⟨rfl, hd, generic, hgeneric⟩
        exact hspecialized type q'' e d generic hrun hnew he hspecial hgeneric hd
      · next hplain' => exact hplain type q' e hrun hnew he (by simpa using hplain')
    · exact yields_throw

/-! ## What is recorded with a class -/

/-- A new class comes in with its ancestors. A class of its own name that comes in on the way is one
of them. -/
private theorem enter_spec (hreflect : Records c reflect) {q : Progress}
    (hp : OriginsNamed c.unit p) (hq : Resolves c.unit p q) {d : CursorId} {d' : Cursor}
    {m : Metadata} {type : CppType} {flag : Bool} {n : String}
    (hsource : ClassSource c.unit q type flag d) (hn : type.qualifiedName = n)
    (hnew : n ∉ q.registry.classes.keys) :
    Yields (enterWith c reflect flag d (freshRecord d' m type)) q fun r q' =>
      Recording c (ReflTransGen (Inherits c.unit) n) p q' ∧ r.qualifiedName = n ∧
        n ∈ q'.registry.classes.keys := by
  subst hn
  refine yields_bind (members_spec hreflect hsource (hq.named hp)
    (members_freshRecord flag d' m type)) ?_
  rintro r q' ⟨hq', hr, hmembers⟩
  have hsame : (settled flag r).type = type := (settled_type flag r).trans hr
  have hname : (settled flag r).qualifiedName = type.qualifiedName := by
    rw [ClassRecord.qualifiedName, hsame]
  refine (finish_spec (hsame ▸ hsource.grows hq'.grows) (hmembers.settled flag) ?_).mono ?_
  · -- it was new, so it came in while its own members were walked
    intro hmem
    rw [hname] at hmem ⊢
    rcases hq'.names _ hmem with hmem | hmem
    · exact absurd hmem hnew
    · exact hmem
  · rintro r' q'' ⟨hq'', hr', hmem⟩
    rw [hname] at hq'' hr' hmem
    refine ⟨(Recording.of_resolves hq).trans ((hq'.mono ?_).trans (hq''.mono ?_)), hr', hmem⟩
    · exact fun n hn => hn.to_reflTransGen
    · rintro n rfl
      exact .refl

theorem reflectDeclared_spec (hreflect : Records c reflect)
    {d : CursorId} {m : Metadata} (hd : (c.unit.cursor d).kind.isClass)
    (hp : OriginsNamed c.unit p) :
    Yields (reflectDeclared c reflect d m) p fun r q =>
      Recording c (ReflTransGen (Inherits c.unit) (declaredName c.unit d)) p q ∧
        r.qualifiedName = declaredName c.unit d ∧
        declaredName c.unit d ∈ q.registry.classes.keys := by
  refine yields_reflectDeclared ?_ ?_
  · intro type q k hrun hk
    obtain ⟨hq, htype⟩ := resolveCursor_spec d _ _ hrun
    rw [← Catalog.key_of_find? htype]
    exact ⟨.of_resolves hq, Catalog.key_of_find? hk, Catalog.mem_keys_of_find? hk⟩
  · intro type q hrun hnew
    obtain ⟨hq, htype⟩ := resolveCursor_spec d _ _ hrun
    have hname := Catalog.key_of_find? htype
    exact enter_spec hreflect hp hq (.declared hd htype) hname (hname ▸ hnew)

theorem reflectTyped_spec (hreflect : Records c reflect) {t : TypeId}
    (ht : ClassType c.unit t) (hp : OriginsNamed c.unit p) :
    Yields (reflectTyped c reflect t) p fun r q =>
      Recording c (ReflTransGen (Inherits c.unit) (recordedName c.unit t)) p q ∧
        r.qualifiedName = recordedName c.unit t ∧
        recordedName c.unit t ∈ q.registry.classes.keys := by
  refine yields_reflectTyped ?_ ?_ ?_
  · intro type q k hrun hk
    obtain ⟨⟨hq, -⟩, htype⟩ := resolveType_spec t _ _ hrun
    rw [← Catalog.key_of_find? htype]
    exact ⟨.of_resolves hq, Catalog.key_of_find? hk, Catalog.mem_keys_of_find? hk⟩
  · intro type q e hrun hnew he hplain
    obtain ⟨⟨hq, -⟩, htype⟩ := resolveType_spec t _ _ hrun
    have hname := Catalog.key_of_find? htype
    exact enter_spec hreflect hp hq (.typed ht htype hplain he) hname (hname ▸ hnew)
  · intro type q e d generic hrun hnew he hspecial hgeneric hd
    obtain ⟨⟨hq, -⟩, htype⟩ := resolveType_spec t _ _ hrun
    have hname := Catalog.key_of_find? htype
    exact enter_spec hreflect hp hq (.specialized htype hspecial hgeneric hd) hname (hname ▸ hnew)

theorem reflectWith_records (hreflect : Records c reflect) :
    Records c (reflectWith c reflect) := by
  rintro (⟨d, m⟩ | t) p ht hp
  · exact reflectDeclared_spec hreflect ht hp
  · exact reflectTyped_spec hreflect ht hp

theorem reflectWithin_records (n : Nat) :
    Records c (reflectWithin c n) := by
  induction n with
  | zero => exact fun _ _ _ _ => yields_throw
  | succ n ih => exact reflectWith_records ih

theorem reflectClass_records : Records c (reflectClass c) :=
  reflectWithin_records _

end specs
end Introspect.Reflection
