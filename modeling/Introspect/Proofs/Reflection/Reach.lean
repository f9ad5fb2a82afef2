import Introspect.Proofs.Reflection.Closure
import Introspect.Proofs.Reflection.Frozen
import Introspect.Proofs.Reflection.Instance

/-! A class is reached as a declaration or by its type. Both ways lead to one record for a class
that is no specialisation. A specialisation with a declaration of its own has the members of that
declaration or those of its template, whichever way is taken first. -/
namespace Introspect.Reflection

/-- The declaration is that of a class or a struct, and the type is the one that it declares. -/
structure DeclaresClass (u : CompilationUnit) (d : CursorId) (t : TypeId) : Prop where
  isClass : (u.cursor d).kind = .classDecl ∨ (u.cursor d).kind = .structDecl
  classType : ClassType u t
  declaration : (u.canonical t).declaration = some d
  type : ∃ s, (u.cursor d).type = some s ∧ unwrap u s = unwrap u t

/-- The way from a declaration, as the walk over a unit takes it. -/
def Target.ofDeclaration (c : Context) (d : CursorId) : Target :=
  .declared d (c.metadata (c.unit.cursor d))

section resolution
variable {u : CompilationUnit} {d : CursorId} {t : TypeId}

theorem resolveWithin_congr {i j : TypeId} (h : unwrap u i = unwrap u j) (n : Nat) :
    resolveWithin u n i = resolveWithin u n j := by
  cases n with
  | zero => rfl
  | succ n => simp only [resolveWithin, resolveWith, h]

theorem DeclaresClass.resolveCursor_eq (h : DeclaresClass u d t) :
    resolveCursor u d = resolveType u t := by
  obtain ⟨s, hs, hsame⟩ := h.type
  simp only [resolveCursor, hs, Option.isSome_some, Bool.true_or, if_true, resolveTyped,
    resolveType]
  exact resolveWithin_congr hsame _

theorem DeclaresClass.declaredName_eq (h : DeclaresClass u d t) :
    declaredName u d = recordedName u t := by
  obtain ⟨s, hs, hsame⟩ := h.type
  rw [declaredName_of_type hs, recordedName, hsame, recordedName]

end resolution

/-- A class that is no specialisation is recorded by the same steps both ways. -/
theorem reflectWithin_plain {c : Context} {d : CursorId} {t : TypeId}
    (hd : DeclaresClass c.unit d t) {p : Progress}
    (hplain : ∀ type q, (resolveType c.unit t).run p = .ok type q → type.isSpecialized = false)
    (n : Nat) :
    (reflectWithin c n (.ofDeclaration c d)).run p = (reflectWithin c n (.typed t)).run p := by
  cases n with
  | zero => rfl
  | succ n =>
    change (reflectDeclared c (reflectWithin c n) d _).run p =
      (reflectTyped c (reflectWithin c n) t).run p
    unfold reflectDeclared reflectTyped
    rw [hd.resolveCursor_eq, EStateM.run_bind, EStateM.run_bind]
    cases hrun : (resolveType c.unit t).run p with
    | error e q => rfl
    | ok type q =>
      have hkind := hplain type q hrun
      simp only [hd.declaration, hkind, Bool.false_eq_true, if_false]

/-! ## Levels -/

/-- Where the first walk succeeds, the second one does the same. -/
def Refines {α : Type} (m m' : Walk α) : Prop := ∀ p a q, m.run p = .ok a q → m'.run p = .ok a q

namespace Refines
variable {α β : Type}

theorem refl (m : Walk α) : Refines m m := fun _ _ _ h => h

theorem bind {m m' : Walk α} {f f' : α → Walk β} (hm : Refines m m')
    (hf : ∀ a, Refines (f a) (f' a)) : Refines (m >>= f) (m' >>= f') := by
  intro p b q hrun
  rw [EStateM.run_bind] at hrun ⊢
  cases ha : m.run p with
  | error e p' =>
    rw [ha] at hrun
    cases hrun
  | ok a p' =>
    rw [ha] at hrun
    rw [hm p a p' ha]
    exact hf a p' b q hrun

theorem foldlM {f f' : β → α → Walk β} (hf : ∀ b a, Refines (f b a) (f' b a)) (l : List α)
    (b : β) : Refines (l.foldlM f b) (l.foldlM f' b) := by
  induction l generalizing b with
  | nil => exact .refl _
  | cons a l ih =>
    rw [List.foldlM_cons, List.foldlM_cons]
    exact .bind (hf b a) ih

end Refines

section levels
variable {c : Context} {reflect reflect' : Target → Walk ClassRecord}

theorem addMember_refines (h : ∀ t, Refines (reflect t) (reflect' t)) (flag : Bool)
    (r : ClassRecord) (x : CursorId) :
    Refines (addMember c reflect flag r x) (addMember c reflect' flag r x) := by
  have hbase : Refines (baseOf c reflect (c.unit.cursor x) r)
      (baseOf c reflect' (c.unit.cursor x) r) := by
    unfold baseOf
    split
    · dsimp only
      split
      · split
        · exact .bind (h _) fun _ => .refl _
        · exact h _
        · exact h _
        · exact .refl _
      · exact .refl _
    · exact .refl _
  unfold addMember
  dsimp only
  split
  · exact .refl _
  · split
    · exact .bind hbase fun _ => .refl _
    · exact .refl _

theorem reflectWith_refines (h : ∀ t, Refines (reflect t) (reflect' t)) (t : Target) :
    Refines (reflectWith c reflect t) (reflectWith c reflect' t) := by
  have hmembers : ∀ flag (xs : List CursorId) start (f : ClassRecord → Walk ClassRecord),
      Refines (xs.foldlM (addMember c reflect flag) start >>= f)
        (xs.foldlM (addMember c reflect' flag) start >>= f) := fun flag xs start f =>
    .bind (.foldlM (addMember_refines h flag) xs start) fun _ => .refl _
  cases t with
  | declared d m =>
    refine .bind (.refl _) fun type => .bind (.refl _) fun r => ?_
    split
    · exact .refl _
    · exact hmembers _ _ _ _
  | typed t =>
    refine .bind (.refl _) fun type => .bind (.refl _) fun r => ?_
    split
    · exact .refl _
    · split
      · split
        · exact .bind (.refl _) fun e => hmembers _ _ _ _
        · exact hmembers _ _ _ _
      · exact .refl _

/-- With more levels, a class is recorded as with fewer. -/
theorem reflectWithin_refines {m n : Nat} (h : m ≤ n) (t : Target) :
    Refines (reflectWithin c m t) (reflectWithin c n t) := by
  induction m generalizing n t with
  | zero =>
    intro p a q hrun
    cases hrun
  | succ m ih =>
    obtain ⟨n, rfl⟩ : ∃ k, n = k + 1 := ⟨n - 1, by omega⟩
    exact reflectWith_refines (fun t => ih (by omega) t) t

end levels

/-! ## What is recorded -/

/-- The record that a class starts from both ways. -/
def startOf (c : Context) (d : CursorId) (type : CppType) : ClassRecord :=
  freshRecord (c.unit.cursor d) (c.metadata (c.unit.cursor d)) type

/-- A record with the members of a declaration, and fields that were promoted for its type when
everything recorded before was still as it was. -/
structure Gained (c : Context) (o p : Progress) (flag : Bool) (d : CursorId)
    (start r : ClassRecord) (promoted : List Field) : Prop where
  members : Members c p flag (c.unit.cursor d).children r
  headed : Headed c start (c.unit.cursor d).children r
  promoted : ∃ k q q', k.type = start.type ∧ Keeps o.registry.classes.keys o q ∧
    (promotedFields k).run q = .ok promoted q'

section gained
variable {c : Context} {reflect : Target → Walk ClassRecord} {o p q : Progress}

private theorem enter_gains (hrecords : Records c reflect) (hpreserves : Preserves reflect)
    (hq : Resolves c.unit o q) (hp : OriginsNamed c.unit q) {type : CppType} {flag : Bool}
    {d e : CursorId} (hsource : ClassSource c.unit q type flag e)
    (hnew : type.qualifiedName ∉ q.registry.classes.keys) :
    Yields (enterWith c reflect flag e (startOf c d type)) q fun k p => ∃ r promoted,
      Gained c o p flag e (startOf c d type) r promoted ∧
        k = { settled flag r with fields := (settled flag r).fields ++ promoted } := by
  refine yields_bind ((members_spec hrecords hsource hp (members_freshRecord flag _ _ type)).and
    (members_keep hpreserves flag (startOf c d type) rfl hnew _)) ?_
  rintro r q' ⟨⟨hrecording, htype, hmembers⟩, hkeeps, hheaded⟩
  have hsame : (settled flag r).type = type := (settled_type flag r).trans htype
  have hname : (settled flag r).qualifiedName = type.qualifiedName := by
    rw [ClassRecord.qualifiedName, hsame]
  have hagain : (settled flag r).qualifiedName ∈ q'.registry.classes.keys →
      Circular c.unit (settled flag r).qualifiedName := by
    rw [hname]
    exact fun hmem => (hrecording.names _ hmem).resolve_left hnew
  refine ((finish_spec (hsame ▸ hsource.grows hrecording.grows) (hmembers.settled flag)
    hagain).and (finish_keeps List.not_mem_nil)).mono ?_
  rintro k p ⟨⟨hlast, -, -⟩, -, promoted, p', hrun, rfl⟩
  refine ⟨r, promoted, ⟨hmembers.grows hlast.grows, hheaded, settled flag r, q', p', hsame, ?_,
    hrun⟩, rfl⟩
  rw [← hq.classes_eq]
  exact (Keeps.of_resolves hq).trans hkeeps

variable {d : CursorId} {t : TypeId}

/-- A class that is not recorded is not known when its type is resolved, either. -/
private theorem not_known (hnew : recordedName c.unit t ∉ o.registry.classes.keys) {type : CppType}
    (hrun : (resolveType c.unit t).run o = .ok type q) {k : ClassRecord}
    (hk : q.registry.classes.find? type.qualifiedName = some k) : False := by
  obtain ⟨⟨hq, -⟩, htype⟩ := resolveType_spec t _ _ hrun
  rw [hq.classes_eq, Catalog.key_of_find? htype] at hk
  exact hnew (Catalog.mem_keys_of_find? hk)

theorem reflectWithin_declared (hd : DeclaresClass c.unit d t) (ho : OriginsNamed c.unit o)
    (hnew : recordedName c.unit t ∉ o.registry.classes.keys) (n : Nat) :
    Yields (reflectWithin c n (.ofDeclaration c d)) o fun k p => ∃ type q r promoted,
      (resolveType c.unit t).run o = .ok type q ∧
        Gained c o p false d (startOf c d type) r promoted ∧
          k = { r with fields := r.fields ++ promoted } := by
  cases n with
  | zero => exact yields_throw
  | succ n =>
    refine yields_reflectDeclared ?_ ?_
    · rw [hd.resolveCursor_eq]
      exact fun type q k hrun hk => (not_known hnew hrun hk).elim
    · rw [hd.resolveCursor_eq]
      intro type q hrun hnew'
      obtain ⟨⟨hq, -⟩, htype⟩ := resolveType_spec t _ _ hrun
      have hclass : (c.unit.cursor d).kind.isClass := by
        rcases hd.isClass with h | h <;> simp [h, CursorKind.isClass]
      have hsource : ClassSource c.unit q type false d :=
        .declared hclass (hd.declaredName_eq.symm ▸ htype)
      refine (enter_gains (reflectWithin_records n) (reflectWithin_preserves n) hq (hq.named ho)
        hsource hnew').mono ?_
      rintro k p ⟨r, promoted, hgained, hk⟩
      exact ⟨type, q, r, promoted, hrun, hgained, hk⟩

theorem reflectWithin_typed (hd : DeclaresClass c.unit d t) (ho : OriginsNamed c.unit o)
    (hnew : recordedName c.unit t ∉ o.registry.classes.keys) (n : Nat) :
    Yields (reflectWithin c n (.typed t)) o fun k p => ∃ type q,
      (resolveType c.unit t).run o = .ok type q ∧ (type.isSpecialized → ∃ e r promoted,
        q.origins.find? (type.templateName?.getD "") = some e ∧
          Gained c o p true e (startOf c d type) r promoted ∧
            k = { r with fields := r.fields ++ promoted, bodyLine := .proper none }) := by
  cases n with
  | zero => exact yields_throw
  | succ n =>
    refine yields_reflectTyped ?_ ?_ ?_
    · exact fun type q k hrun hk => (not_known hnew hrun hk).elim
    · intro type q e hrun _ _ hplain k p _
      exact ⟨type, q, hrun, fun hspecial => by simp [hplain] at hspecial⟩
    · intro type q d' e generic hrun hnew' hd' hspecial hgeneric he
      obtain rfl := Option.some.inj (hd.declaration.symm.trans hd')
      obtain ⟨⟨hq, -⟩, htype⟩ := resolveType_spec t _ _ hrun
      refine (enter_gains (reflectWithin_records n) (reflectWithin_preserves n) hq (hq.named ho)
        (.specialized htype hspecial hgeneric he) hnew').mono ?_
      rintro k p ⟨r, promoted, hgained, hk⟩
      exact ⟨type, q, hrun, fun _ => ⟨e, r, promoted, he, hgained, hk⟩⟩

end gained

/-- The type of a class template, its declaration and its class are known under a name. -/
structure TemplateKnown (o : Progress) (n : String) (g : CppType) (e : CursorId) : Prop where
  type : o.registry.types.find? n = some g
  origin : o.origins.find? n = some e
  recorded : n ∈ o.registry.classes.keys

/-- The names of the bases of a class, as its declaration has them. -/
def baseNames (c : Context) (d : CursorId) : List String :=
  (specifiers c d).filterMap fun x => baseName? c.unit (c.unit.cursor x)

/-- The declaration of a specialisation has no fields of its own, no place for generated members,
and otherwise what the template has for the given arguments. -/
structure RepeatsTemplate (c : Context) (r₁ r₂ : Registry) (g : CppType) (as : List CppType)
    (d e : CursorId) : Prop where
  fields : ∀ x ∈ (c.unit.cursor d).children, isField c x = false
  methods : ownMethods c r₁ d = (ownMethods c r₂ e).map (boundMethod g.arguments as)
  bases : baseNames c d = baseNames c e
  line : ∀ x ∈ (c.unit.cursor d).children, isBodyMarker c (c.unit.cursor x) = false

section records
variable {c : Context} {p : Progress} {d : CursorId} {k : ClassRecord}

theorem Members.bases_eq {flag : Bool} (h : Members c p flag (c.unit.cursor d).children k) :
    k.bases = (baseNames c d).map Given.proper := by
  have hbases : List.Forall₂ (IsBase c p) (specifiers c d) k.bases := h.bases
  rw [baseNames, List.map_filterMap]
  refine (filterMap_of_forall₂ (hbases.imp ?_)).symm
  rintro x b ⟨n, -, hn, rfl⟩
  rw [hn, Option.map_some]

theorem Members.fields_eq_nil_iff (h : Members c p false (c.unit.cursor d).children k) :
    k.fields = [] ↔ ∀ x ∈ (c.unit.cursor d).children, isField c x = false := by
  have hfields : List.Forall₂ (IsField c p) ((c.unit.cursor d).children.filter (isField c))
    k.fields := h.fields
  have hnil : (c.unit.cursor d).children.filter (isField c) = [] ↔ k.fields = [] := by
    rw [← List.length_eq_zero_iff, hfields.length_eq, List.length_eq_zero_iff]
  rw [← hnil, List.filter_eq_nil_iff]
  simp only [Bool.not_eq_true]

theorem markedLine_eq_none_iff (xs : List CursorId) :
    markedLine c xs = none ↔ ∀ x ∈ xs, isBodyMarker c (c.unit.cursor x) = false := by
  simp [markedLine]

end records

/-- The records of a specialisation from its own declaration and from that of its template. -/
theorem Gained.eq_iff {c : Context} {o p₁ p₂ : Progress} {d e : CursorId}
    {start r₁ r₂ : ClassRecord} {g : CppType} {promoted : List Field}
    (h₁ : Gained c o p₁ false d start r₁ promoted)
    (h₂ : Gained c o p₂ true e start r₂ promoted)
    (hg : p₂.registry.types.find? (start.type.templateName?.getD "") = some g) :
    ({ r₁ with fields := r₁.fields ++ promoted } : ClassRecord) =
        { r₂ with fields := r₂.fields ++ promoted, bodyLine := .proper none } ↔
      RepeatsTemplate c p₁.registry p₂.registry g r₁.type.arguments d e := by
  have hnone : r₂.fields = [] := List.forall₂_nil_left_iff.1 h₂.members.fields
  have hmethods := h₂.members.boundMethods_eq
  rw [h₂.headed.type, hg, Option.map_some, Option.getD_some] at hmethods
  rw [ClassRecord.mk.injEq, h₁.headed.type, h₂.headed.type, h₁.headed.metadata,
    h₂.headed.metadata, h₁.headed.key, h₂.headed.key, h₁.headed.abstractness,
    h₂.headed.abstractness, h₁.headed.bodyLine, h₁.members.bases_eq, h₂.members.bases_eq,
    h₁.members.methods_eq, hmethods, hnone, List.nil_append, List.append_left_eq_self,
    h₁.members.fields_eq_nil_iff]
  constructor
  · rintro ⟨-, -, -, -, hfields, hmethods, hbases, hline⟩
    refine ⟨hfields, hmethods, ?_, (markedLine_eq_none_iff _).1 (Given.proper.inj hline)⟩
    exact List.map_injective_iff.2 (fun _ _ => Given.proper.inj) hbases
  · intro h
    refine ⟨rfl, rfl, rfl, rfl, h.fields, h.methods, congrArg _ h.bases, ?_⟩
    rw [(markedLine_eq_none_iff _).2 h.line]

section reach
variable {c : Context} {hash : NameHash} {o p₁ p₂ : Progress} {d e : CursorId} {t : TypeId}
  {m n : Nat} {k₁ k₂ : ClassRecord} {g : CppType}

/-- A class that is no specialisation has one record, at whatever levels it is reached. -/
theorem eq_of_reached_plain (hd : DeclaresClass c.unit d t)
    (hplain : ∀ type q, (resolveType c.unit t).run o = .ok type q → type.isSpecialized = false)
    (h₁ : (reflectWithin c m (.ofDeclaration c d)).run o = .ok k₁ p₁)
    (h₂ : (reflectWithin c n (.typed t)).run o = .ok k₂ p₂) : k₁ = k₂ ∧ p₁ = p₂ := by
  have h₁' := reflectWithin_refines (Nat.le_max_left m n) _ _ _ _ h₁
  have h₂' := reflectWithin_refines (Nat.le_max_right m n) _ _ _ _ h₂
  rw [reflectWithin_plain hd hplain, h₂'] at h₁'
  obtain ⟨rfl, rfl⟩ := EStateM.Result.ok.inj h₁'
  exact ⟨rfl, rfl⟩

/-- A specialisation of a recorded template is reached with the members of its own declaration or
with those of its template, and with the same fields from the template. -/
theorem eq_iff_of_reached_specialized (ho : Steps c (.start (.empty hash)) o)
    (hd : DeclaresClass c.unit d t) (hnew : recordedName c.unit t ∉ o.registry.classes.keys)
    (h₁ : (reflectWithin c m (.ofDeclaration c d)).run o = .ok k₁ p₁)
    (h₂ : (reflectWithin c n (.typed t)).run o = .ok k₂ p₂) (hspecial : k₁.type.isSpecialized)
    (hknown : TemplateKnown o (k₁.type.templateName?.getD "") g e) :
    k₁ = k₂ ↔ RepeatsTemplate c p₁.registry p₂.registry g k₁.type.arguments d e := by
  have hnamed := originsNamed_of_steps ho
  obtain ⟨type, q, r₁, P₁, hrun, hgained₁, rfl⟩ := reflectWithin_declared hd hnamed hnew m _ _ h₁
  obtain ⟨type', q', hrun', htyped⟩ := reflectWithin_typed hd hnamed hnew n _ _ h₂
  obtain ⟨rfl, rfl⟩ := EStateM.Result.ok.inj (hrun.symm.trans hrun')
  dsimp only at hspecial hknown ⊢
  rw [hgained₁.headed.type] at hspecial hknown
  obtain ⟨e', r₂, P₂, he', hgained₂, rfl⟩ := htyped hspecial
  -- the template is the one that was known before
  have hgrows := (resolveType_spec t _ _ hrun).1.resolves.grows
  obtain rfl : e' = e :=
    Option.some.inj (he'.symm.trans (hgrows.origins _ _ _ hknown.type hknown.origin))
  obtain ⟨l₁, q₁, q₁', hl₁, hq₁, hrun₁⟩ := hgained₁.promoted
  obtain ⟨l₂, q₂, q₂', hl₂, hq₂, hrun₂⟩ := hgained₂.promoted
  obtain rfl : P₁ = P₂ := by
    refine promotedFields_eq (templatesRecorded_of_steps ho) hq₁ hq₂ (hl₁.trans hl₂.symm) ?_ ?_
      hrun₁ hrun₂
    · rw [hl₁]
      exact hspecial
    · rw [hl₁]
      exact hknown.recorded
  refine hgained₁.eq_iff hgained₂ ?_
  have hrecords := reflectWithin_records n (.typed t) o hd.classType hnamed _ _ h₂
  exact hrecords.1.grows.types _ _ hknown.type

end reach

/-- At any time of a walk, for a class that is not recorded yet: one that is no specialisation is
recorded the same way from its declaration and by its type, at whatever level. A specialisation of
a recorded template is, if both ways succeed, exactly when its own declaration repeats what the
template has for its arguments, apart from the fields that the template gives it. -/
theorem reflectWithin_eq_iff {c : Context} {hash : NameHash} {o : Progress}
    (ho : Steps c (.start (.empty hash)) o) {d : CursorId} {t : TypeId}
    (hd : DeclaresClass c.unit d t) (hnew : recordedName c.unit t ∉ o.registry.classes.keys) :
    ((∀ type q, (resolveType c.unit t).run o = .ok type q → type.isSpecialized = false) →
      (∀ n, (reflectWithin c n (.ofDeclaration c d)).run o =
        (reflectWithin c n (.typed t)).run o) ∧
      ∀ m n k₁ k₂ p₁ p₂, (reflectWithin c m (.ofDeclaration c d)).run o = .ok k₁ p₁ →
        (reflectWithin c n (.typed t)).run o = .ok k₂ p₂ → k₁ = k₂ ∧ p₁ = p₂) ∧
    ∀ m n k₁ k₂ p₁ p₂, (reflectWithin c m (.ofDeclaration c d)).run o = .ok k₁ p₁ →
      (reflectWithin c n (.typed t)).run o = .ok k₂ p₂ → k₁.type.isSpecialized →
      ∀ g e, TemplateKnown o (k₁.type.templateName?.getD "") g e →
        (k₁ = k₂ ↔ RepeatsTemplate c p₁.registry p₂.registry g k₁.type.arguments d e) := by
  constructor
  · intro hplain
    exact ⟨reflectWithin_plain hd hplain, fun _ _ _ _ _ _ => eq_of_reached_plain hd hplain⟩
  · intro m n k₁ k₂ p₁ p₂ h₁ h₂ hspecial g e hknown
    exact eq_iff_of_reached_specialized ho hd hnew h₁ h₂ hspecial hknown

/-- A class template `Box` with a field, a declaration of its specialisation for `int` that has the
given members, and an alias `IntBox` of that, walked in the given order. -/
def shelf (order members : List CursorId) : CompilationUnit where
  root := 0
  cursors := #[
    written .unit "a.h" none order,
    written .classTemplate "Box" none [2, 3, 4],
    written .annotationNode "mark" none [],
    written .templateTypeParameter "T" (some 0) [],
    written .fieldDecl "value" (some 0) [5],
    written .annotationNode "mark" none [],
    written .structDecl "Box" (some 2) members,
    written .annotationNode "mark" none [],
    written .fieldDecl "count" (some 1) [9],
    written .annotationNode "mark" none [],
    written .method "body" none [],
    written .typeAlias "IntBox" (some 3) [12],
    written .annotationNode "mark" none []]
  types := #[
    ⟨.unexposed, "T", false, true, 0, none, some 3, []⟩,
    ⟨.int, "int", false, false, 1, none, none, []⟩,
    ⟨.record, "Box<int>", false, false, 2, none, some 6, [1]⟩,
    ⟨.typedef, "IntBox", false, false, 2, none, some 11, []⟩]

/-- Without members, the specialisation is recorded from its declaration as from its template. -/
theorem reflectWithin_eq_shelf : ∃ o k₁ k₂ p₁ p₂,
    Steps (walkOver (shelf [1] [7])) (.start (.empty NameHash.crc32)) o ∧
      DeclaresClass (shelf [1] [7]) 6 2 ∧
      recordedName (shelf [1] [7]) 2 ∉ o.registry.classes.keys ∧
      (reflectWithin (walkOver (shelf [1] [7])) 9 (.ofDeclaration (walkOver (shelf [1] [7])) 6)).run
        o = .ok k₁ p₁ ∧
      (reflectWithin (walkOver (shelf [1] [7])) 9 (.typed 2)).run o = .ok k₂ p₂ ∧ k₁ = k₂ := by
  have hleaves : leaves (shelf [1] [7]) fun o =>
      match (reflectWithin (walkOver (shelf [1] [7])) 9
          (.ofDeclaration (walkOver (shelf [1] [7])) 6)).run o,
        (reflectWithin (walkOver (shelf [1] [7])) 9 (.typed 2)).run o with
      | .ok k₁ _, .ok _ _ => decide (recordedName (shelf [1] [7]) 2 ∉ o.registry.classes.keys ∧
          k₁.type.isSpecialized ∧ k₁.type.templateName?.getD "" ∈ o.registry.classes.keys ∧
          (o.registry.types.find? (k₁.type.templateName?.getD "")).isSome ∧
          o.origins.find? (k₁.type.templateName?.getD "") = some 1)
      | _, _ => false := by decide +kernel
  obtain ⟨o, hrun, htest⟩ := exists_of_leaves hleaves
  split at htest
  · next k₁ p₁ k₂ p₂ h₁ h₂ =>
    obtain ⟨hnew, hspecial, hrecorded, hsome, horigin⟩ := of_decide_eq_true htest
    obtain ⟨g, hg⟩ := Option.isSome_iff_exists.1 hsome
    have ho := reflect_steps_start hrun
    have hd : DeclaresClass (shelf [1] [7]) 6 2 :=
      ⟨.inr rfl, ⟨⟨2, rfl⟩, .inl rfl⟩, rfl, 2, rfl, rfl⟩
    refine ⟨o, k₁, k₂, p₁, p₂, ho, hd, hnew, h₁, h₂, ?_⟩
    refine ((reflectWithin_eq_iff ho hd hnew).2 9 9 k₁ k₂ p₁ p₂ h₁ h₂ hspecial g 1
      ⟨hg, horigin, hrecorded⟩).2 ⟨by decide +kernel, ?_, by decide +kernel, by decide +kernel⟩
    have hnone : ∀ e ∈ [1, 6], ((walkOver (shelf [1] [7])).unit.cursor e).children.filter
        (isMethod (walkOver (shelf [1] [7]))) = [] := by decide +kernel
    simp only [ownMethods]
    rw [hnone 6 (by simp), hnone 1 (by simp)]
    rfl
  · cases htest

/-- With members, its record depends on whether the alias comes after or before it. -/
theorem exists_record_of_order_shelf : ∃ p₁ p₂ k₁ k₂,
    (reflect (walkOver (shelf [1, 6, 11] [7, 8, 10])) 0).run (.start (.empty NameHash.crc32)) =
        .ok () p₁ ∧
      (reflect (walkOver (shelf [1, 11, 6] [7, 8, 10])) 0).run (.start (.empty NameHash.crc32)) =
        .ok () p₂ ∧
      p₁.registry.classes.find? "Box<int>" = some k₁ ∧
      p₂.registry.classes.find? "Box<int>" = some k₂ ∧
      k₁.fields.map (·.name) = ["count", "value"] ∧ k₁.bodyLine = .proper (some 0) ∧
      k₂.fields.map (·.name) = ["value"] ∧ k₂.bodyLine = .proper none := by
  have hleaves₁ : leaves (shelf [1, 6, 11] [7, 8, 10]) fun p =>
      decide (∃ k ∈ p.registry.classes.find? "Box<int>",
        k.fields.map (·.name) = ["count", "value"] ∧ k.bodyLine = .proper (some 0)) := by
    decide +kernel
  have hleaves₂ : leaves (shelf [1, 11, 6] [7, 8, 10]) fun p =>
      decide (∃ k ∈ p.registry.classes.find? "Box<int>",
        k.fields.map (·.name) = ["value"] ∧ k.bodyLine = .proper none) := by decide +kernel
  obtain ⟨p₁, hrun₁, htest₁⟩ := exists_of_leaves hleaves₁
  obtain ⟨p₂, hrun₂, htest₂⟩ := exists_of_leaves hleaves₂
  obtain ⟨k₁, hk₁, hfields₁, hline₁⟩ := of_decide_eq_true htest₁
  obtain ⟨k₂, hk₂, hfields₂, hline₂⟩ := of_decide_eq_true htest₂
  exact ⟨p₁, p₂, k₁, k₂, hrun₁, hrun₂, hk₁, hk₂, hfields₁, hline₁, hfields₂, hline₂⟩

end Introspect.Reflection
