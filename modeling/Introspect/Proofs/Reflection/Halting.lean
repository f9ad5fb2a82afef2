import Introspect.Proofs.Reflection.Opening
import Introspect.Proofs.Reflection.Recorded

/-! Walks over units in which no class is asked for that is among its own ancestors come to an end,
and walks that ask for a class whose bases lead back to it without end do not succeed. -/
namespace Introspect.Reflection
open Relation

/-- No ancestor of a class of the name, nor that class, is among its own ancestors. -/
def Grounded (u : CompilationUnit) (n : String) : Prop :=
  ∀ m, ReflTransGen (Inherits u) n m → ¬ Circular u m

/-! ## Classes -/

section calls
variable {u : CompilationUnit} {α : Type} {reflect : Target → Walk ClassRecord}
  {asked : Walk (Option Target)} {m : Walk α} {p : Progress}

/-- A step comes to an end when the class that it has recorded does. -/
theorem Calls.ends (h : Calls u reflect asked m) (hu : ArgumentsEnd u)
    (hreflect : ∀ t q, asked.run p = .ok (some t) q → Ends (reflect t) q) : Ends m p := by
  induction h generalizing p with
  | quiet h => exact h.ends hu p
  | reflect t => exact hreflect t p rfl
  | bind _ hf ih => exact ends_bind (ih hreflect) fun a q _ => (hf a).ends hu q
  | after hm _ ih =>
    refine ends_bind (hm.ends hu p) fun b q hrun => ih b fun t q' hasked => hreflect t q' ?_
    rw [EStateM.run_bind, hrun]
    exact hasked

/-- What quiet steps keep. -/
def Stable (u : CompilationUnit) (Q : Progress → Prop) : Prop :=
  ∀ q q', q'.registry.classes = q.registry.classes → (OriginsNamed u q → OriginsNamed u q') →
    Q q → Q q'

/-- What holds after a step is what holds after the class that it has recorded, if any. -/
theorem Calls.yields (h : Calls u reflect asked m) {Q R : Progress → Prop} (hQ : Stable u Q)
    (hR : Stable u R) (hnone : ∀ q, asked.run p = .ok none q → Q q → R q)
    (hreflect : ∀ t q, asked.run p = .ok (some t) q → Q q → Yields (reflect t) q fun _ q' => R q')
    (hp : Q p) : Yields m p fun _ q => R q := by
  induction h generalizing p with
  | quiet h => exact (h.keeps p).mono fun _ q hq => hR p q hq.1 hq.2 (hnone p rfl hp)
  | reflect t => exact hreflect t p rfl hp
  | bind _ hf ih =>
    refine yields_bind (ih hnone hreflect hp) fun a q hq => ?_
    exact ((hf a).keeps q).mono fun _ q' hq' => hR q q' hq'.1 hq'.2 hq
  | @after _ _ m asked f hm _ ih =>
    intro a q' hrun
    rw [EStateM.run_bind] at hrun
    split at hrun
    · next b q hfirst =>
      have hkeeps := hm.keeps p b q hfirst
      have hasked : (m >>= asked).run p = (asked b).run q := by rw [EStateM.run_bind, hfirst]
      exact ih b (fun q'' h => hnone q'' (hasked ▸ h)) (fun t q'' h => hreflect t q'' (hasked ▸ h))
        (hQ p q hkeeps.1 hkeeps.2 hp) a q' hrun
    · cases hrun

theorem stable_named : Stable u (OriginsNamed u) := fun _ _ _ h => h

theorem stable_keys {P : List String → Prop} : Stable u fun q => P q.registry.classes.keys := by
  intro q q' hclasses _ h
  rwa [hclasses]

theorem Stable.and {Q R : Progress → Prop} (hQ : Stable u Q) (hR : Stable u R) :
    Stable u fun q => Q q ∧ R q :=
  fun q q' hclasses hnamed h => ⟨hQ q q' hclasses hnamed h.1, hR q q' hclasses hnamed h.2⟩

end calls

section classes
variable {c : Context} {reflect : Target → Walk ClassRecord} {p : Progress} {t : Target}

theorem memberTarget?_eq_some {x : CursorId} (h : memberTarget? c x = some t) :
    (c.unit.cursor x).kind = .baseSpecifier ∧ t.IsClass c.unit ∧
      baseName? c.unit (c.unit.cursor x) = some (targetName c.unit t) := by
  unfold memberTarget? at h
  split at h
  · next hkind =>
    refine ⟨hkind, ?_, by rw [baseName?_eq, h, Option.map_some]⟩
    obtain ⟨type, -, h⟩ := Option.bind_eq_some_iff.1 h
    obtain ⟨e, he, h⟩ := Option.bind_eq_some_iff.1 h
    have htyped : (c.unit.cursor e).kind.isClass →
        (Target.typed (c.unit.type type).canonical).IsClass c.unit :=
      fun hclass => ⟨⟨type, rfl⟩, .inr ⟨e, he, hclass⟩⟩
    split at h
    · next hk =>
      cases h
      rw [Target.IsClass, hk]
      rfl
    · next hk =>
      cases h
      exact htyped (by rw [hk]; rfl)
    · next hk =>
      cases h
      exact htyped (by rw [hk]; rfl)
    · cases h
  · cases h

theorem Opening.Opens.walked {n : String} {o : Opening} (h : o.Opens c n p)
    (hp : OriginsNamed c.unit p) : Walked c.unit n o.source :=
  h.name ▸ h.source.walked hp

theorem Opening.Opens.inherits {n : String} {o : Opening} {x : CursorId} (h : o.Opens c n p)
    (hp : OriginsNamed c.unit p) (hx : x ∈ (c.unit.cursor o.source).children)
    (ht : memberTarget? c x = some t) : Inherits c.unit n (targetName c.unit t) := by
  obtain ⟨hkind, -, hname⟩ := memberTarget?_eq_some ht
  exact ⟨o.source, h.walked hp, x, hx, hkind, hname⟩

theorem addMember_named (hrecords : Records c reflect) (flag : Bool) (r : ClassRecord) (x : CursorId)
    (hp : OriginsNamed c.unit p) :
    Yields (addMember c reflect flag r x) p fun _ q => OriginsNamed c.unit q := by
  refine (addMember_calls reflect flag r x).yields stable_named stable_named (fun _ _ h => h)
    (fun s q hasked hq => ?_) hp
  obtain ⟨hs, -⟩ := EStateM.Result.ok.inj hasked
  exact (hrecords s q (memberTarget?_eq_some hs).2.1 hq).mono fun _ _ h => hq.steps h.1.steps

/-- The members of a class come to an end when the classes that it inherits from do. -/
theorem ends_reflectWith (hu : ArgumentsEnd c.unit) (hrecords : Records c reflect)
    (ht : t.IsClass c.unit) (hp : OriginsNamed c.unit p)
    (hends : ∀ s : Target, s.IsClass c.unit →
      Inherits c.unit (targetName c.unit t) (targetName c.unit s) →
      ∀ q, OriginsNamed c.unit q → Ends (reflect s) q) :
    Ends (reflectWith c reflect t) p := by
  rw [reflectWith_eq]
  refine ends_bind (ends_opening hu t) fun a q hrun => ?_
  obtain ⟨hq, -, hopens⟩ := opening_spec ht a q hrun
  have hnamed := hq.named hp
  cases a with
  | inl known => exact ends_pure
  | inr o =>
    have ho := hopens o rfl
    refine ends_bind ?_ fun r q' _ => ends_finish _
    refine ends_foldlM (I := fun _ _ q => OriginsNamed c.unit q) (fun _ x hx r q' hq' => ?_) hnamed
    refine ⟨(addMember_calls reflect o.specialized r x).ends hu fun s q'' hasked => ?_,
      addMember_named hrecords _ r x hq'⟩
    obtain ⟨hs, rfl⟩ := EStateM.Result.ok.inj hasked
    exact hends s (memberTarget?_eq_some hs).2.1 (ho.inherits hnamed hx hs) q' hq'

/-- The names that classes of a unit go by. Types that the unit does not have go by none. -/
def classNames (u : CompilationUnit) : Finset String :=
  insert "" ((Finset.range u.cursors.size).image (declaredName u) ∪
    (Finset.range u.types.size).image (recordedName u))

theorem card_classNames_le (u : CompilationUnit) :
    (classNames u).card ≤ u.cursors.size + u.types.size + 1 := by
  have hcursors := Finset.card_image_le (s := Finset.range u.cursors.size) (f := declaredName u)
  have htypes := Finset.card_image_le (s := Finset.range u.types.size) (f := recordedName u)
  have hunion := Finset.card_union_le ((Finset.range u.cursors.size).image (declaredName u))
    ((Finset.range u.types.size).image (recordedName u))
  have hinsert := Finset.card_insert_le "" ((Finset.range u.cursors.size).image (declaredName u) ∪
    (Finset.range u.types.size).image (recordedName u))
  rw [Finset.card_range] at hcursors htypes
  rw [classNames]
  omega

theorem recordedName_mem (u : CompilationUnit) (t : TypeId) : recordedName u t ∈ classNames u := by
  by_cases ht : t < u.types.size
  · simp only [classNames, Finset.mem_insert, Finset.mem_union, Finset.mem_image, Finset.mem_range]
    exact .inr (.inr ⟨t, ht, rfl⟩)
  · have hunknown := type_of_size_le (Nat.le_of_not_lt ht)
    simp [classNames, recordedName, unwrap, hunknown, FrontType.unknown]

theorem Inherits.mem_classNames {u : CompilationUnit} {n m : String} (h : Inherits u n m) :
    n ∈ classNames u := by
  obtain ⟨d, hwalked, -⟩ := h
  cases hwalked with
  | declared hkind =>
    have hlt : d < u.cursors.size := by
      apply Nat.lt_of_not_le
      intro hge
      rw [cursor_of_size_le hge] at hkind
      cases hkind
    simp only [classNames, Finset.mem_insert, Finset.mem_union, Finset.mem_image, Finset.mem_range]
    exact .inr (.inl ⟨d, hlt, rfl⟩)
  | typed | specialized => exact recordedName_mem u _

/-- No chain of bases is longer than the unit has names for classes. -/
theorem ends_reflectClass (hu : ArgumentsEnd c.unit) (ht : t.IsClass c.unit)
    (hp : OriginsNamed c.unit p) (hn : Grounded c.unit (targetName c.unit t)) :
    Ends (reflectClass c t) p := by
  refine depth_induction (R := Inherits c.unit) (S := classNames c.unit) (P := fun n m =>
    ∀ t : Target, t.IsClass c.unit → targetName c.unit t = m → ∀ p, OriginsNamed c.unit p →
      Ends (reflectWithin c n t) p) (fun _ _ h => h.mem_classNames) ?_ hn ?_ t ht rfl p hp
  · rintro n - ih t ht rfl p hp
    exact ends_reflectWith hu (reflectWithin_records n) ht hp fun s hs hinherits q hq =>
      ih _ hinherits s hs rfl q hq
  · have := card_classNames_le c.unit
    omega

end classes

/-! ## Declarations -/

/-- A selected declaration asks for the class that it declares or stands for. -/
inductive Wants (c : Context) (d : CursorId) : Target → Prop
  | class : c.isEligible d → (c.unit.cursor d).kind.isClass →
      Wants c d (.declared d (c.metadata (c.unit.cursor d)))
  | alias {t : TypeId} : c.isEligible d → (c.unit.cursor d).kind.isAlias →
      (c.unit.cursor d).type = some t → (c.unit.canonical t).kind = .record →
      Wants c d (.typed (c.unit.type t).canonical)

/-- The class that an alias for the type has recorded: a specialisation that is not known. -/
def targetAsked (c : Context) (t : TypeId) (target : CppType) : Walk (Option Target) := do
  let r ← Walk.registry
  match (c.unit.type t).kind, r.classes.find? target.qualifiedName with
  | .record, none => return if target.isTemplated then some (.typed t) else none
  | _, _ => return none

/-- The class that an alias has recorded, when it is new. -/
def aliasAsked (c : Context) (i : CursorId) : Walk (Option Target) := do
  let some own := (c.unit.cursor i).type | return none
  let type ← resolveType c.unit own
  match (← Walk.registry).aliases.find? type.qualifiedName with
  | some _ => return none
  | none =>
    let aliased := (c.unit.type own).canonical
    targetAsked c aliased (← resolveType c.unit aliased)

/-- The class that a declaration has recorded. -/
def asked (c : Context) (d : CursorId) : Walk (Option Target) :=
  if c.isEligible d then
    if (c.unit.cursor d).kind.isClass then
      return some (.declared d (c.metadata (c.unit.cursor d)))
    else if (c.unit.cursor d).kind.isAlias then aliasAsked c d
    else return none
  else return none

section declarations
variable {c : Context} {p : Progress}

theorem Wants.isClass {d : CursorId} {t : Target} (h : Wants c d t) : t.IsClass c.unit := by
  cases h with
  | «class» _ hkind => exact hkind
  | «alias» _ _ _ hrecord => exact ⟨⟨_, rfl⟩, .inl hrecord⟩

theorem quiet_registry {u : CompilationUnit} : Quiet u Walk.registry :=
  ⟨fun _ _ => ends_registry, fun _ => yields_registry ⟨rfl, id⟩⟩

theorem quiet_update {u : CompilationUnit} {f : Registry → Except Failure Registry}
    (herror : ∀ r e, f r = .error e → e.isReflection)
    (hok : ∀ r s, f r = .ok s → s.classes = r.classes) : Quiet u (Walk.update f) where
  ends _ _ := ends_update fun e h => herror _ e h
  keeps _ := yields_update fun r h => ⟨hok _ r h, id⟩

theorem classes_eq_of_ensureType {r s : Registry} {t : CppType} (h : r.ensureType t = .ok s) :
    s.classes = r.classes := by
  obtain ⟨-, rfl⟩ | ⟨-, h⟩ := Registry.ensureType_ok h
  · rfl
  · obtain ⟨holders, -, rfl⟩ := Registry.addType_ok h
    rfl

theorem quiet_addEnum {u : CompilationUnit} (e : EnumRecord) :
    Quiet u (Walk.update fun r => r.addEnum e) := by
  refine quiet_update (fun _ _ h => Insertion.isReflection_of_error (i := .enum e) h) fun r s h => ?_
  obtain ⟨s', hs, rfl⟩ := Registry.addEnum_ok h
  have heq := classes_eq_of_ensureType hs
  exact heq

theorem quiet_addAlias {u : CompilationUnit} (a : AliasRecord) :
    Quiet u (Walk.update fun r => r.addAlias a) := by
  refine quiet_update (fun _ _ h => Insertion.isReflection_of_error (i := .secondName a) h)
    fun r s h => ?_
  obtain ⟨s', hs, rfl⟩ := Registry.addAlias_ok h
  have heq := classes_eq_of_ensureType hs
  exact heq

theorem quiet_addFunction {u : CompilationUnit} (f : FunctionRecord) :
    Quiet u (Walk.update fun r => r.addFunction f) := by
  refine quiet_update (fun _ _ h => Insertion.isReflection_of_error (i := .function f) h)
    fun r s h => ?_
  obtain ⟨holders, -, rfl⟩ := Registry.addFunction_ok h
  rfl

theorem quiet_resolveCursor {u : CompilationUnit} (d : CursorId) : Quiet u (resolveCursor u d) :=
  quiet_of_resolves (fun hu _ => ends_resolveCursor hu d)
    fun _ => (resolveCursor_spec d).mono fun _ _ h => h.1

theorem quiet_signatureOf (d : Cursor) : Quiet c.unit (signatureOf c.unit d) :=
  quiet_of_resolves (fun hu _ => ends_signatureOf hu d)
    fun _ => (signatureOf_spec d).mono fun _ _ h => h.1

theorem quiet_reflectEnum (i : CursorId) (m : Metadata) : Quiet c.unit (reflectEnum c i m) := by
  refine (quiet_resolveCursor i).bind fun type => quiet_registry.bind fun r => ?_
  split
  · exact quiet_pure _
  · exact (quiet_addEnum _).bind fun _ => quiet_pure _

theorem quiet_reflectFunction (i : CursorId) (m : Metadata) :
    Quiet c.unit (reflectFunction c i m) := by
  refine quiet_registry.bind fun r => ?_
  split
  · exact quiet_pure _
  · refine (quiet_signatureOf _).bind fun _ => ?_
    exact (quiet_addFunction _).bind fun _ => quiet_pure _

theorem aliasTargets_calls (t : TypeId) (target : CppType) :
    Calls c.unit (reflectClass c) (targetAsked c t target) (aliasTargets c t target) := by
  refine .after quiet_registry fun r => ?_
  generalize (c.unit.type t).kind = k
  cases k
  case record =>
    dsimp only
    cases r.classes.find? target.qualifiedName with
    | some known => exact .quiet (quiet_pure _)
    | none =>
      dsimp only
      split
      · exact (Calls.reflect _).bind fun k => quiet_pure _
      · exact .quiet (quiet_pure _)
  all_goals exact .quiet (quiet_pure _)

/-- An alias has recorded what it stands for between the types and its own record. -/
theorem reflectAlias_calls (i : CursorId) (m : Metadata) :
    Calls c.unit (reflectClass c) (aliasAsked c i) (reflectAlias c i m) := by
  unfold reflectAlias aliasAsked
  dsimp only
  cases (c.unit.cursor i).type with
  | none => exact .quiet (quiet_throw rfl)
  | some own =>
    refine .after (quiet_resolveType own) fun type => .after quiet_registry fun r => ?_
    cases r.aliases.find? type.qualifiedName with
    | some known => exact .quiet (quiet_pure _)
    | none =>
      refine .after (quiet_resolveType _) fun target => ?_
      refine (aliasTargets_calls _ target).bind fun targets => ?_
      exact (quiet_addAlias _).bind fun _ => quiet_pure _

/-- A declaration has at most one class recorded. -/
theorem reflectDeclaration_calls (d : CursorId) :
    Calls c.unit (reflectClass c) (asked c d) (reflectDeclaration c d) := by
  rw [reflectDeclaration_eq]
  unfold asked
  dsimp only
  split
  · split
    · exact (Calls.reflect _).bind fun _ => quiet_pure _
    · split
      · next halias =>
        have henum : (c.unit.cursor d).kind ≠ .enumDecl := by
          intro hkind
          rw [hkind] at halias
          cases halias
        rw [if_neg henum]
        exact (reflectAlias_calls d _).bind fun _ => quiet_pure _
      · refine .quiet ?_
        split
        · exact (quiet_reflectEnum d _).bind fun _ => quiet_pure _
        · exact (quiet_reflectFunction d _).bind fun _ => quiet_pure _
  · exact .quiet (quiet_pure _)

theorem asked_spec (d : CursorId) :
    Yields (asked c d) p fun o _ => ∀ t ∈ o, Wants c d t := by
  unfold asked
  split
  · next heligible =>
    split
    · next hkind =>
      refine yields_pure ?_
      rintro t ⟨rfl⟩
      exact .class heligible hkind
    · split
      · next halias =>
        unfold aliasAsked
        split
        · next own hown =>
          refine yields_bind_any fun type q => ?_
          refine yields_bind_any fun r q => ?_
          split
          · exact yields_pure (by simp)
          · refine yields_bind_any fun target q => ?_
            refine yields_bind_any fun r q => ?_
            split
            · next hrecord _ =>
              refine yields_pure ?_
              split
              · rintro t ⟨rfl⟩
                exact .alias heligible halias hown hrecord
              · simp
            · exact yields_pure (by simp)
        · exact yields_pure (by simp)
      · exact yields_pure (by simp)
  · exact yields_pure (by simp)

/-- A declaration comes to an end when the class that it asks for is grounded. -/
theorem ends_reflectDeclaration (hu : ArgumentsEnd c.unit) (d : CursorId)
    (hp : OriginsNamed c.unit p) (hd : ∀ t, Wants c d t → Grounded c.unit (targetName c.unit t)) :
    Ends (reflectDeclaration c d) p := by
  refine (reflectDeclaration_calls d).ends hu fun t q hasked => ?_
  have hwants := asked_spec d _ q hasked t rfl
  have hnamed := ((reflectDeclaration_calls d).asked_quiet.keeps p _ q hasked).2 hp
  exact ends_reflectClass hu hwants.isClass hnamed (hd t hwants)

end declarations

/-! ## Namespaces -/

/-- The declaration is in the unit or the namespace. -/
def IsIn (u : CompilationUnit) (i j : CursorId) : Prop :=
  ((u.cursor i).kind = .unit ∨ (u.cursor i).kind = .namespace) ∧ j ∈ (u.cursor i).children

/-- No namespace is in itself, at any depth. -/
def ScopesEnd (u : CompilationUnit) : Prop := ∀ i, ¬ TransGen (IsIn u) i i

section scopes
variable {c : Context}

theorem IsIn.lt_size {u : CompilationUnit} {i j : CursorId} (h : IsIn u i j) :
    i < u.cursors.size := by
  apply Nat.lt_of_not_le
  intro hge
  have hmem := h.2
  rw [cursor_of_size_le hge] at hmem
  cases hmem

theorem Met.append {u : CompilationUnit} {is is' l l' : List CursorId} (h : Met u is l)
    (h' : Met u is' l') : Met u (is ++ is') (l ++ l') := by
  induction h with
  | nil => exact h'
  | declaration hunit hnamespace _ ih => exact .declaration hunit hnamespace ih
  | scope hscope hchildren _ _ ih =>
    rw [List.append_assoc]
    exact .scope hscope hchildren ih

/-- What is gone through one by one is met all together. -/
theorem forM_met {f : CursorId → Walk PUnit} {is : List CursorId}
    (h : ∀ i ∈ is, ∃ l, Met c.unit [i] l ∧ f i = forM l (reflectDeclaration c)) :
    ∃ l, Met c.unit is l ∧ forM is f = forM l (reflectDeclaration c) := by
  induction is with
  | nil => exact ⟨[], .nil, rfl⟩
  | cons i is ih =>
    obtain ⟨l, hl, hf⟩ := h i (List.mem_cons_self ..)
    obtain ⟨l', hl', hrest⟩ := ih fun j hj => h j (List.mem_cons_of_mem _ hj)
    refine ⟨l ++ l', hl.append hl', ?_⟩
    rw [List.forM_cons, List.forM_append, hf, hrest]

/-- Where no namespace is in itself, the walk goes through the declarations that it meets. -/
theorem reflect_eq_forM (hs : ScopesEnd c.unit) (i : CursorId) :
    ∃ l, Met c.unit [i] l ∧ reflect c i = forM l (reflectDeclaration c) := by
  refine depth_induction (R := IsIn c.unit) (S := Finset.range c.unit.cursors.size)
    (P := fun n i => ∃ l, Met c.unit [i] l ∧ reflectFrom c n i = forM l (reflectDeclaration c))
    (fun _ _ h => Finset.mem_range.2 h.lt_size) ?_ (fun j _ => hs j) ?_
  · intro n i ih
    unfold reflectFrom
    dsimp only
    split
    · next hscope =>
      have hscope' : (c.unit.cursor i).kind = .unit ∨ (c.unit.cursor i).kind = .namespace := by
        simpa using hscope
      obtain ⟨l, hl, hrun⟩ := forM_met fun j hj => ih j ⟨hscope', hj⟩
      refine ⟨l, ?_, hrun⟩
      simpa using Met.scope hscope' hl .nil
    · next hscope =>
      have hkind : (c.unit.cursor i).kind ≠ .unit ∧ (c.unit.cursor i).kind ≠ .namespace := by
        simpa using hscope
      refine ⟨[i], .declaration hkind.1 hkind.2 .nil, ?_⟩
      rw [List.forM_cons, List.forM_nil]
      exact bind_pure_unit.symm
  · rw [Finset.card_range]
    exact Nat.lt_succ_self _

end scopes
/-! ## Bases without end -/

/-- Whatever declaration the members of a class of the name are walked at, there is a base specifier
for another such class among them. -/
def Endless (u : CompilationUnit) (n : String) : Prop :=
  ∃ names : String → Prop, names n ∧ ∀ m, names m → ∀ d, Walked u m d →
    ∃ x ∈ (u.cursor d).children, (u.cursor x).kind = .baseSpecifier ∧
      ∃ b, baseName? u (u.cursor x) = some b ∧ names b

section endless
variable {c : Context} {reflect : Target → Walk ClassRecord} {p : Progress}

theorem Endless.base {u : CompilationUnit} {n : String} {d : CursorId} (h : Endless u n)
    (hd : Walked u n d) : ∃ x ∈ (u.cursor d).children, (u.cursor x).kind = .baseSpecifier ∧
      ∃ b, baseName? u (u.cursor x) = some b ∧ Endless u b := by
  obtain ⟨names, hn, hnames⟩ := h
  obtain ⟨x, hx, hkind, b, hname, hb⟩ := hnames n hn d hd
  exact ⟨x, hx, hkind, b, hname, names, hb, hnames⟩

/-- The class comes in last, after what its members lead to. -/
theorem enterWith_keys (hrecords : Records c reflect) {n : String} {o : Opening}
    (ho : o.Opens c n p) (hp : OriginsNamed c.unit p) {I : ClassRecord → Progress → Prop}
    (hI : Yields ((c.unit.cursor o.source).children.foldlM (addMember c reflect o.specialized)
      o.start) p I) :
    Yields (enterWith c reflect o.specialized o.source o.start) p fun _ q => ∃ r q', I r q' ∧
      ∀ m, m ∈ q.registry.classes.keys ↔ m = n ∨ m ∈ q'.registry.classes.keys := by
  refine yields_bind ((members_spec hrecords ho.source hp ho.members).and hI) ?_
  rintro r q' ⟨⟨hrecording, htype, -⟩, hq'⟩
  have hsame : (settled o.specialized r).type = o.start.type := (settled_type _ r).trans htype
  refine (finish_withClass (hsame ▸ hrecording.grows.type_mem ho.source.type_mem)).mono ?_
  rintro - q ⟨promoted, p', hreported, rfl⟩
  refine ⟨r, q', hq', fun m => ?_⟩
  have hkeys : m ∈ (p'.withClass { settled o.specialized r with
      fields := (settled o.specialized r).fields ++ promoted }).registry.classes.keys ↔
        m = (settled o.specialized r).type.qualifiedName ∨ m ∈ p'.registry.classes.keys :=
    Catalog.mem_keys_insert
  have hname : o.start.type.qualifiedName = n := ho.name
  rw [hkeys, hsame, hname, hreported.registry_eq]

/-- No class is there whose bases have no end. -/
def EachEnds (u : CompilationUnit) (p : Progress) : Prop :=
  OriginsNamed u p ∧ ∀ m ∈ p.registry.classes.keys, ¬ Endless u m

theorem stable_eachEnds {u : CompilationUnit} : Stable u (EachEnds u) :=
  stable_named.and (stable_keys (P := fun l => ∀ m ∈ l, ¬ Endless u m))

/-- A member is done only if the base that it leads to has an end. -/
theorem addMember_eachEnds (hreflect : ∀ t q, t.IsClass c.unit → EachEnds c.unit q →
      Yields (reflect t) q fun _ q' => ¬ Endless c.unit (targetName c.unit t) ∧ EachEnds c.unit q')
    (flag : Bool) (r : ClassRecord) (x : CursorId) (hp : EachEnds c.unit p) :
    Yields (addMember c reflect flag r x) p fun _ q => EachEnds c.unit q ∧
      ∀ s ∈ memberTarget? c x, ¬ Endless c.unit (targetName c.unit s) := by
  refine (addMember_calls reflect flag r x).yields stable_eachEnds
    (stable_eachEnds.and fun _ _ _ _ h => h) ?_ ?_ hp
  · rintro q hasked hq
    obtain ⟨hnone, rfl⟩ := EStateM.Result.ok.inj hasked
    exact ⟨hq, by simp [hnone]⟩
  · rintro s q hasked hq
    obtain ⟨hs, rfl⟩ := EStateM.Result.ok.inj hasked
    refine (hreflect s _ (memberTarget?_eq_some hs).2.1 hq).mono ?_
    rintro - q' ⟨hbase, hq'⟩
    refine ⟨hq', fun s' hs' => ?_⟩
    obtain rfl := Option.some.inj (hs.symm.trans hs')
    exact hbase

/-- No class is recorded whose bases have no end, at any depth. -/
theorem reflectWithin_eachEnds (n : Nat) {t : Target} (ht : t.IsClass c.unit)
    (hp : EachEnds c.unit p) :
    Yields (reflectWithin c n t) p fun _ q =>
      ¬ Endless c.unit (targetName c.unit t) ∧ EachEnds c.unit q := by
  induction n generalizing p t with
  | zero => exact yields_throw
  | succ n ih =>
    suffices hkeys : Yields (reflectWithin c (n + 1) t) p fun _ q =>
        ¬ Endless c.unit (targetName c.unit t) ∧
          ∀ m ∈ q.registry.classes.keys, ¬ Endless c.unit m from
      ((reflectWithin_records (n + 1) t p ht hp.1).and hkeys).mono fun _ _ h =>
        ⟨h.2.1, hp.1.steps h.1.1.steps, h.2.2⟩
    rw [reflectWithin, reflectWith_eq]
    refine yields_bind (opening_spec ht) ?_
    rintro a q ⟨hq, hknown, hopens⟩
    have hq' := stable_eachEnds p q hq.classes_eq hq.named hp
    cases a with
    | inl known => exact yields_pure ⟨hq'.2 _ (hknown known rfl), hq'.2⟩
    | inr o =>
      have ho := hopens o rfl
      refine (enterWith_keys (reflectWithin_records n) ho hq'.1 (I := fun _ q' =>
        EachEnds c.unit q' ∧ ∀ x ∈ (c.unit.cursor o.source).children, ∀ s ∈ memberTarget? c x,
          ¬ Endless c.unit (targetName c.unit s)) ?_).mono ?_
      · refine yields_foldlM (I := fun done _ q' => EachEnds c.unit q' ∧
          ∀ x ∈ done, ∀ s ∈ memberTarget? c x, ¬ Endless c.unit (targetName c.unit s)) ?_
          ⟨hq', by simp⟩
        rintro done x - r q₁ ⟨hq₁, hdone⟩
        refine (addMember_eachEnds (fun t q ht hq => ih ht hq) _ r x hq₁).mono ?_
        rintro - q₂ ⟨hq₂, hx⟩
        exact ⟨hq₂, List.forall_mem_append.2 ⟨hdone, List.forall_mem_singleton.2 hx⟩⟩
      · rintro - q'' ⟨r, q', ⟨hends, hmembers⟩, hentered⟩
        have hown : ¬ Endless c.unit (targetName c.unit t) := by
          intro hendless
          obtain ⟨x, hx, hkind, b, hname, hb⟩ := hendless.base (ho.walked hq'.1)
          rw [baseName?_eq, Option.map_eq_some_iff] at hname
          obtain ⟨s, hs, rfl⟩ := hname
          exact hmembers x hx s (by rwa [memberTarget?, if_pos hkind]) hb
        refine ⟨hown, fun m hm => ?_⟩
        rcases (hentered m).1 hm with rfl | hm
        · exact hown
        · exact hends.2 m hm

end endless

/-- A declaration of a class whose bases have no end is not done. -/
theorem reflectDeclaration_endless {c : Context} {p : Progress} {d : CursorId} {m : Metadata}
    (hd : Wants c d (.declared d m)) (hendless : Endless c.unit (declaredName c.unit d))
    (hp : EachEnds c.unit p) : Yields (reflectDeclaration c d) p fun _ _ => False := by
  obtain ⟨heligible, hkind⟩ : c.isEligible d ∧ (c.unit.cursor d).kind.isClass := by
    cases hd with
    | «class» heligible hkind => exact ⟨heligible, hkind⟩
  have hasked : asked c d = pure (some (.declared d (c.metadata (c.unit.cursor d)))) := by
    rw [asked, if_pos heligible, if_pos hkind]
  refine (reflectDeclaration_calls d).yields (R := fun _ => False) stable_eachEnds
    (fun _ _ _ _ h => h) ?_ ?_ hp
  · intro q hnone
    rw [hasked] at hnone
    cases hnone
  · intro t q hsome hq
    rw [hasked] at hsome
    cases hsome
    have hclass : (Target.declared d (c.metadata (c.unit.cursor d))).IsClass c.unit := hkind
    exact (reflectWithin_eachEnds _ hclass hq).mono fun _ _ h => h.1 hendless

/-- A walk that goes through such a declaration does not succeed. -/
theorem forM_endless {c : Context} {p : Progress} {l : List CursorId} {d : CursorId} {m : Metadata}
    (hl : d ∈ l) (hd : Wants c d (.declared d m)) (hendless : Endless c.unit (declaredName c.unit d))
    (hp : EachEnds c.unit p) : Yields (forM l (reflectDeclaration c)) p fun _ _ => False := by
  obtain ⟨before, rest, rfl⟩ := List.append_of_mem hl
  rw [List.forM_append, List.forM_cons]
  refine yields_bind (yields_forM (I := EachEnds c.unit) (fun e _ q hq => ?_) hp) fun _ q hq => ?_
  · refine (reflectDeclaration_calls e).yields stable_eachEnds stable_eachEnds (fun _ _ h => h) ?_ hq
    intro t q' hasked hq'
    have hclass := (asked_spec e _ q' hasked t rfl).isClass
    exact (reflectWithin_eachEnds _ hclass hq').mono fun _ _ h => h.2
  · exact yields_bind (reflectDeclaration_endless hd hendless hq) fun _ _ => False.elim

end Introspect.Reflection
