import Introspect.Proofs.Reflection.Ends

/-! A class that is to be recorded is known already, or its members are walked. What comes before
the members, and which of them lead to other classes. -/
namespace Introspect.Reflection

/-! ## Members -/

/-- A step that comes to an end whenever template arguments do, and brings no class in. -/
structure Quiet (u : CompilationUnit) {α : Type} (m : Walk α) : Prop where
  ends : ArgumentsEnd u → ∀ p, Ends m p
  keeps : ∀ p, Yields m p fun _ q =>
    q.registry.classes = p.registry.classes ∧ (OriginsNamed u p → OriginsNamed u q)

/-- A step that has at most one class recorded and is quiet otherwise. It goes the way of the first
walk up to that class, which is the result of that walk. -/
inductive Calls (u : CompilationUnit) (reflect : Target → Walk ClassRecord) :
    {α : Type} → Walk (Option Target) → Walk α → Prop
  | quiet {α} {m : Walk α} : Quiet u m → Calls u reflect (pure none) m
  | reflect (t : Target) : Calls u reflect (pure (some t)) (reflect t)
  | bind {α β} {asked : Walk (Option Target)} {m : Walk α} {f : α → Walk β} :
      Calls u reflect asked m → (∀ a, Quiet u (f a)) → Calls u reflect asked (m >>= f)
  | after {α β} {m : Walk β} {asked : β → Walk (Option Target)} {f : β → Walk α} :
      Quiet u m → (∀ b, Calls u reflect (asked b) (f b)) → Calls u reflect (m >>= asked) (m >>= f)

/-- The class behind a base specifier. -/
def baseTarget? (c : Context) (d : Cursor) : Option Target := do
  let type ← d.type
  let e ← (c.unit.canonical type).declaration
  match (c.unit.cursor e).kind with
  | .classTemplate => some (.declared e (c.metadata (c.unit.cursor e)))
  | .classDecl | .structDecl => some (.typed (c.unit.type type).canonical)
  | _ => none

/-- The class that a member leads to, which is a base. -/
def memberTarget? (c : Context) (x : CursorId) : Option Target :=
  if (c.unit.cursor x).kind = .baseSpecifier then baseTarget? c (c.unit.cursor x) else none

section quiet
variable {u : CompilationUnit} {α β : Type}

theorem quiet_pure (a : α) : Quiet u (pure a : Walk α) :=
  ⟨fun _ _ => ends_pure, fun _ => yields_pure ⟨rfl, id⟩⟩

theorem quiet_throw {e : Failure} (h : e.isReflection) : Quiet u (throw e : Walk α) :=
  ⟨fun _ _ => ends_throw h, fun _ => yields_throw⟩

theorem Quiet.bind {m : Walk α} {f : α → Walk β} (hm : Quiet u m) (hf : ∀ a, Quiet u (f a)) :
    Quiet u (m >>= f) where
  ends hu p := ends_bind (hm.ends hu p) fun a q _ => (hf a).ends hu q
  keeps p := yields_bind (hm.keeps p) fun a _ h =>
    ((hf a).keeps _).mono fun _ _ h' => ⟨h'.1.trans h.1, fun hp => h'.2 (h.2 hp)⟩

theorem quiet_mapM {f : α → Walk β} {l : List α} (hf : ∀ a ∈ l, Quiet u (f a)) :
    Quiet u (l.mapM f) := by
  induction l with
  | nil => exact quiet_pure []
  | cons a l ih =>
    rw [List.mapM_cons]
    refine (hf a (List.mem_cons_self ..)).bind fun b => ?_
    exact (ih fun a ha => hf a (List.mem_cons_of_mem _ ha)).bind fun bs => quiet_pure _

theorem quiet_of_resolves {m : Walk α} (hends : ArgumentsEnd u → ∀ p, Ends m p)
    (h : ∀ p, Yields m p fun _ q => Resolves u p q) : Quiet u m :=
  ⟨hends, fun p => (h p).mono fun _ _ hq => ⟨hq.classes_eq, hq.named⟩⟩

theorem quiet_of_reported {m : Walk α} (hends : ∀ p, Ends m p)
    (h : ∀ p, Yields m p fun _ q => Reported p q) : Quiet u m := by
  refine ⟨fun _ => hends, fun p => (h p).mono fun _ q hq => ?_⟩
  obtain ⟨es, rfl⟩ := hq
  exact ⟨rfl, id⟩

theorem quiet_resolveType (i : TypeId) : Quiet u (resolveType u i) :=
  quiet_of_resolves (fun hu _ => ends_resolveType hu i)
    fun _ => (resolveType_spec i).mono fun _ _ h => h.1.resolves

theorem quiet_bound (f : Progress → Table (String × String) (List CppType)) :
    Quiet u (modify fun p => { p with baseArguments := f p } : Walk Unit) :=
  ⟨fun _ _ => ends_modify, fun _ => yields_modify ⟨rfl, id⟩⟩

theorem Calls.asked_quiet {reflect : Target → Walk ClassRecord} {asked : Walk (Option Target)}
    {m : Walk α} (h : Calls u reflect asked m) : Quiet u asked := by
  induction h with
  | quiet => exact quiet_pure none
  | reflect t => exact quiet_pure (some t)
  | bind _ _ ih => exact ih
  | after hm _ ih => exact hm.bind ih

end quiet

section members
variable {c : Context}

theorem quiet_fieldOf {x : CursorId} {m : Metadata}
    (hm : c.reflected? (c.unit.cursor x) = some m) :
    Quiet c.unit (fieldOf c.unit (c.unit.cursor x) m) :=
  quiet_of_resolves (fun hu _ => ends_fieldOf hu _ m) fun _ => (fieldOf_spec hm).mono fun _ _ h => h.1

theorem quiet_methodOf {x : CursorId} {m : Metadata}
    (hm : c.reflected? (c.unit.cursor x) = some m) :
    Quiet c.unit (methodOf c.unit (c.unit.cursor x) m) :=
  quiet_of_resolves (fun hu _ => ends_methodOf hu _ m)
    fun _ => (methodOf_spec hm).mono fun _ _ h => h.1

theorem quiet_specializeMethod (type : CppType) (m : Method) :
    Quiet c.unit (specializeMethod type m) :=
  quiet_of_reported (fun _ => ends_specializeMethod type m) fun _ => specializeMethod_reports type m

theorem baseName?_eq (d : Cursor) :
    baseName? c.unit d = (baseTarget? c d).map (targetName c.unit) := by
  unfold baseName? baseTarget?
  cases d.type with
  | none => rfl
  | some type =>
    cases he : (c.unit.canonical type).declaration with
    | none => simp [he]
    | some e =>
      simp only [he, Option.bind_eq_bind, Option.bind_some]
      generalize (c.unit.cursor e).kind = k
      cases k <;> rfl

/-- The arguments of a base specifier are remembered after the class has been recorded. -/
theorem baseOf_calls (reflect : Target → Walk ClassRecord) (d : Cursor) (r : ClassRecord) :
    Calls c.unit reflect (pure (baseTarget? c d)) (baseOf c reflect d r) := by
  unfold baseOf baseTarget?
  cases d.type with
  | none => exact .quiet (quiet_throw rfl)
  | some type =>
    simp only [CompilationUnit.canonical, Option.bind_eq_bind, Option.bind_some]
    cases (c.unit.type (c.unit.type type).canonical).declaration with
    | none => exact .quiet (quiet_throw rfl)
    | some e =>
      simp only [Option.bind_some]
      generalize (c.unit.cursor e).kind = k
      cases k
      case classTemplate =>
        refine (Calls.reflect _).bind fun known => ?_
        refine (quiet_mapM fun i _ => quiet_resolveType i).bind fun as => ?_
        split
        · exact quiet_pure known
        · exact (quiet_bound _).bind fun _ => quiet_pure known
      case classDecl | structDecl => exact .reflect _
      all_goals exact .quiet (quiet_throw rfl)

/-- A member has at most one class recorded, which is a base. -/
theorem addMember_calls (reflect : Target → Walk ClassRecord) (flag : Bool) (r : ClassRecord)
    (x : CursorId) :
    Calls c.unit reflect (pure (memberTarget? c x)) (addMember c reflect flag r x) := by
  unfold addMember memberTarget?
  dsimp only
  by_cases hkind : (c.unit.cursor x).kind = .baseSpecifier
  · have hmarker : isBodyMarker c (c.unit.cursor x) = false := by simp [isBodyMarker, hkind]
    simp only [hmarker, Bool.false_eq_true, if_false, if_pos hkind]
    exact (baseOf_calls reflect _ r).bind fun _ => quiet_pure _
  · simp only [if_neg hkind]
    refine .quiet ?_
    split
    · exact quiet_pure _
    · split
      · exact quiet_pure _
      · next m hm =>
        split
        · split
          · exact quiet_pure _
          · exact (quiet_fieldOf hm).bind fun _ => quiet_pure _
        · refine (quiet_methodOf hm).bind fun method => ?_
          split
          · exact (quiet_specializeMethod _ method).bind fun _ => quiet_pure _
          · exact quiet_pure _
        · exact quiet_throw rfl

end members

/-! ## What comes before the members -/

/-- Where the members of a new class are found, and its record before the first of them. -/
structure Opening where
  specialized : Bool
  source : CursorId
  start : ClassRecord

/-- What comes before the members of a class: the record that is known already, or where the
members of a new one are found. -/
def opening (c : Context) : Target → Walk (ClassRecord ⊕ Opening)
  | .declared i m => do
    let type ← resolveCursor c.unit i
    match (← Walk.registry).classes.find? type.qualifiedName with
    | some known => return .inl known
    | none => return .inr ⟨false, i, freshRecord (c.unit.cursor i) m type⟩
  | .typed t => do
    let type ← resolveType c.unit t
    match (← Walk.registry).classes.find? type.qualifiedName with
    | some known => return .inl known
    | none =>
      let some declaration := (c.unit.canonical t).declaration
        | throw (.unsupported (.typeWithoutDeclaration (c.unit.type t).spelling))
      let d := c.unit.cursor declaration
      let start := freshRecord d (c.metadata d) type
      if type.isSpecialized then return .inr ⟨true, ← templateOrigin type, start⟩
      else return .inr ⟨false, declaration, start⟩

section opening
variable {c : Context} {p : Progress}

/-- A class is recorded by its members, unless it is known. -/
theorem reflectWith_eq (reflect : Target → Walk ClassRecord) (t : Target) :
    reflectWith c reflect t = (do
      match ← opening c t with
      | .inl known => return known
      | .inr o => enterWith c reflect o.specialized o.source o.start) := by
  cases t with
  | declared i m =>
    simp only [reflectWith, reflectDeclared, opening, bind_assoc]
    congr 1
    funext type
    congr 1
    funext r
    cases r.classes.find? type.qualifiedName <;> rfl
  | typed t =>
    simp only [reflectWith, reflectTyped, opening, bind_assoc]
    congr 1
    funext type
    congr 1
    funext r
    cases r.classes.find? type.qualifiedName with
    | some known => rfl
    | none =>
      cases (c.unit.canonical t).declaration with
      | none => rfl
      | some e =>
        cases type.isSpecialized with
        | false => rfl
        | true => simp [enterWith, settled, freshRecord]

/-- The class is new, and its members are found at a declaration of it. -/
structure Opening.Opens (c : Context) (n : String) (q : Progress) (o : Opening) : Prop where
  name : o.start.qualifiedName = n
  new : n ∉ q.registry.classes.keys
  source : ClassSource c.unit q o.start.type o.specialized o.source
  members : Members c q o.specialized [] o.start

theorem opening_spec {t : Target} (ht : t.IsClass c.unit) :
    Yields (opening c t) p fun a q => Resolves c.unit p q ∧
      (∀ k, a = .inl k → targetName c.unit t ∈ q.registry.classes.keys) ∧
      ∀ o, a = .inr o → o.Opens c (targetName c.unit t) q := by
  cases t with
  | declared d m =>
    refine yields_bind (resolveCursor_spec d) ?_
    rintro type q ⟨hq, htype⟩
    have hname : targetName c.unit (.declared d m) = type.qualifiedName :=
      (Catalog.key_of_find? htype).symm
    rw [hname]
    refine yields_bind (R := fun r q' => q' = q ∧ r = q.registry) (yields_registry ⟨rfl, rfl⟩) ?_
    rintro r q' ⟨rfl, rfl⟩
    split
    · next known hknown =>
      exact yields_pure ⟨hq, fun _ _ => Catalog.mem_keys_of_find? hknown, by simp⟩
    · next hnone =>
      have hnew := Catalog.find?_eq_none_iff.1 hnone
      refine yields_pure ⟨hq, by simp, ?_⟩
      rintro o ⟨rfl⟩
      exact ⟨rfl, hnew, .declared ht htype, members_freshRecord ..⟩
  | typed t =>
    refine yields_bind (resolveType_spec t) ?_
    rintro type q ⟨⟨hq, -⟩, htype⟩
    have hname : targetName c.unit (.typed t) = type.qualifiedName :=
      (Catalog.key_of_find? htype).symm
    rw [hname]
    refine yields_bind (R := fun r q' => q' = q ∧ r = q.registry) (yields_registry ⟨rfl, rfl⟩) ?_
    rintro r q' ⟨rfl, rfl⟩
    split
    · next known hknown =>
      exact yields_pure ⟨hq, fun _ _ => Catalog.mem_keys_of_find? hknown, by simp⟩
    · next hnone =>
      have hnew := Catalog.find?_eq_none_iff.1 hnone
      split
      · next e he =>
        dsimp only
        split
        · next hspecial =>
          refine yields_bind (templateOrigin_spec type) ?_
          rintro d q'' ⟨rfl, hd, generic, hgeneric⟩
          refine yields_pure ⟨hq, by simp, ?_⟩
          rintro o ⟨rfl⟩
          exact ⟨rfl, hnew, .specialized htype hspecial hgeneric hd,
            members_freshRecord ..⟩
        · next hplain =>
          have hplain' : type.isSpecialized = false := by simpa using hplain
          refine yields_pure ⟨hq, by simp, ?_⟩
          rintro o ⟨rfl⟩
          exact ⟨rfl, hnew, .typed ht htype hplain' he,
            members_freshRecord ..⟩
      · exact yields_throw

theorem ends_templateOrigin (type : CppType) : Ends (templateOrigin type) p := by
  refine ends_bind ends_get fun r q _ => ?_
  split
  · exact ends_pure
  · exact ends_throw rfl

theorem ends_opening (hu : ArgumentsEnd c.unit) (t : Target) : Ends (opening c t) p := by
  cases t with
  | declared d m =>
    refine ends_bind (ends_resolveCursor hu d) fun type q _ => ?_
    refine ends_bind ends_registry fun r q' _ => ?_
    split <;> exact ends_pure
  | typed t =>
    refine ends_bind (ends_resolveType hu t) fun type q _ => ?_
    refine ends_bind ends_registry fun r q' _ => ?_
    split
    · exact ends_pure
    · split
      · dsimp only
        split
        · exact ends_bind (ends_templateOrigin type) fun _ _ _ => ends_pure
        · exact ends_pure
      · exact ends_throw rfl

end opening
end Introspect.Reflection
