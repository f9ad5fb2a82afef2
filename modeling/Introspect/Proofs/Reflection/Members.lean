import Introspect.Proofs.Reflection.Types

/-! Walking the members of a class enters what the declarations say, and records only classes that
the class inherits from. -/
namespace Introspect.Reflection
open Relation

/-- Besides types, only classes came in that the given names tell. -/
structure Recording (c : Context) (names : String → Prop) (p q : Progress) : Prop where
  steps : Steps c p q
  names : ∀ n ∈ q.registry.classes.keys, n ∈ p.registry.classes.keys ∨ names n

namespace Recording
variable {c : Context} {names names' : String → Prop} {p q r : Progress}

theorem refl (p : Progress) : Recording c names p p := ⟨.refl, fun _ h => .inl h⟩

theorem trans (hpq : Recording c names p q) (hqr : Recording c names q r) :
    Recording c names p r where
  steps := hpq.steps.trans hqr.steps
  names n hn := by
    rcases hqr.names n hn with hn | hn
    · exact hpq.names n hn
    · exact .inr hn

theorem mono (h : Recording c names p q) (hnames : ∀ n, names n → names' n) :
    Recording c names' p q :=
  ⟨h.steps, fun n hn => (h.names n hn).imp_right (hnames n)⟩

theorem grows (h : Recording c names p q) : Grows p q := .of_steps h.steps

theorem of_resolves (h : Resolves c.unit p q) : Recording c names p q :=
  ⟨.single (.enterTypes h), fun _ hn => .inl (h.classes_eq ▸ hn)⟩

theorem of_reported (h : Reported p q) : Recording c names p q := by
  obtain ⟨es, rfl⟩ := h
  refine ⟨?_, fun _ hn => .inl hn⟩
  induction es generalizing p with
  | nil => simpa using ReflTransGen.refl (a := p)
  | cons e es ih =>
    have hrest := ih (p := { p with events := p.events ++ [e] })
    simp only [List.append_assoc, List.singleton_append] at hrest
    exact .head (.report e) hrest

end Recording

section origins
variable {c : Context} {p q : Progress}

theorem OriginsNamed.step (hp : OriginsNamed c.unit p) (h : Step c p q) :
    OriginsNamed c.unit q := by
  cases h with
  | enterTypes h => exact h.named hp
  | @enterClass q flag d r promoted _ _ hrun _ =>
    obtain ⟨es, rfl⟩ := promotedFields_reports r p _ _ hrun
    exact hp
  | report | bindBase | enterEnum | enterAlias | enterFunction => exact hp

theorem OriginsNamed.steps (hp : OriginsNamed c.unit p) (h : Steps c p q) :
    OriginsNamed c.unit q := by
  induction h with
  | refl => exact hp
  | tail _ hstep ih => exact ih.step hstep

/-- At any time of a walk that started without records. -/
theorem originsNamed_of_steps {hash : NameHash} (h : Steps c (.start (.empty hash)) p) :
    OriginsNamed c.unit p := by
  refine OriginsNamed.steps ?_ h
  intro n d hd
  simp [Progress.start] at hd

theorem templateName_of_specialized {t : CppType} (h : t.isSpecialized) :
    t.templateName? = some (Text.before '<' t.qualifiedName) := by
  have hkind : t.template? = some .specialized := by simpa [CppType.isSpecialized] using h
  simp only [CppType.templateName?, hkind]

theorem ClassSource.walked {type : CppType} {flag : Bool} {d : CursorId}
    (h : ClassSource c.unit p type flag d) (hp : OriginsNamed c.unit p) :
    Walked c.unit type.qualifiedName d := by
  cases h with
  | declared hkind htype =>
    rw [Catalog.key_of_find? htype]
    exact .declared hkind
  | typed _ htype _ hd =>
    rw [Catalog.key_of_find? htype]
    exact .typed hd
  | specialized htype hspecial _ horigin =>
    rw [templateName_of_specialized hspecial, Option.getD_some, Catalog.key_of_find? htype]
      at horigin
    rw [Catalog.key_of_find? htype]
    exact .specialized (hp _ _ horigin)

end origins

section members
variable {c : Context} {p : Progress}

theorem signatureOf_spec (d : Cursor) :
    Yields (signatureOf c.unit d) p fun s q =>
      Resolves c.unit p q ∧ IsSignature c.unit q d s.1 s.2 := by
  unfold signatureOf
  split
  · next i hi =>
    refine yields_bind (resolveUse_spec i) ?_
    rintro result q ⟨hq, hresult⟩
    refine yields_bind (yields_mapM (S := Resolves c.unit)
      (R := ResolvedVariable c.unit) .refl .trans (fun h hv => hv.grows h.grows) ?_) ?_
    · intro x _ q' _
      dsimp only
      split
      · next j hj =>
        refine (resolveUse_spec j).mono ?_
        rintro v q'' ⟨hq'', hv⟩
        exact ⟨hq'', j, hj, hv⟩
      · exact yields_throw
    · rintro arguments q' ⟨hq', harguments⟩
      exact yields_pure ⟨hq.trans hq', ⟨i, hi, hresult.grows hq'.grows⟩, harguments⟩
  · exact yields_throw

theorem fieldOf_spec {x : CursorId} {m : Metadata}
    (hm : c.reflected? (c.unit.cursor x) = some m) :
    Yields (fieldOf c.unit (c.unit.cursor x) m) p fun f q =>
      Resolves c.unit p q ∧ IsField c q x f := by
  unfold fieldOf
  split
  · next i hi =>
    refine yields_bind (resolveUse_spec i) ?_
    rintro v q ⟨hq, hv⟩
    exact yields_pure ⟨hq, rfl, ⟨i, hi, hv⟩, hm⟩
  · exact yields_throw

theorem methodOf_spec {x : CursorId} {m : Metadata}
    (hm : c.reflected? (c.unit.cursor x) = some m) :
    Yields (methodOf c.unit (c.unit.cursor x) m) p fun f q =>
      Resolves c.unit p q ∧ IsMethod c q x f := by
  refine yields_bind (signatureOf_spec _) ?_
  rintro ⟨result, arguments⟩ q ⟨hq, hs⟩
  exact yields_pure ⟨hq, rfl, hs, hm⟩

/-- One more declaration, with what it adds to the record. -/
theorem Members.append {specialized : Bool} {xs : List CursorId} {r : ClassRecord}
    (h : Members c p specialized xs r) (x : CursorId) (fields : List Field) (methods : List Method)
    (bases : List (Given String)) (bodyLine : Given (Option Int))
    (hfields : List.Forall₂ (IsField c p) (if specialized then [] else [x].filter (isField c)) fields)
    (hmethods : List.Forall₂ (if specialized then IsSpecializedMethod c p r.type else IsMethod c p)
      ([x].filter (isMethod c)) methods)
    (hbases : List.Forall₂ (IsBase c p) ([x].filter (isSpecifier c)) bases)
    (hbound : ∀ t e, Binds c x t e →
      (p.baseArguments.find? (r.qualifiedName, declaredName c.unit e)).isSome) :
    Members c p specialized (xs ++ [x])
      { r with
        fields := r.fields ++ fields
        methods := r.methods ++ methods
        bases := r.bases ++ bases
        bodyLine := bodyLine } where
  fields := by
    cases specialized with
    | true => exact List.rel_append h.fields hfields
    | false =>
      simp only [Bool.false_eq_true, if_false, List.filter_append] at hfields ⊢
      exact List.rel_append h.fields hfields
  methods := by
    rw [List.filter_append]
    exact List.rel_append h.methods hmethods
  bases := by
    rw [List.filter_append]
    exact List.rel_append h.bases hbases
  bound y hy t e he := by
    rcases List.mem_append.1 hy with hy | hy
    · exact h.bound y hy t e he
    · obtain rfl := List.mem_singleton.1 hy
      exact hbound t e he

end members

/-- The target is a class, a struct or a class template. -/
def Target.IsClass (u : CompilationUnit) : Target → Prop
  | .declared d _ => (u.cursor d).kind.isClass
  | .typed t => ClassType u t

/-- Whatever is recorded for a target is registered under its name, and besides types only classes
come in that it inherits from. -/
def Records (c : Context) (reflect : Target → Walk ClassRecord) : Prop :=
  ∀ t p, t.IsClass c.unit → OriginsNamed c.unit p → Yields (reflect t) p fun r q =>
    Recording c (ReflTransGen (Inherits c.unit) (targetName c.unit t)) p q ∧
      r.qualifiedName = targetName c.unit t ∧ targetName c.unit t ∈ q.registry.classes.keys

section bases
variable {c : Context} {reflect : Target → Walk ClassRecord} {p : Progress}

private theorem baseOf_typed (hreflect : Records c reflect) (hp : OriginsNamed c.unit p)
    {x e : CursorId} {t : TypeId} {n : String} (ht : (c.unit.cursor x).type = some t)
    (he : (c.unit.canonical t).declaration = some e)
    (hkind : (c.unit.cursor e).kind = .classDecl ∨ (c.unit.cursor e).kind = .structDecl) :
    Yields (reflect (.typed (c.unit.type t).canonical)) p fun b q =>
      (∃ m, baseName? c.unit (c.unit.cursor x) = some m ∧ b.qualifiedName = m ∧
        m ∈ q.registry.classes.keys ∧ Recording c (ReflTransGen (Inherits c.unit) m) p q) ∧
      ∀ t e, Binds c x t e → (q.baseArguments.find? (n, declaredName c.unit e)).isSome := by
  have hname : baseName? c.unit (c.unit.cursor x) =
      some (recordedName c.unit (c.unit.type t).canonical) := by
    rcases hkind with hkind | hkind <;> simp [baseName?, ht, he, hkind]
  have hclass : ClassType c.unit (c.unit.type t).canonical := by
    refine ⟨⟨t, rfl⟩, .inr ⟨e, he, ?_⟩⟩
    rcases hkind with hkind | hkind <;> simp [hkind, CursorKind.isClass]
  refine (hreflect (.typed (c.unit.type t).canonical) p hclass hp).mono ?_
  rintro b q ⟨hq, hb, hmem⟩
  refine ⟨⟨_, hname, hb, hmem, hq⟩, ?_⟩
  intro t' e' he'
  obtain rfl := Option.some.inj (ht.symm.trans he'.type)
  obtain rfl := Option.some.inj (he.symm.trans he'.declaration)
  rw [he'.template] at hkind
  simp at hkind

/-- The arguments of a base specifier for a class template are remembered, if there are any. -/
private theorem baseOf_template (hreflect : Records c reflect) {r : ClassRecord} {flag : Bool}
    {d x e : CursorId} {t : TypeId} (hsource : ClassSource c.unit p r.type flag d)
    (hp : OriginsNamed c.unit p) (hx : x ∈ (c.unit.cursor d).children)
    (hkind : (c.unit.cursor x).kind = .baseSpecifier) (ht : (c.unit.cursor x).type = some t)
    (he : (c.unit.canonical t).declaration = some e)
    (htemplate : (c.unit.cursor e).kind = .classTemplate) :
    Yields (do
      let known ← reflect (.declared e (c.metadata (c.unit.cursor e)))
      let arguments ← (c.unit.type t).arguments.mapM (resolveType c.unit)
      unless arguments.isEmpty do
        modify fun p => { p with
          baseArguments :=
            p.baseArguments.insert (r.qualifiedName, known.qualifiedName) arguments }
      return known) p fun b q =>
      (∃ m, baseName? c.unit (c.unit.cursor x) = some m ∧ b.qualifiedName = m ∧
        m ∈ q.registry.classes.keys ∧ Recording c (ReflTransGen (Inherits c.unit) m) p q) ∧
      ∀ t e, Binds c x t e →
        (q.baseArguments.find? (r.qualifiedName, declaredName c.unit e)).isSome := by
  have hname : baseName? c.unit (c.unit.cursor x) = some (declaredName c.unit e) := by
    simp [baseName?, ht, he, htemplate]
  have hclass : (Target.declared e (c.metadata (c.unit.cursor e))).IsClass c.unit := by
    simp [Target.IsClass, htemplate, CursorKind.isClass]
  refine yields_bind (hreflect _ p hclass hp) ?_
  rintro known q ⟨hq, hknown, hmem⟩
  refine yields_bind (yields_mapM (S := Resolves c.unit)
    (R := Resolved c.unit) .refl .trans (fun h ht => ht.grows h.grows) ?_) ?_
  · intro i _ q' _
    refine (resolveType_spec i).mono ?_
    rintro a q'' ⟨hq'', ha⟩
    exact ⟨hq''.resolves, ha⟩
  rintro as q' ⟨hq', has⟩
  have hrest := hq.trans (.of_resolves hq')
  have hkey := hq'.grows.class_mem hmem
  rw [targetName] at hknown hkey
  split
  · next hempty =>
    obtain rfl : as = [] := by simpa using hempty
    apply yields_pure
    refine ⟨⟨_, hname, hknown, hkey, hrest⟩, ?_⟩
    intro t' e' he'
    obtain rfl := Option.some.inj (ht.symm.trans he'.type)
    exact absurd (List.forall₂_nil_right_iff.1 has) he'.arguments
  · next hempty =>
    refine yields_bind (R := fun _ q'' => q'' = { q' with
      baseArguments := q'.baseArguments.insert (r.qualifiedName, known.qualifiedName) as })
      ?_ ?_
    · exact yields_modify rfl
    rintro - q'' rfl
    have hbinds : Binds c x t e := by
      refine ⟨hkind, ht, he, htemplate, ?_⟩
      rintro hnil
      rw [hnil, List.forall₂_nil_left_iff] at has
      simp [has] at hempty
    have hbinding : IsBinding c q' r.type known.qualifiedName as :=
      ⟨flag, d, x, t, e, hsource.grows hrest.grows, hx, hbinds, hknown, has⟩
    apply yields_pure
    refine ⟨⟨_, hname, hknown, hkey, hrest.trans ?_⟩, ?_⟩
    · exact ⟨.single (.bindBase hbinding), fun _ hn => .inl hn⟩
    · intro t' e' he'
      obtain rfl := Option.some.inj (ht.symm.trans he'.type)
      obtain rfl := Option.some.inj (he.symm.trans he'.declaration)
      simp [Table.find?_insert, hknown]

/-- The name that a base specifier gives is that of the class, which is then registered. -/
theorem baseOf_spec (hreflect : Records c reflect) {r : ClassRecord}
    {flag : Bool} {d x : CursorId} (hsource : ClassSource c.unit p r.type flag d)
    (hp : OriginsNamed c.unit p) (hx : x ∈ (c.unit.cursor d).children)
    (hkind : (c.unit.cursor x).kind = .baseSpecifier) :
    Yields (baseOf c reflect (c.unit.cursor x) r) p fun b q =>
      (∃ m, baseName? c.unit (c.unit.cursor x) = some m ∧ b.qualifiedName = m ∧
        m ∈ q.registry.classes.keys ∧ Recording c (ReflTransGen (Inherits c.unit) m) p q) ∧
      ∀ t e, Binds c x t e →
        (q.baseArguments.find? (r.qualifiedName, declaredName c.unit e)).isSome := by
  unfold baseOf
  split
  · next t ht =>
    dsimp only
    split
    · next e he =>
      split
      · next htemplate =>
        exact baseOf_template hreflect hsource hp hx hkind ht he htemplate
      · next hclass => exact baseOf_typed hreflect hp ht he (.inl hclass)
      · next hstruct => exact baseOf_typed hreflect hp ht he (.inr hstruct)
      · exact yields_throw
    · exact yields_throw
  · exact yields_throw

/-- A declaration that is neither a field, a method nor a base adds nothing but a body line. -/
private theorem Members.skip {specialized : Bool} {xs : List CursorId} {r : ClassRecord}
    {x : CursorId} {bodyLine : Given (Option Int)} (h : Members c p specialized xs r)
    (hfield : specialized = false → isField c x = false) (hmethod : isMethod c x = false)
    (hbase : (c.unit.cursor x).kind ≠ .baseSpecifier) :
    Members c p specialized (xs ++ [x]) { r with bodyLine := bodyLine } := by
  have hspecifier : isSpecifier c x = false := by simpa [isSpecifier] using hbase
  have happend := h.append x [] [] [] bodyLine (by cases specialized <;> simp_all) (by simp [hmethod])
    (by simp [hspecifier]) fun _ _ he => absurd he.kind hbase
  simpa using happend

private theorem Members.addField {xs : List CursorId} {r : ClassRecord} {x : CursorId} {f : Field}
    (h : Members c p false xs r) (hf : IsField c p x f)
    (hkind : (c.unit.cursor x).kind = .fieldDecl) :
    Members c p false (xs ++ [x]) { r with fields := r.fields ++ [f] } := by
  have hfield : isField c x = true := by simp [isField, hkind, hf.metadata]
  have happend := h.append x [f] [] [] r.bodyLine (by simpa [hfield] using hf)
    (by simp [isMethod, hkind]) (by simp [isSpecifier, hkind])
    fun t e he => absurd he.kind (by simp [hkind])
  simpa using happend

private theorem Members.addMethod {flag : Bool} {xs : List CursorId} {r : ClassRecord}
    {x : CursorId} {m : Method} (h : Members c p flag xs r)
    (hm : (if flag then IsSpecializedMethod c p r.type else IsMethod c p) x m)
    (hkind : (c.unit.cursor x).kind = .method) (hmethod : isMethod c x = true) :
    Members c p flag (xs ++ [x]) { r with methods := r.methods ++ [m] } := by
  have happend := h.append x [] [m] [] r.bodyLine (by cases flag <;> simp [isField, hkind])
    (by simpa [hmethod] using hm) (by simp [isSpecifier, hkind])
    fun t e he => absurd he.kind (by simp [hkind])
  simpa using happend

private theorem Members.addBase {flag : Bool} {xs : List CursorId} {r : ClassRecord}
    {x : CursorId} {b : Given String} (h : Members c p flag xs r) (hb : IsBase c p x b)
    (hkind : (c.unit.cursor x).kind = .baseSpecifier)
    (hbound : ∀ t e, Binds c x t e →
      (p.baseArguments.find? (r.qualifiedName, declaredName c.unit e)).isSome) :
    Members c p flag (xs ++ [x]) { r with bases := r.bases ++ [b] } := by
  have happend := h.append x [] [] [b] r.bodyLine (by cases flag <;> simp [isField, hkind])
    (by simp [isMethod, hkind]) (by simpa [isSpecifier, hkind] using hb) hbound
  simpa using happend

private theorem ownMethod_spec {type : CppType} {flag : Bool} {d x : CursorId} {m : Method}
    (hsource : ClassSource c.unit p type flag d) (hm : IsMethod c p x m) :
    Yields (if flag then specializeMethod type m else pure m) p fun m' q =>
      Reported p q ∧ (if flag then IsSpecializedMethod c q type else IsMethod c q) x m' := by
  cases hsource with
  | declared | typed => exact yields_pure ⟨.refl p, hm⟩
  | @specialized t d generic htype hspecial hgeneric horigin =>
    have hname : type.templateName?.isSome := by rw [templateName_of_specialized hspecial]; rfl
    refine (specializeMethod_spec hgeneric hname).mono ?_
    rintro m' q ⟨hq, rfl⟩
    have hgrows := Grows.of_reported hq
    exact ⟨hq, generic, m, hgrows.types _ _ hgeneric, hm.grows hgrows, rfl⟩

/-- A member enters what it declares. -/
theorem addMember_spec (hreflect : Records c reflect) {r : ClassRecord}
    {flag : Bool} {d x : CursorId} {xs : List CursorId}
    (hsource : ClassSource c.unit p r.type flag d) (hp : OriginsNamed c.unit p)
    (hx : x ∈ (c.unit.cursor d).children) (hr : Members c p flag xs r) :
    Yields (addMember c reflect flag r x) p fun r' q =>
      Recording c (TransGen (Inherits c.unit) r.qualifiedName) p q ∧ r'.type = r.type ∧
        Members c q flag (xs ++ [x]) r' := by
  unfold addMember
  dsimp only
  split
  · next hmarker =>
    have hkind : (c.unit.cursor x).kind = .method := by
      simp only [isBodyMarker, Bool.and_eq_true, beq_iff_eq] at hmarker
      exact hmarker.1.1
    refine yields_pure ⟨.refl p, rfl, hr.skip ?_ ?_ ?_⟩
    · simp [isField, hkind]
    · simp [isMethod, hmarker]
    · simp [hkind]
  · next hmarker =>
    split
    · next hkind =>
      refine yields_bind (baseOf_spec hreflect hsource hp hx hkind) ?_
      rintro b q ⟨⟨m, hname, rfl, hmem, hq⟩, hbound⟩
      have hinherits : Inherits c.unit r.qualifiedName b.qualifiedName :=
        ⟨d, hsource.walked hp, x, hx, hkind, hname⟩
      refine yields_pure ⟨hq.mono fun n hn => .head' hinherits hn, rfl, ?_⟩
      exact (hr.grows hq.grows).addBase ⟨_, hmem, hname, rfl⟩ hkind hbound
    · next hbase =>
      split
      · next hplain =>
        refine yields_pure ⟨.refl p, rfl, hr.skip ?_ ?_ hbase⟩
        · simp [isField, hplain]
        · simp [isMethod, hplain]
      · next m hm =>
        split
        · next hkind =>
          split
          · next hflag =>
            refine yields_pure ⟨.refl p, rfl, hr.skip ?_ ?_ hbase⟩
            · simp [hflag]
            · simp [isMethod, hkind]
          · next hflag =>
            obtain rfl : flag = false := by simpa using hflag
            refine yields_bind (fieldOf_spec hm) ?_
            rintro f q ⟨hq, hf⟩
            exact yields_pure ⟨.of_resolves hq, rfl, (hr.grows hq.grows).addField hf hkind⟩
        · next hkind =>
          have hmethod : isMethod c x = true := by simp [isMethod, hkind, hm, hmarker]
          refine yields_bind (methodOf_spec hm) ?_
          rintro f q ⟨hq, hf⟩
          refine yields_bind_ite (ownMethod_spec (hsource.grows hq.grows) hf) ?_
          rintro f' q' ⟨hq', hf'⟩
          have hboth : Recording c (TransGen (Inherits c.unit) r.qualifiedName) p q' :=
            (Recording.of_resolves hq).trans (.of_reported hq')
          exact yields_pure ⟨hboth, rfl, (hr.grows hboth.grows).addMethod hf' hkind hmethod⟩
        · exact yields_throw

end bases
end Introspect.Reflection
