import Introspect.Proofs.Reflection.Selection
import Introspect.Proofs.Reflection.Closure

/-! What a walk leaves that started without records: the records of the declarations that it
selects, and the classes that these lead to. -/
namespace Introspect.Reflection

/-! ## What records hold -/

/-- The qualified name that a function is recorded under. -/
def functionName (u : CompilationUnit) (d : CursorId) : String :=
  (QualifiedName.mk (u.cursor d).spelling (u.namespaceOf (u.cursor d).parent)).text

section records
variable (c : Context) (p : Progress) (d : CursorId)

def IsEnum (e : EnumRecord) : Prop :=
  ∃ type, p.registry.types.find? (declaredName c.unit d) = some type ∧
    e = (c.unit.cursor d).children.foldl (addEnumerator c)
      ⟨type, c.metadata (c.unit.cursor d), [], .proper none⟩

structure IsAlias (a : AliasRecord) : Prop where
  types : ∃ own, (c.unit.cursor d).type = some own ∧ Resolved c.unit p own a.type ∧
    Resolved c.unit p (c.unit.type own).canonical a.target
  metadata : a.metadata = c.metadata (c.unit.cursor d)

structure IsFunction (f : FunctionRecord) : Prop where
  name : f.qualifiedName = functionName c.unit d
  signature : IsSignature c.unit p (c.unit.cursor d) f.result f.arguments
  metadata : f.metadata = c.metadata (c.unit.cursor d)

/-- The name is that of the specialisation of a class template that an alias stands for. -/
def IsAliased (n : String) : Prop :=
  ∃ own t, (c.unit.cursor d).type = some own ∧ (c.unit.canonical own).kind = .record ∧
    Resolved c.unit p (c.unit.type own).canonical t ∧ t.isSpecialized ∧
      n = recordedName c.unit (c.unit.type own).canonical

end records

section grows
variable {c : Context} {p q : Progress} {d : CursorId}

theorem IsEnum.grows {e : EnumRecord} (h : IsEnum c p d e) (hpq : Grows p q) : IsEnum c q d e := by
  obtain ⟨type, htype, he⟩ := h
  exact ⟨type, hpq.types _ _ htype, he⟩

theorem IsAlias.grows {a : AliasRecord} (h : IsAlias c p d a) (hpq : Grows p q) :
    IsAlias c q d a := by
  obtain ⟨own, hown, htype, htarget⟩ := h.types
  exact ⟨⟨own, hown, htype.grows hpq, htarget.grows hpq⟩, h.metadata⟩

theorem IsFunction.grows {f : FunctionRecord} (h : IsFunction c p d f) (hpq : Grows p q) :
    IsFunction c q d f :=
  ⟨h.name, h.signature.grows hpq, h.metadata⟩

theorem IsAliased.grows {n : String} (h : IsAliased c p d n) (hpq : Grows p q) :
    IsAliased c q d n := by
  obtain ⟨own, t, hown, hkind, ht, hspecial, hn⟩ := h
  exact ⟨own, t, hown, hkind, ht.grows hpq, hspecial, hn⟩

theorem Resolved.unique {u : CompilationUnit} {i : TypeId} {s t : CppType} (hs : Resolved u p i s)
    (ht : Resolved u p i t) : s = t :=
  Option.some.inj (hs.symm.trans ht)

/-- What an alias with a record stands for was known when the record was made. -/
theorem IsAliased.before {a : AliasRecord} {n : String} (h : IsAliased c q d n)
    (ha : IsAlias c p d a) (hpq : Grows p q) : IsAliased c p d n := by
  obtain ⟨own, t, hown, hkind, ht, hspecial, hn⟩ := h
  obtain ⟨own', hown', -, htarget⟩ := ha.types
  obtain rfl := Option.some.inj (hown.symm.trans hown')
  obtain rfl := ht.unique (htarget.grows hpq)
  exact ⟨own, _, hown, hkind, htarget, hspecial, hn⟩

end grows

/-! ## One declaration -/

/-- What one declaration asks for: itself, when it is a class; the specialisation that it stands
for, when it is an alias that is not known. -/
def Requested (c : Context) (d : CursorId) (p q : Progress) (n : String) (m : Metadata) : Prop :=
  (d ∈ eligible c CursorKind.isClass [d] ∧ n = declaredName c.unit d ∧
      m = c.metadata (c.unit.cursor d)) ∨
    (d ∈ eligible c CursorKind.isAlias [d] ∧ declaredName c.unit d ∉ p.registry.aliases.keys ∧
      IsAliased c q d n)

/-- A declaration was recorded, if it is eligible and its name is not known, together with the
classes that it leads to. -/
structure Enters (c : Context) (d : CursorId) (p q : Progress) : Prop where
  enums : Notes (declaredName c.unit) (IsEnum c q) (eligible c (· == .enumDecl) [d])
    p.registry.enums q.registry.enums
  aliases : Notes (declaredName c.unit) (IsAlias c q) (eligible c CursorKind.isAlias [d])
    p.registry.aliases q.registry.aliases
  functions : Notes (functionName c.unit) (IsFunction c q) (eligible c (· == .functionDecl) [d])
    p.registry.functions q.registry.functions
  classes : ∃ bodies, Joins c (Requested c d p q) bodies p q
  answered : ∀ n m, Requested c d p q n m → n ∈ q.registry.classes.keys

section specs
variable {c : Context} {p : Progress} {d : CursorId}

theorem resolveCursor_plain (hd : (c.unit.cursor d).kind.isClass = false) :
    Yields (resolveCursor c.unit d) p fun _ q => Brings (StemsPlainly c.unit) p q := by
  unfold resolveCursor
  dsimp only
  split
  · exact resolveTyped_brings _
  · next hcond =>
    have hkind : (c.unit.cursor d).kind = .classTemplate := by
      simp only [Bool.or_eq_true, not_or] at hcond
      simpa using hcond.2
    rw [hkind] at hd
    cases hd

theorem reflectEnum_notes (hd : (c.unit.cursor d).kind.isClass = false) :
    Yields (reflectEnum c d (c.metadata (c.unit.cursor d))) p fun _ q =>
      Notes (declaredName c.unit) (IsEnum c q) [d] p.registry.enums q.registry.enums ∧
        q.registry.aliases = p.registry.aliases ∧ q.registry.functions = p.registry.functions ∧
        ∃ bodies, Joins c (fun _ _ => False) bodies p q := by
  refine yields_bind ((resolveCursor_spec d).and (resolveCursor_plain hd)) ?_
  rintro type q ⟨⟨hq, htype⟩, hbrings⟩
  have huntouched := Untouched.of_resolves hq
  have hjoins : Joins c (fun _ _ => False) [] p q := .of_plain hq hbrings
  have hname := Catalog.key_of_find? htype
  refine yields_bind (R := fun r q' => q' = q ∧ r = q.registry) (yields_registry ⟨rfl, rfl⟩) ?_
  rintro r q' ⟨rfl, rfl⟩
  split
  · next known hknown =>
    refine yields_pure ⟨?_, huntouched.aliases, huntouched.functions, [], hjoins⟩
    rw [huntouched.enums] at hknown ⊢
    exact .known (hname ▸ Catalog.mem_keys_of_find? hknown)
  · next hnone =>
    have hnew := Catalog.find?_eq_none_iff.1 hnone
    refine yields_bind (R := fun _ q => Notes _ _ _ _ _ ∧ _) ?_ fun _ _ h => yields_pure h
    apply yields_update
    intro r hr
    obtain ⟨s, hs, rfl⟩ := Registry.addEnum_ok hr
    have hmem := Catalog.mem_of_find? htype
    obtain rfl := eq_of_ensureType (by rwa [foldl_addEnumerator_type]) hs
    refine ⟨?_, huntouched.aliases, huntouched.functions, [], hjoins.of_eq rfl rfl rfl⟩
    rw [huntouched.enums] at hnew ⊢
    refine .new (hname ▸ hnew) ?_ ⟨type, htype, rfl⟩
    rw [EnumRecord.qualifiedName, foldl_addEnumerator_type]
    exact hname

theorem reflectFunction_notes :
    Yields (reflectFunction c d (c.metadata (c.unit.cursor d))) p fun _ q =>
      Notes (functionName c.unit) (IsFunction c q) [d] p.registry.functions q.registry.functions ∧
        q.registry.enums = p.registry.enums ∧ q.registry.aliases = p.registry.aliases ∧
        ∃ bodies, Joins c (fun _ _ => False) bodies p q := by
  refine yields_bind (R := fun r q => q = p ∧ r = p.registry) (yields_registry ⟨rfl, rfl⟩) ?_
  rintro r q ⟨rfl, rfl⟩
  split
  · next known hknown =>
    exact yields_pure ⟨.known (Catalog.mem_keys_of_find? hknown), rfl, rfl, [], .refl q⟩
  · next hnone =>
    refine yields_bind ((signatureOf_spec _).and (signatureOf_brings _)) ?_
    rintro ⟨result, arguments⟩ q' ⟨⟨hq', hsignature⟩, hbrings⟩
    have huntouched := Untouched.of_resolves hq'
    have hjoins : Joins c (fun _ _ => False) [] q q' := .of_plain hq' hbrings
    refine yields_bind (R := fun _ q => Notes _ _ _ _ _ ∧ _) ?_ fun _ _ h => yields_pure h
    apply yields_update
    intro r hr
    obtain ⟨holders, -, rfl⟩ := Registry.addFunction_ok hr
    refine ⟨?_, huntouched.enums, huntouched.aliases, [], hjoins.of_eq rfl rfl rfl⟩
    rw [← huntouched.functions] at hnone ⊢
    refine .new (Catalog.find?_eq_none_iff.1 hnone) rfl ⟨rfl, ?_, rfl⟩
    exact hsignature.grows (.of_step (.enterFunction hsignature))

theorem isSpecialized_of_isTemplated {t : CppType} (ht : t.isTemplated)
    (hplain : ¬ t.isGeneric) : t.isSpecialized := by
  cases htemplate : t.template? with
  | none => simp [CppType.isTemplated, htemplate] at ht
  | some kind =>
    cases kind with
    | generic => simp [CppType.isGeneric, htemplate] at hplain
    | specialized => simp [CppType.isSpecialized, htemplate]

theorem isTemplated_of_isSpecialized {t : CppType} (h : t.isSpecialized) : t.isTemplated := by
  simp only [CppType.isSpecialized, beq_iff_eq] at h
  rw [CppType.isTemplated, h]
  rfl

/-- A specialisation that an alias stands for is there in the end. No class template is recorded
this way, since those that types speak of are there already. -/
theorem aliasTargets_collects (hp : OriginsNamed c.unit p) {t : TypeId}
    (ht : ∃ s, (c.unit.type s).canonical = t) {target : CppType}
    (htarget : Resolved c.unit p t target)
    (hgeneric : target.isGeneric → target.qualifiedName ∈ p.registry.classes.keys) :
    Yields (aliasTargets c t target) p fun _ q =>
      Collects c (fun n _ => (c.unit.type t).kind = .record ∧ target.isSpecialized ∧
        n = recordedName c.unit t) p q ∧
      ((c.unit.type t).kind = .record → target.isSpecialized →
        recordedName c.unit t ∈ q.registry.classes.keys) := by
  have hname : target.qualifiedName = recordedName c.unit t := Catalog.key_of_find? htarget
  refine yields_bind (R := fun r q => q = p ∧ r = p.registry) (yields_registry ⟨rfl, rfl⟩) ?_
  rintro r q ⟨rfl, rfl⟩
  split
  · next hkind =>
    split
    · next known hknown =>
      exact yields_pure ⟨.refl q, fun _ _ => hname ▸ Catalog.mem_keys_of_find? hknown⟩
    · next hnone =>
      have hnew := Catalog.find?_eq_none_iff.1 hnone
      split
      · next htemplated =>
        have hspecial := isSpecialized_of_isTemplated htemplated fun h => hnew (hgeneric h)
        have hclass : (Target.typed t).IsClass c.unit := ⟨ht, .inl hkind⟩
        refine yields_bind ((reflectClass_collects (.typed t) q hclass trivial hp).and
          (reflectClass_records (.typed t) q hclass hp)) ?_
        rintro r q' ⟨hcollects, -, -, hmem⟩
        exact yields_pure ⟨hcollects.mono fun n m hn => ⟨hkind, hspecial, hn⟩, fun _ _ => hmem⟩
      · next hplain =>
        exact yields_pure ⟨.refl q, fun _ h => absurd (isTemplated_of_isSpecialized h) hplain⟩
  · next hkind => exact yields_pure ⟨.refl q, fun h => by simp [hkind] at h⟩
  · next hkind _ => exact yields_pure ⟨.refl q, fun h => absurd h hkind⟩

theorem reflectAlias_notes (hp : OriginsNamed c.unit p)
    (hgeneric : ∀ t ∈ p.registry.types.items, t.isGeneric →
      t.qualifiedName ∈ p.registry.classes.keys) :
    Yields (reflectAlias c d (c.metadata (c.unit.cursor d))) p fun _ q =>
      Notes (declaredName c.unit) (IsAlias c q) [d] p.registry.aliases q.registry.aliases ∧
        q.registry.enums = p.registry.enums ∧ q.registry.functions = p.registry.functions ∧
        (∃ bodies, Joins c (fun n _ => declaredName c.unit d ∉ p.registry.aliases.keys ∧
          IsAliased c q d n) bodies p q) ∧
        (declaredName c.unit d ∉ p.registry.aliases.keys →
          ∀ n, IsAliased c q d n → n ∈ q.registry.classes.keys) := by
  unfold reflectAlias
  dsimp only
  split
  · next own hown =>
    refine yields_bind ((resolveType_spec own).and (resolveType_brings own)) ?_
    rintro type q ⟨⟨⟨hq, -⟩, htype⟩, hbrings⟩
    have hname : type.qualifiedName = declaredName c.unit d :=
      (Catalog.key_of_find? htype).trans (declaredName_of_type hown).symm
    have huntouched := Untouched.of_resolves hq
    refine yields_bind (R := fun r q' => q' = q ∧ r = q.registry) (yields_registry ⟨rfl, rfl⟩) ?_
    rintro r q ⟨rfl, rfl⟩
    split
    · next known hknown =>
      rw [huntouched.aliases, hname] at hknown
      have hmem := Catalog.mem_keys_of_find? hknown
      refine yields_pure ⟨?_, huntouched.enums, huntouched.functions, ⟨[], .of_plain hq hbrings⟩,
        fun hnew => absurd hmem hnew⟩
      rw [huntouched.aliases]
      exact .known hmem
    · next hnone =>
      rw [huntouched.aliases, hname] at hnone
      have hnew := Catalog.find?_eq_none_iff.1 hnone
      refine yields_bind ((resolveType_spec _).and (resolveType_brings _)) ?_
      rintro target q₁ ⟨⟨⟨hq₁, -⟩, htarget⟩, hbrings₁⟩
      have hboth := hq.trans hq₁
      have hplain := hbrings.trans hbrings₁
      have hknown : target.isGeneric → target.qualifiedName ∈ q₁.registry.classes.keys := by
        intro hkind
        rw [hboth.classes_eq]
        rcases hplain target (Catalog.mem_of_find? htarget) with hmem | ⟨-, hno⟩
        · exact hgeneric target hmem hkind
        · exact absurd hkind (by simp [hno])
      refine yields_bind ((aliasTargets_spec (hboth.named hp) ⟨own, rfl⟩ target).and
        (aliasTargets_collects (hboth.named hp) ⟨own, rfl⟩ htarget hknown)) ?_
      rintro ⟨targetClass, targetEnum⟩ q₂ ⟨⟨hsteps, -⟩, ⟨huntouched₂, bodies, hjoins⟩, hanswered⟩
      have hall := (Untouched.of_resolves hboth).trans huntouched₂
      have hgrows := Grows.of_steps hsteps
      have htype₂ : Resolved c.unit q₂ own type := (Resolved.grows htype hq₁.grows).grows hgrows
      have htarget₂ := htarget.grows hgrows
      refine yields_bind (R := fun _ q => Notes _ _ _ _ _ ∧ _) ?_ fun _ _ h => yields_pure h
      apply yields_update
      intro r hr
      obtain ⟨s, hs, rfl⟩ := Registry.addAlias_ok hr
      obtain rfl := eq_of_ensureType (Catalog.mem_of_find? htype₂) hs
      have hfirst := (Joins.of_plain hboth hplain).trans hjoins
      refine ⟨?_, hall.enums, hall.functions, ⟨_, (hfirst.mono ?_).of_eq rfl rfl rfl⟩, ?_⟩
      · dsimp only
        rw [hall.aliases]
        exact .new hnew hname ⟨⟨own, hown, htype₂, htarget₂⟩, rfl⟩
      · rintro n - ⟨hkind, hspecial, rfl⟩
        exact ⟨hnew, own, target, hown, hkind, htarget₂, hspecial, rfl⟩
      · rintro - n ⟨own', t, hown', hkind, ht, hspecial, rfl⟩
        obtain rfl := Option.some.inj (hown.symm.trans hown')
        obtain rfl := Resolved.unique htarget₂ ht
        exact hanswered hkind hspecial
  · exact yields_throw

/-- What a declaration is taken for is told by its kind. -/
theorem reflectDeclaration_eq (c : Context) (d : CursorId) :
    reflectDeclaration c d =
      let m := c.metadata (c.unit.cursor d)
      let kind := (c.unit.cursor d).kind
      if c.isEligible d then
        if kind.isClass then discard (reflectClass c (.declared d m))
        else if kind = .enumDecl then discard (reflectEnum c d m)
        else if kind.isAlias then discard (reflectAlias c d m)
        else discard (reflectFunction c d m)
      else pure () := by
  unfold reflectDeclaration Context.isEligible
  dsimp only
  rw [Context.reflected?_eq]
  split
  · next hshape =>
    rw [Bool.not_eq_true'] at hshape
    simp [-Bool.or_eq_false_iff, hshape]
  · next hshape =>
    rw [Bool.not_eq_true', Bool.not_eq_false] at hshape
    simp only [hshape, Bool.true_and]
    split
    · next hmodule =>
      rw [Bool.not_eq_true'] at hmodule
      simp [hmodule]
    · next hmodule =>
      rw [Bool.not_eq_true', Bool.not_eq_false] at hmodule
      by_cases hmarked : c.isMarked (c.unit.cursor d) <;> simp [hmodule, hmarked]

theorem kind_of_isEligible (h : c.isEligible d) :
    (c.unit.cursor d).kind.needsDefinition ∨ (c.unit.cursor d).kind = .functionDecl := by
  simp only [Context.isEligible, Bool.and_eq_true, Bool.or_eq_true, beq_iff_eq] at h
  exact h.1.1.imp And.left id

theorem eligible_of_isEligible (h : c.isEligible d) (test : CursorKind → Bool) :
    eligible c test [d] = if test (c.unit.cursor d).kind then [d] else [] := by
  simp only [eligible, List.filter_cons, List.filter_nil, h, Bool.true_and]

theorem Notes.of_eq {α : Type} {key : α → String} {name : CursorId → String}
    {R : CursorId → α → Prop} {l : List CursorId} {catalog catalog' : Catalog key} (hl : l = [])
    (h : catalog' = catalog) : Notes name R l catalog catalog' := by
  subst hl h
  exact .none

theorem not_requested {q : Progress} (hclass : eligible c CursorKind.isClass [d] = [])
    (halias : eligible c CursorKind.isAlias [d] = []) (n : String) (m : Metadata) :
    ¬ Requested c d p q n m := by
  simp [Requested, hclass, halias]

theorem reflectDeclaration_enters (hp : OriginsNamed c.unit p)
    (hgeneric : ∀ t ∈ p.registry.types.items, t.isGeneric →
      t.qualifiedName ∈ p.registry.classes.keys) :
    Yields (reflectDeclaration c d) p fun _ q => Enters c d p q := by
  rw [reflectDeclaration_eq]
  dsimp only
  split
  · next heligible =>
    have hlist := eligible_of_isEligible heligible
    have hkind := kind_of_isEligible heligible
    generalize hk : (c.unit.cursor d).kind = k at hlist hkind
    split
    · next hclass =>
      have hothers : (k == .enumDecl) = false ∧ k.isAlias = false ∧
          (k == .functionDecl) = false := by
        revert hclass
        cases k <;> decide
      have htarget : (Target.declared d (c.metadata (c.unit.cursor d))).IsClass c.unit := by
        rwa [Target.IsClass, hk]
      refine yields_discard (((reflectClass_collects _ p htarget rfl hp).and
        (reflectClass_records _ p htarget hp)).mono ?_)
      rintro - q ⟨⟨huntouched, bodies, hjoins⟩, -, -, hmem⟩
      refine ⟨.of_eq (by simp [hlist, hothers]) huntouched.enums,
        .of_eq (by simp [hlist, hothers]) huntouched.aliases,
        .of_eq (by simp [hlist, hothers]) huntouched.functions, ⟨bodies, hjoins.mono ?_⟩, ?_⟩
      · rintro n m ⟨hn, hm⟩
        exact .inl ⟨by simp [hlist, hclass], hn, hm⟩
      · rintro n m (⟨-, rfl, -⟩ | ⟨halias, -⟩)
        · exact hmem
        · simp [hlist, hothers] at halias
    · next hclass =>
      split
      · next henum =>
        subst henum
        refine yields_discard ((reflectEnum_notes (by simp [hk, hclass])).mono ?_)
        rintro - q ⟨hnotes, haliases, hfunctions, bodies, hjoins⟩
        exact ⟨by simpa [hlist] using hnotes, .of_eq (by simp [hlist, CursorKind.isAlias]) haliases,
          .of_eq (by simp [hlist]) hfunctions, ⟨bodies, hjoins.mono fun _ _ => False.elim⟩,
          fun n m h => absurd h (not_requested (by simp [hlist, CursorKind.isClass])
            (by simp [hlist, CursorKind.isAlias]) n m)⟩
      · next henum =>
        split
        · next halias =>
          have hfunction : (k == .functionDecl) = false := by
            revert halias
            cases k <;> decide
          refine yields_discard ((reflectAlias_notes hp hgeneric).mono ?_)
          rintro - q ⟨hnotes, henums, hfunctions, ⟨bodies, hjoins⟩, hanswered⟩
          refine ⟨.of_eq (by simp [hlist, henum]) henums, by simpa [hlist, halias] using hnotes,
            .of_eq (by simp [hlist, hfunction]) hfunctions, ⟨bodies, hjoins.mono ?_⟩, ?_⟩
          · exact fun n m h => .inr ⟨by simp [hlist, halias], h⟩
          · rintro n m (⟨hd, -⟩ | ⟨-, hnew, hn⟩)
            · simp [hlist, hclass] at hd
            · exact hanswered hnew n hn
        · next halias =>
          have hfunction : k = .functionDecl := by
            refine hkind.resolve_left fun h => ?_
            revert h hclass henum halias
            cases k <;> decide
          subst hfunction
          refine yields_discard (reflectFunction_notes.mono ?_)
          rintro - q ⟨hnotes, henums, haliases, bodies, hjoins⟩
          exact ⟨.of_eq (by simp [hlist]) henums,
            .of_eq (by simp [hlist, CursorKind.isAlias]) haliases, by simpa [hlist] using hnotes,
            ⟨bodies, hjoins.mono fun _ _ => False.elim⟩,
            fun n m h => absurd h (not_requested (by simp [hlist, CursorKind.isClass])
              (by simp [hlist, CursorKind.isAlias]) n m)⟩
  · next hno =>
    have hlist : ∀ test, eligible c test [d] = [] := by simp [eligible, hno]
    exact yields_pure ⟨.of_eq (hlist _) rfl, .of_eq (hlist _) rfl, .of_eq (hlist _) rfl,
      ⟨[], .refl p⟩, fun n m h => absurd h (not_requested (hlist _) (hlist _) n m)⟩

end specs
end Introspect.Reflection
