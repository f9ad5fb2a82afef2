import Introspect.Proofs.Reflection.Members

/-! How each class came in: from a declaration, with the fields that templates gave it then. -/
namespace Introspect.Reflection
open Relation

/-- The records that fields from templates are made of are those of declarations. -/
structure Traced (c : Context) (p : Progress) : Prop where
  generic : GenericTypes c.unit p
  types : ∀ k ∈ p.registry.classes.items, k.type ∈ p.registry.types.items
  templates : ∀ k ∈ p.registry.classes.items, k.type.isGeneric → ∃ d,
    ClassSource c.unit p k.type false d ∧ Members c p false (c.unit.cursor d).children k
  given : ∀ n b as, p.baseArguments.find? (n, b) = some as → ∃ type : CppType,
    type.qualifiedName = n ∧ IsBinding c p type b as

/-- The class was entered by a change to an earlier progress, which was traced itself. -/
def Entered (c : Context) (p : Progress) (k : ClassRecord) : Prop :=
  ∃ o q flag d r promoted, Traced c o ∧ Grows o p ∧ ClassSource c.unit o r.type flag d ∧
    Members c o flag (c.unit.cursor d).children r ∧ (promotedFields r).run o = .ok promoted q ∧
    k = { r with fields := r.fields ++ promoted }

section steps
variable {c : Context} {p q : Progress}

theorem traced_start (c : Context) (hash : NameHash) : Traced c (.start (.empty hash)) := by
  constructor <;> simp [Progress.start, Registry.empty, GenericTypes]

theorem GenericTypes.step (hp : GenericTypes c.unit p) (h : Step c p q) :
    GenericTypes c.unit q := by
  cases h with
  | enterTypes h => exact h.generic hp
  | @enterClass q flag d r promoted _ _ hrun _ =>
    obtain ⟨es, rfl⟩ := promotedFields_reports r p _ _ hrun
    exact hp
  | report | bindBase | enterEnum | enterAlias | enterFunction => exact hp

/-- A progress that knows more, but has no more classes and bindings. -/
theorem Traced.grows (hp : Traced c p) (hpq : Grows p q) (hgeneric : GenericTypes c.unit q)
    (hclasses : q.registry.classes = p.registry.classes)
    (hgiven : q.baseArguments = p.baseArguments) : Traced c q where
  generic := hgeneric
  types := by
    rw [hclasses]
    exact fun k hk => hpq.type_mem (hp.types k hk)
  templates := by
    rw [hclasses]
    intro k hk hkind
    obtain ⟨d, hd, hmembers⟩ := hp.templates k hk hkind
    exact ⟨d, hd.grows hpq, hmembers.grows hpq⟩
  given := by
    rw [hgiven]
    intro n b as has
    obtain ⟨type, hname, hbinding⟩ := hp.given n b as has
    exact ⟨type, hname, hbinding.grows hpq⟩

theorem Traced.reported (hp : Traced c p) (h : Reported p q) : Traced c q := by
  refine hp.grows (.of_reported h) ?_ (by rw [h.registry_eq]) h.baseArguments_eq
  obtain ⟨es, rfl⟩ := h
  exact hp.generic

theorem promotedFields_of_generic {r : ClassRecord} (h : r.type.isGeneric) :
    Yields (promotedFields r) p fun fs _ => fs = [] := by
  have hkind : r.type.template? = some .generic := by simpa [CppType.isGeneric] using h
  unfold promotedFields
  rw [hkind]
  exact yields_pure rfl

theorem ClassSource.flag_eq_false {u : CompilationUnit} {type : CppType} {flag : Bool}
    {d : CursorId} (h : ClassSource u p type flag d) (htype : type.isSpecialized = false) :
    flag = false := by
  cases h with
  | declared | typed => rfl
  | specialized _ hspecial => exact absurd hspecial (by simp [htype])

theorem not_isSpecialized {t : CppType} (h : t.isGeneric) : t.isSpecialized = false := by
  simp only [CppType.isGeneric, CppType.isSpecialized, beq_iff_eq] at h ⊢
  rw [h]
  rfl

theorem Traced.withClass (hp : Traced c p) {flag : Bool} {d : CursorId} {r : ClassRecord}
    {promoted : List Field} (hsource : ClassSource c.unit p r.type flag d)
    (hr : Members c p flag (c.unit.cursor d).children r)
    (hnone : r.type.isGeneric → promoted = []) :
    Traced c (p.withClass { r with fields := r.fields ++ promoted }) := by
  have hgrows := Grows.of_withClass (p := p) { r with fields := r.fields ++ promoted }
  constructor
  · exact hp.generic
  · intro k hk
    rcases Catalog.mem_items_insert.1 hk with rfl | ⟨hk, -⟩
    · exact hsource.type_mem
    · exact hp.types k hk
  · intro k hk hkind
    rcases Catalog.mem_items_insert.1 hk with rfl | ⟨hk, -⟩
    · obtain rfl := hsource.flag_eq_false (not_isSpecialized hkind)
      obtain rfl := hnone hkind
      refine ⟨d, hsource.grows hgrows, ?_⟩
      simpa using hr.grows hgrows
    · obtain ⟨d, hd, hmembers⟩ := hp.templates k hk hkind
      exact ⟨d, hd.grows hgrows, hmembers.grows hgrows⟩
  · intro n b as has
    obtain ⟨type, hname, hbinding⟩ := hp.given n b as has
    exact ⟨type, hname, hbinding.grows hgrows⟩

theorem Traced.step (hp : Traced c p) (h : Step c p q) : Traced c q := by
  have hgrows := Grows.of_step h
  have hgeneric := hp.generic.step h
  cases h with
  | report | enterEnum | enterAlias | enterFunction =>
    exact hp.grows hgrows hgeneric rfl rfl
  | enterTypes h =>
    refine hp.grows hgrows hgeneric h.classes_eq ?_
    obtain ⟨_, _, _, rfl⟩ := h.frame
    rfl
  | @bindBase type m as hbinding =>
    refine ⟨hgeneric, hp.types, ?_, ?_⟩
    · intro k hk hkind
      obtain ⟨d, hd, hmembers⟩ := hp.templates k hk hkind
      exact ⟨d, hd.grows hgrows, hmembers.grows hgrows⟩
    · intro n b bs hbs
      rw [Table.find?_insert] at hbs
      split at hbs
      · next hkey =>
        obtain ⟨rfl, rfl⟩ := Prod.mk.inj hkey
        obtain rfl := Option.some.inj hbs
        exact ⟨type, rfl, hbinding.grows hgrows⟩
      · obtain ⟨type, hname, hold⟩ := hp.given n b bs hbs
        exact ⟨type, hname, hold.grows hgrows⟩
  | @enterClass q flag d r promoted hsource hr hrun _ =>
    have hreported := promotedFields_reports r p _ _ hrun
    have hq := Grows.of_reported hreported
    -- a template has no fields from others
    refine (hp.reported hreported).withClass (hsource.grows hq) (hr.grows hq) ?_
    exact fun hkind => promotedFields_of_generic hkind _ _ hrun

theorem Entered.grows {k : ClassRecord} (h : Entered c p k) (hpq : Grows p q) :
    Entered c q k := by
  obtain ⟨o, o', flag, d, r, promoted, ho, hop, hrest⟩ := h
  exact ⟨o, o', flag, d, r, promoted, ho, hop.trans hpq, hrest⟩

theorem classes_of_step (hp : Traced c p) (h : Step c p q) :
    ∀ k ∈ q.registry.classes.items, k ∈ p.registry.classes.items ∨ Entered c q k := by
  have hgrows := Grows.of_step h
  cases h with
  | report | bindBase | enterEnum | enterAlias | enterFunction => exact fun k hk => .inl hk
  | enterTypes h => exact fun k hk => .inl (h.classes_eq ▸ hk)
  | @enterClass q flag d r promoted hsource hr hrun _ =>
    intro k hk
    rcases Catalog.mem_items_insert.1 hk with rfl | ⟨hk, -⟩
    · exact .inr ⟨p, q, flag, d, r, promoted, hp, hgrows, hsource, hr, hrun, rfl⟩
    · rw [(promotedFields_reports r p _ _ hrun).registry_eq] at hk
      exact .inl hk

/-- Whatever happens to a registry without classes, all of its classes were entered. -/
theorem entered_of_steps (hp : Traced c p) (hnone : p.registry.classes.items = [])
    (h : Steps c p q) : Traced c q ∧ ∀ k ∈ q.registry.classes.items, Entered c q k := by
  induction h with
  | refl => exact ⟨hp, by simp [hnone]⟩
  | tail _ hstep ih =>
    obtain ⟨htraced, hentered⟩ := ih
    refine ⟨htraced.step hstep, ?_⟩
    intro k hk
    rcases classes_of_step htraced hstep k hk with hk | hk
    · exact (hentered k hk).grows (.of_step hstep)
    · exact hk

end steps
end Introspect.Reflection
