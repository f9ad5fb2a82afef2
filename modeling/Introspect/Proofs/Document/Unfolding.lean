import Introspect.Proofs.Document.Refusal

/-! Types as they unfold from their entries. An entry says all of a type apart from its arguments,
which are the types that other entries unfold to. What was built for an id is the type that the
entry of the id unfolds to, and there is no more than one. -/
namespace Introspect

theorem TypeKind.label_of_ofLabel? {s : String} {k : TypeKind} (h : ofLabel? s = some k) :
    k.label = s := by
  unfold ofLabel? at h
  have hlabel := List.find?_some h
  exact eq_of_beq hlabel

theorem TemplateKind.label_of_ofLabel? {s : String} {g : TemplateKind}
    (h : ofLabel? s = some g) : g.label = s := by
  unfold ofLabel? at h
  have hlabel := List.find?_some h
  exact eq_of_beq hlabel

theorem CppType.eq_of_parts {t u : CppType} (hid : t.id = u.id) (hkind : t.kind = u.kind)
    (htemplate : t.template? = u.template?) (harguments : t.arguments = u.arguments) : t = u := by
  cases t <;> cases u <;>
    simp_all [CppType.id, CppType.kind, CppType.template?, CppType.arguments]

namespace Document
open Relation
variable {e j k v : Json} {name : String} {s s' : Table Json CppType} {t u : CppType}

theorem required_of_member? (h : j.member? name = some v) : required j name = .ok v := by
  cases j with
  | object ms => exact required_object h
  | _ => cases h

theorem kindOf_ok_iff {kind : TypeKind} : kindOf j = .ok kind ↔ j = .text kind.label := by
  constructor
  · intro h
    unfold kindOf at h
    split at h
    · split at h
      · next hkind =>
        cases h
        rw [TypeKind.label_of_ofLabel? hkind]
      · cases h
    · cases h
  · rintro rfl
    exact kindOf_label kind

theorem templateKindOf_ok_iff {g : TemplateKind} :
    templateKindOf j = .ok g ↔ j = .text g.label := by
  constructor
  · intro h
    unfold templateKindOf at h
    split at h
    · split at h
      · next hg =>
        cases h
        rw [TemplateKind.label_of_ofLabel? hg]
      · cases h
    · cases h
  · rintro rfl
    exact templateKindOf_label g

/-! ## What an entry says of its type -/

/-- The entry marks its type as such a template, with arguments, or as none. -/
def MarksAs (e : Json) : Option TemplateKind → Prop
  | none => (optional e "template" .null).isVacant
  | some g => (optional e "template" .null).member? "kind" = some (.text g.label) ∧
    argumentNames e ≠ []

/-- The entry gives its type a name, this kind, and as a template this mark. -/
structure Describes (e : Json) (kind : TypeKind) (mark : Option TemplateKind) : Prop where
  name : ∃ v, e.member? "name" = some v
  kind : e.member? "kind" = some (.text kind.label)
  template : MarksAs e mark

/-- The type of an entry that describes it so, with these arguments. -/
def assembled (e : Json) (kind : TypeKind) (mark : Option TemplateKind)
    (arguments : List CppType) : CppType :=
  match mark with
  | none => .plain (spelled e) kind
  | some g => .build (spelled e) kind g arguments

theorem argumentNames_of_isVacant (h : (optional e "template" .null).isVacant) :
    argumentNames e = [] := by
  unfold argumentNames
  generalize optional e "template" .null = template at h
  cases template with
  | object ms =>
    cases ms with
    | nil => rfl
    | cons m ms => cases h
  | _ => rfl

theorem itemsOf_argumentNames (h : argumentNames e ≠ []) :
    requiredAs itemsOf (optional e "template" .null) "arguments" = .ok (argumentNames e) := by
  unfold argumentNames at h ⊢
  cases hmember : (optional e "template" .null).member? "arguments" with
  | none => simp [hmember] at h
  | some names =>
    cases hparts : names.parts? with
    | none => simp [hmember, hparts] at h
    | some items => simp [requiredAs, required_of_member? hmember, itemsOf, hparts]

namespace Describes
variable {kind kind' : TypeKind} {mark mark' : Option TemplateKind}

theorem unique (h : Describes e kind mark) (h' : Describes e kind' mark') :
    kind = kind' ∧ mark = mark' := by
  have hkind : kindOf (.text kind.label) = .ok kind' := by
    rw [kindOf_ok_iff]
    exact Option.some.inj (h.kind.symm.trans h'.kind)
  rw [kindOf_label] at hkind
  refine ⟨Except.ok.inj hkind, ?_⟩
  cases mark with
  | none =>
    cases mark' with
    | none => rfl
    | some g' => exact absurd (argumentNames_of_isVacant h.template) h'.template.2
  | some g =>
    cases mark' with
    | none => exact absurd (argumentNames_of_isVacant h'.template) h.template.2
    | some g' =>
      have hg : templateKindOf (.text g.label) = .ok g' := by
        rw [templateKindOf_ok_iff]
        exact Option.some.inj (h.template.1.symm.trans h'.template.1)
      rw [templateKindOf_label] at hg
      rw [Except.ok.inj hg]

/-- The parts of a type with as many arguments as its entry names. -/
theorem parts_assembled (h : Describes e kind mark) {as : List CppType}
    (has : as.length = (argumentNames e).length) :
    (assembled e kind mark as).id = spelled e ∧ (assembled e kind mark as).kind = kind ∧
      (assembled e kind mark as).template? = mark ∧ (assembled e kind mark as).arguments = as := by
  cases mark with
  | none =>
    rw [argumentNames_of_isVacant h.template, List.length_nil, List.length_eq_zero_iff] at has
    subst has
    exact ⟨rfl, rfl, rfl, rfl⟩
  | some g =>
    cases as with
    | nil => exact absurd (List.length_eq_zero_iff.1 has.symm) h.template.2
    | cons a as => exact ⟨rfl, rfl, rfl, rfl⟩

end Describes

/-! ## Reading an entry -/

section program
variable {m : Type → Type} [Monad m] [MonadLiftT (Except Failure) m]

/-- `templateOf` for look-ups that may do more. -/
def templateIn (look : Json → m CppType) (j : Json) :
    m (Option (TemplateKind × List CppType)) := do
  let template := optional j "template" .null
  if template.isVacant then
    return none
  let kind ← requiredAs templateKindOf template "kind"
  let names ← requiredAs itemsOf template "arguments"
  let arguments ← names.mapM look
  if arguments.isEmpty then
    (.error (.registryFile (.malformed .emptyTemplate)) : Except Failure Unit)
  return some (kind, arguments)

/-- `typeOfEntry` for look-ups that may do more. -/
def typeIn (look : Json → m CppType) (j : Json) : m CppType := do
  let template ← templateIn look j
  let name ← required j "name"
  let kind ← requiredAs kindOf j "kind"
  let id : QualifiedName := ⟨.ofJson name, .ofJson (optional j "namespace" (.text ""))⟩
  match template with
  | none => return .plain id kind
  | some (t, arguments) => return .build id kind t arguments

theorem typeIn_eq_typeOfEntry (look : Json → Decoding CppType) (j : Json) :
    typeIn look j = typeOfEntry look j := rfl

variable [LawfulMonadLiftT (Except Failure) m]

theorem liftM_ok {α : Type} (a : α) : (liftM (Except.ok a : Except Failure α) : m α) = pure a :=
  liftM_pure a

variable [LawfulMonad m]

/-- All there is to do for an entry that describes its type is to look up the arguments. -/
theorem Describes.typeIn_eq {kind : TypeKind} {mark : Option TemplateKind}
    (h : Describes e kind mark) (look : Json → m CppType) :
    typeIn look e = (do
      let arguments ← (argumentNames e).mapM look
      return assembled e kind mark arguments) := by
  obtain ⟨⟨v, hname⟩, hkind, htemplate⟩ := h
  have hrequired := required_of_member? hname
  have hkindOf : requiredAs kindOf e "kind" = .ok kind := by
    rw [requiredAs, required_of_member? hkind, ok_bind, kindOf_label]
  have hspelled : (⟨.ofJson v, .ofJson (optional e "namespace" (.text ""))⟩ : QualifiedName) =
      spelled e := by
    rw [spelled, optional_of_required hrequired]
  rw [typeIn]
  simp only [hrequired, hkindOf, liftM_ok, pure_bind, hspelled]
  cases mark with
  | none =>
    have hvacant : (optional e "template" .null).isVacant := htemplate
    simp [templateIn, hvacant, argumentNames_of_isVacant hvacant, assembled]
  | some g =>
    obtain ⟨hg, hnames⟩ := htemplate
    have hvacant : (optional e "template" .null).isVacant = false :=
      Bool.eq_false_iff.2 fun hv => hnames (argumentNames_of_isVacant hv)
    have hmark : requiredAs templateKindOf (optional e "template" .null) "kind" = .ok g := by
      rw [requiredAs, required_of_member? hg, ok_bind, templateKindOf_label]
    -- the check for arguments passes since there are names to look up
    obtain ⟨n, ns, hcons⟩ := List.exists_cons_of_ne_nil hnames
    simp [templateIn, hvacant, hmark, itemsOf_argumentNames hnames, liftM_ok, hcons, assembled]

end program

theorem length_of_mapM {β : Type} {read : β → Decoding CppType} {l : List β} {ts : List CppType}
    (h : (l.mapM read).run s = .ok (ts, s')) : ts.length = l.length := by
  induction l generalizing s ts with
  | nil =>
    cases h
    rfl
  | cons b l ih =>
    rw [List.mapM_cons] at h
    obtain ⟨t, s₁, -, h⟩ := run_bind_ok_iff.1 h
    obtain ⟨us, s₂, hrest, hpure⟩ := run_bind_ok_iff.1 h
    cases hpure
    rw [List.length_cons, List.length_cons, ih hrest]

theorem reads_templateOf (look : Json → Decoding CppType) :
    Reads (fun _ => True) (templateOf look e) fun template =>
      MarksAs e (template.map Prod.fst) ∧ ∀ g as, template = some (g, as) → as ≠ [] := by
  rw [templateOf]
  dsimp only
  split
  · next hvacant => exact .pure ⟨hvacant, by simp⟩
  · refine .lift_bind fun g hg => .lift_bind fun names hnames => ?_
    obtain ⟨mark, hmark, hg⟩ := bind_eq_ok_iff.1 hg
    obtain rfl := templateKindOf_ok_iff.1 hg
    have hlength : Reads (fun _ => True) (names.mapM look) fun as => as.length = names.length :=
      fun _ _ _ _ hrun => ⟨trivial, length_of_mapM hrun⟩
    refine hlength.bind fun as has => ?_
    split
    · exact .lift_bind fun _ hfail => by cases hfail
    · next hne =>
      have hsome : as ≠ [] := fun h => hne (by rw [h, List.isEmpty_nil])
      refine .pure ⟨⟨member?_of_required hmark, fun hnone => hsome ?_⟩, ?_⟩
      · rw [argumentNames_of_itemsOf hnames] at hnone
        exact List.length_eq_zero_iff.1 (has.trans (by rw [hnone, List.length_nil]))
      · rintro _ _ ⟨⟩
        exact hsome

/-- An entry that a type was read from describes the type. -/
theorem describes_of_run {look : Json → Decoding CppType}
    (h : (typeOfEntry look e).run s = .ok (t, s')) : Describes e t.kind t.template? := by
  suffices hread : Reads (fun _ => True) (typeOfEntry look e)
      fun t => Describes e t.kind t.template? from (hread s t s' trivial h).2
  rw [typeOfEntry]
  refine (reads_templateOf look).bind fun template htemplate => .lift_bind fun name hname => ?_
  refine .lift_bind fun kind hkind => ?_
  obtain ⟨hmarks, harguments⟩ := htemplate
  have hkind' : e.member? "kind" = some (.text kind.label) := by
    obtain ⟨v, hv, hkind⟩ := bind_eq_ok_iff.1 hkind
    rw [member?_of_required hv, kindOf_ok_iff.1 hkind]
  cases template with
  | none => exact .pure ⟨⟨name, member?_of_required hname⟩, hkind', hmarks⟩
  | some found =>
    obtain ⟨g, _ | ⟨a, as⟩⟩ := found
    · exact absurd rfl (harguments g [] rfl)
    · exact .pure ⟨⟨name, member?_of_required hname⟩, hkind', hmarks⟩

/-- An entry is read by looking up its arguments, and what it says is in the type. -/
theorem run_typeOfEntry_ok_iff {look : Json → Decoding CppType} :
    (typeOfEntry look e).run s = .ok (t, s') ↔
      Describes e t.kind t.template? ∧ t.id = spelled e ∧
        ((argumentNames e).mapM look).run s = .ok (t.arguments, s') := by
  constructor
  · intro h
    have hdescribes := describes_of_run h
    rw [← typeIn_eq_typeOfEntry, hdescribes.typeIn_eq] at h
    obtain ⟨as, s₁, hnames, hpure⟩ := run_bind_ok_iff.1 h
    obtain ⟨hid, -, -, has⟩ := hdescribes.parts_assembled (length_of_mapM hnames)
    have hassembled : (assembled e t.kind t.template? as, s₁) = (t, s') := Except.ok.inj hpure
    obtain ⟨hassembled, rfl⟩ := Prod.ext_iff.1 hassembled
    dsimp only at hassembled
    rw [hassembled] at hid has
    exact ⟨hdescribes, hid, has ▸ hnames⟩
  · rintro ⟨hdescribes, hid, hnames⟩
    rw [← typeIn_eq_typeOfEntry, hdescribes.typeIn_eq, run_bind_ok_iff]
    obtain ⟨hid', hkind, htemplate, has⟩ := hdescribes.parts_assembled (length_of_mapM hnames)
    have hassembled : assembled e t.kind t.template? t.arguments = t :=
      CppType.eq_of_parts (hid'.trans hid.symm) hkind htemplate has
    exact ⟨t.arguments, s', hnames, by rw [hassembled]; rfl⟩

/-! ## Unfolding -/

/-- The type is what the entry says, with arguments that are so related to the names of the
arguments, one by one. -/
structure Outlines (e : Json) (t : CppType) (R : Json → CppType → Prop) : Prop where
  describes : Describes e t.kind t.template?
  id : t.id = spelled e
  arguments : List.Forall₂ R (argumentNames e) t.arguments

theorem Outlines.imp {R R' : Json → CppType → Prop} (h : Outlines e t R)
    (himp : ∀ j ∈ argumentNames e, ∀ a ∈ t.arguments, R j a → R' j a) : Outlines e t R' := by
  refine ⟨h.describes, h.id, List.forall₂_iff_zip.2 ⟨h.arguments.length_eq, fun hmem => ?_⟩⟩
  obtain ⟨hj, ha⟩ := List.of_mem_zip hmem
  exact himp _ hj _ ha (List.forall₂_zip h.arguments hmem)

/-- The type that an id stands for in a table of entries: what the entry of the id says, with the
types that the ids of its arguments stand for. -/
inductive Unfolds (entries : Table Json Json) : Json → CppType → Prop
  | entry {k e : Json} {t : CppType} (he : entries.find? k = some e)
      (hdescribes : Describes e t.kind t.template?) (hid : t.id = spelled e)
      (harguments : List.Forall₂ (fun j a => Unfolds entries j.canonical a) (argumentNames e)
        t.arguments) : Unfolds entries k t

section table
variable {entries : Table Json Json}

theorem Unfolds.outlines (h : Unfolds entries k t) : ∃ e, entries.find? k = some e ∧
    Outlines e t fun j a => Unfolds entries j.canonical a := by
  cases h with
  | entry he hdescribes hid harguments => exact ⟨_, he, hdescribes, hid, harguments⟩

/-- An id stands for one type at most. -/
theorem Unfolds.unique (h : Unfolds entries k t) (h' : Unfolds entries k u) : t = u := by
  induction t using CppType.arguments_induction generalizing k u with
  | step t ih =>
    obtain ⟨e, he, hdescribes, hid, harguments⟩ := h.outlines
    obtain ⟨e', he', hdescribes', hid', harguments'⟩ := h'.outlines
    cases he.symm.trans he'
    obtain ⟨hkind, htemplate⟩ := hdescribes.unique hdescribes'
    refine CppType.eq_of_parts (hid.trans hid'.symm) hkind htemplate ?_
    refine List.ext_getElem (harguments.length_eq.symm.trans harguments'.length_eq)
      fun n hn hn' => ?_
    have hname : n < (argumentNames e).length := harguments.length_eq ▸ hn
    exact ih _ (List.getElem_mem hn) ((List.forall₂_iff_get.1 harguments).2 n hname hn)
      ((List.forall₂_iff_get.1 harguments').2 n hname hn')

/-- What was built for an id is what its entry says, with arguments that were built too. -/
theorem Settled.outlines (hs : Settled entries s) (ht : s.find? k = some t) :
    ∃ e, entries.find? k = some e ∧
      Outlines e t fun j a => idOf j = .ok j.canonical ∧ s.find? j.canonical = some a := by
  obtain ⟨e, he, hread⟩ := hs k t ht
  obtain ⟨hdescribes, hid, hnames⟩ := run_typeOfEntry_ok_iff.1 (hread s (.refl s))
  exact ⟨e, he, hdescribes, hid, (forall₂_of_mapM_known hnames).2⟩

theorem Settled.unfolds (hs : Settled entries s) (ht : s.find? k = some t) :
    Unfolds entries k t := by
  induction t using CppType.arguments_induction generalizing k with
  | step t ih =>
    obtain ⟨e, he, houtlines⟩ := hs.outlines ht
    obtain ⟨hdescribes, hid, harguments⟩ := houtlines.imp fun j _ a ha hfind => ih a ha hfind.2
    exact .entry he hdescribes hid harguments

/-- Types get smaller along the references between their entries. -/
theorem Settled.sizeOf_lt (hs : Settled entries s) {k' : Json}
    (h : TransGen (Refers entries) k k') (ht : s.find? k = some t) :
    ∃ t', s.find? k' = some t' ∧ sizeOf t' < sizeOf t := by
  have hstep : ∀ {k k' t}, Refers entries k k' → s.find? k = some t →
      ∃ t', s.find? k' = some t' ∧ sizeOf t' < sizeOf t := by
    rintro k _ t ⟨e, he, j, hj, rfl⟩ ht
    obtain ⟨e', he', -, -, harguments⟩ := hs.outlines ht
    cases he.symm.trans he'
    obtain ⟨a, ha, -, hfind⟩ := exists_of_forall₂ harguments.flip hj
    exact ⟨a, hfind, CppType.sizeOf_lt_of_mem_arguments ha⟩
  induction h with
  | single hk => exact hstep hk ht
  | tail _ hk ih =>
    obtain ⟨t', ht', hlt⟩ := ih
    obtain ⟨t'', ht'', hlt'⟩ := hstep hk ht'
    exact ⟨t'', ht'', Nat.lt_trans hlt' hlt⟩

/-- Where everything in the table was built, no type is among its own arguments. -/
theorem Settled.acyclic (hs : Settled entries s)
    (hall : ∀ k ∈ entries.keys, ∃ t, s.find? k = some t) : Acyclic entries := by
  intro k hcycle
  obtain ⟨_, ⟨e, he, -⟩, -⟩ := TransGen.head'_iff.1 hcycle
  obtain ⟨t, ht⟩ := hall k (Table.mem_keys_iff_exists.2 ⟨e, he⟩)
  obtain ⟨t', ht', hlt⟩ := hs.sizeOf_lt hcycle ht
  cases ht.symm.trans ht'
  exact Nat.lt_irrefl _ hlt

end table

end Document
end Introspect
