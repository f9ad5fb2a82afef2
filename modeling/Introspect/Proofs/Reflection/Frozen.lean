import Introspect.Proofs.Reflection.Classes
import Introspect.Proofs.Reflection.Entry

/-! While a class is recorded, those recorded before it stay as they are. So the fields that it has
from templates do not depend on what else comes in meanwhile. -/
namespace Introspect.Reflection

/-- The classes of the given names stay as they are, and so does what they give to their bases. -/
structure Keeps (ns : List String) (p q : Progress) : Prop where
  classes : ∀ n ∈ ns, q.registry.classes.find? n = p.registry.classes.find? n
  given : ∀ n ∈ ns, ∀ b, q.baseArguments.find? (n, b) = p.baseArguments.find? (n, b)

namespace Keeps
variable {ns ms : List String} {p q r : Progress}

theorem refl (p : Progress) : Keeps ns p p := ⟨fun _ _ => rfl, fun _ _ _ => rfl⟩

theorem trans (hpq : Keeps ns p q) (hqr : Keeps ns q r) : Keeps ns p r where
  classes n hn := (hqr.classes n hn).trans (hpq.classes n hn)
  given n hn b := (hqr.given n hn b).trans (hpq.given n hn b)

theorem mono (h : Keeps ms p q) (hns : ns ⊆ ms) : Keeps ns p q :=
  ⟨fun n hn => h.classes n (hns hn), fun n hn => h.given n (hns hn)⟩

theorem subset_keys (h : Keeps ns p q) (hns : ns ⊆ p.registry.classes.keys) :
    ns ⊆ q.registry.classes.keys := by
  intro n hn
  rw [← Catalog.find?_isSome_iff, h.classes n hn, Catalog.find?_isSome_iff]
  exact hns hn

theorem of_reported (h : Reported p q) : Keeps ns p q := by
  obtain ⟨es, rfl⟩ := h
  exact ⟨fun _ _ => rfl, fun _ _ _ => rfl⟩

theorem of_resolves {u : CompilationUnit} (h : Resolves u p q) : Keeps ns p q := by
  obtain ⟨_, _, _, rfl⟩ := h.frame
  exact ⟨fun _ _ => rfl, fun _ _ _ => rfl⟩

end Keeps

/-- Whatever is recorded, the classes that were there before stay as they are. -/
def Preserves (reflect : Target → Walk ClassRecord) : Prop :=
  ∀ t p, Yields (reflect t) p fun _ q => Keeps p.registry.classes.keys p q

/-- What a member leaves of the record as it was. -/
structure Continues (c : Context) (x : CursorId) (r r' : ClassRecord) : Prop where
  type : r'.type = r.type
  metadata : r'.metadata = r.metadata
  key : r'.key = r.key
  abstractness : r'.abstractness = r.abstractness
  bodyLine : r'.bodyLine = if isBodyMarker c (c.unit.cursor x) then
    .proper (some (c.unit.cursor x).line) else r.bodyLine

/-- The last of the declarations that mark the place for generated members. -/
def markedLine (c : Context) (xs : List CursorId) : Option Int :=
  (xs.filter fun x => isBodyMarker c (c.unit.cursor x)).getLast?.map fun x =>
    (c.unit.cursor x).line

/-- A record without members of the given class has come to one with the members of a list. -/
structure Headed (c : Context) (start : ClassRecord) (xs : List CursorId) (r : ClassRecord) :
    Prop where
  type : r.type = start.type
  metadata : r.metadata = start.metadata
  key : r.key = start.key
  abstractness : r.abstractness = start.abstractness
  bodyLine : r.bodyLine = .proper (markedLine c xs)

section specs
variable {c : Context} {reflect : Target → Walk ClassRecord} {p : Progress} {ns : List String}

theorem specializeMethod_reports (type : CppType) (m : Method) :
    Yields (specializeMethod type m) p fun _ q => Reported p q := by
  refine yields_bind (R := fun _ q => q = p) (yields_registry rfl) ?_
  rintro r q rfl
  refine yields_bind (substituteUse_spec _ _ m.result) ?_
  rintro result q' ⟨hq', -⟩
  refine yields_bind (mapM_reported fun u _ q => substituteUse_spec _ _ u) ?_
  rintro arguments q'' ⟨hq'', -⟩
  exact yields_pure (hq'.trans hq'')

/-- What a base gives comes in under the name of the class that is being recorded. -/
theorem baseOf_keeps (hreflect : Preserves reflect) (d : Cursor) {r : ClassRecord}
    (hns : ns ⊆ p.registry.classes.keys) (hr : r.qualifiedName ∉ ns) :
    Yields (baseOf c reflect d r) p fun _ q => Keeps ns p q := by
  unfold baseOf
  split
  · next t ht =>
    dsimp only
    split
    · next e he =>
      split
      · refine yields_bind (hreflect _ p) ?_
        rintro known q hq
        refine yields_bind (yields_mapM (S := Resolves c.unit) (R := fun _ _ _ => True) .refl .trans
          (fun _ _ => trivial) fun i _ q' _ => (resolveType_spec i).mono fun _ _ h =>
            ⟨h.1.resolves, trivial⟩) ?_
        rintro as q' ⟨hq', -⟩
        have hkeeps : Keeps ns p q' := (hq.mono hns).trans (.of_resolves hq')
        split
        · exact yields_pure hkeeps
        · refine yields_bind (R := fun _ q'' => q'' = { q' with
            baseArguments := q'.baseArguments.insert (r.qualifiedName, known.qualifiedName) as })
            (yields_modify rfl) ?_
          rintro - q'' rfl
          refine yields_pure ⟨hkeeps.classes, fun n hn b => ?_⟩
          have hne : (r.qualifiedName, known.qualifiedName) ≠ (n, b) := by
            rintro heq
            exact hr ((Prod.mk.inj heq).1 ▸ hn)
          rw [Table.find?_insert, if_neg hne]
          exact hkeeps.given n hn b
      · exact (hreflect _ p).mono fun _ _ h => h.mono hns
      · exact (hreflect _ p).mono fun _ _ h => h.mono hns
      · exact yields_throw
    · exact yields_throw
  · exact yields_throw

theorem addMember_keeps (hreflect : Preserves reflect) (flag : Bool) {r : ClassRecord}
    (x : CursorId) (hns : ns ⊆ p.registry.classes.keys) (hr : r.qualifiedName ∉ ns) :
    Yields (addMember c reflect flag r x) p fun r' q => Keeps ns p q ∧ Continues c x r r' := by
  unfold addMember
  dsimp only
  split
  · next hmarker =>
    exact yields_pure ⟨.refl p, rfl, rfl, rfl, rfl, (if_pos hmarker).symm⟩
  · next hmarker =>
    have hline : r.bodyLine = if isBodyMarker c (c.unit.cursor x) then
        .proper (some (c.unit.cursor x).line) else r.bodyLine := (if_neg hmarker).symm
    split
    · refine yields_bind (baseOf_keeps hreflect _ hns hr) ?_
      rintro b q hq
      exact yields_pure ⟨hq, rfl, rfl, rfl, rfl, hline⟩
    · split
      · exact yields_pure ⟨.refl p, rfl, rfl, rfl, rfl, hline⟩
      · next m hm =>
        split
        · split
          · exact yields_pure ⟨.refl p, rfl, rfl, rfl, rfl, hline⟩
          · refine yields_bind (fieldOf_spec hm) ?_
            rintro f q ⟨hq, -⟩
            exact yields_pure ⟨.of_resolves hq, rfl, rfl, rfl, rfl, hline⟩
        · refine yields_bind (methodOf_spec hm) ?_
          rintro f q ⟨hq, -⟩
          refine yields_bind_ite (R := fun _ q' => Reported q q') ?_ ?_
          · split
            · exact specializeMethod_reports _ f
            · exact yields_pure (.refl q)
          · rintro f' q' hq'
            exact yields_pure ⟨(Keeps.of_resolves hq).trans (.of_reported hq'), rfl, rfl, rfl, rfl,
              hline⟩
        · exact yields_throw

/-- The members of a class leave everything as it was but the class itself. -/
theorem members_keep (hreflect : Preserves reflect) (flag : Bool) (start : ClassRecord)
    (hline : start.bodyLine = .proper none) (hnew : start.qualifiedName ∉ p.registry.classes.keys)
    (xs : List CursorId) :
    Yields (xs.foldlM (addMember c reflect flag) start) p fun r q =>
      Keeps p.registry.classes.keys p q ∧ Headed c start xs r := by
  refine yields_foldlM (I := fun done r q => Keeps p.registry.classes.keys p q ∧
    Headed c start done r) ?_ ⟨.refl p, rfl, rfl, rfl, rfl, hline⟩
  rintro done x - r q ⟨hq, hr⟩
  have hname : r.qualifiedName ∉ p.registry.classes.keys := by
    rwa [ClassRecord.qualifiedName, hr.type]
  refine (addMember_keeps hreflect flag x (hq.subset_keys (List.Subset.refl _)) hname).mono ?_
  rintro r' q' ⟨hq', hr'⟩
  refine ⟨hq.trans hq', hr'.type.trans hr.type, hr'.metadata.trans hr.metadata,
    hr'.key.trans hr.key, hr'.abstractness.trans hr.abstractness, ?_⟩
  rw [hr'.bodyLine, hr.bodyLine, markedLine, markedLine, List.filter_append]
  cases hmarker : isBodyMarker c (c.unit.cursor x) <;> simp [hmarker]

theorem finish_keeps {r : ClassRecord} (hr : r.qualifiedName ∉ ns) :
    Yields (finish r) p fun k q => Keeps ns p q ∧ ∃ promoted p',
      (promotedFields r).run p = .ok promoted p' ∧
        k = { r with fields := r.fields ++ promoted } := by
  refine yields_bind (R := fun promoted q => (promotedFields r).run p = .ok promoted q)
    (fun _ _ h => h) ?_
  intro promoted q hrun
  have hreported := promotedFields_reports r p _ _ hrun
  refine yields_bind (R := fun _ q' => Keeps ns q q') ?_ ?_
  · apply yields_update
    intro registry hadd
    obtain ⟨-, -, s, hs, rfl⟩ := Registry.addClass_ok hadd
    obtain ⟨types, holders, rfl, -⟩ := Registry.ensureType_frame hs
    refine ⟨fun n hn => ?_, fun _ _ _ => rfl⟩
    have hne : r.qualifiedName ≠ n := fun heq => hr (heq ▸ hn)
    exact (Catalog.find?_insert _ _ n).trans (if_neg hne)
  · rintro - q' hq'
    exact yields_pure ⟨(Keeps.of_reported hreported).trans hq', promoted, q, hrun, rfl⟩

private theorem enter_keeps (hreflect : Preserves reflect) {q : Progress}
    (hq : Resolves c.unit p q) {type : CppType}
    (hnew : type.qualifiedName ∉ q.registry.classes.keys)
    {flag : Bool} {d : CursorId} {d' : Cursor} {m : Metadata} :
    Yields (enterWith c reflect flag d (freshRecord d' m type)) q fun _ q' =>
      Keeps p.registry.classes.keys p q' := by
  refine yields_bind (members_keep hreflect flag (freshRecord d' m type) rfl hnew _) ?_
  rintro r q' ⟨hq', hr⟩
  have hname : (settled flag r).qualifiedName ∉ q.registry.classes.keys := by
    rwa [ClassRecord.qualifiedName, settled_type, hr.type]
  refine (finish_keeps hname).mono fun _ q'' h => ?_
  rw [← hq.classes_eq]
  exact (Keeps.of_resolves hq).trans (hq'.trans h.1)

theorem reflectDeclared_preserves (hreflect : Preserves reflect) (d : CursorId) (m : Metadata) :
    Yields (reflectDeclared c reflect d m) p fun _ q => Keeps p.registry.classes.keys p q := by
  refine yields_reflectDeclared ?_ ?_
  · exact fun type q k hrun _ => .of_resolves (resolveCursor_spec d _ _ hrun).1
  · exact fun type q hrun hnew => enter_keeps hreflect (resolveCursor_spec d _ _ hrun).1 hnew

theorem reflectTyped_preserves (hreflect : Preserves reflect) (t : TypeId) :
    Yields (reflectTyped c reflect t) p fun _ q => Keeps p.registry.classes.keys p q := by
  have hresolves : ∀ type q, (resolveType c.unit t).run p = .ok type q → Resolves c.unit p q :=
    fun type q hrun => (resolveType_spec t _ _ hrun).1.resolves
  refine yields_reflectTyped ?_ ?_ ?_
  · exact fun type q k hrun _ => .of_resolves (hresolves type q hrun)
  · exact fun type q e hrun hnew _ _ => enter_keeps hreflect (hresolves type q hrun) hnew
  · exact fun type q e d _ hrun hnew _ _ _ _ => enter_keeps hreflect (hresolves type q hrun) hnew

theorem reflectWithin_preserves (n : Nat) : Preserves (reflectWithin c n) := by
  induction n with
  | zero => exact fun _ _ => yields_throw
  | succ n ih =>
    rintro (⟨d, m⟩ | t) p
    · exact reflectDeclared_preserves ih d m
    · exact reflectTyped_preserves ih t

end specs

/-! ## Fields from templates -/

/-- The bases of recorded classes are recorded, and so are the templates of specialisations. -/
structure TemplatesRecorded (p : Progress) : Prop where
  bases : ∀ k ∈ p.registry.classes.items, ∀ n, Given.proper n ∈ k.bases →
    n ∈ p.registry.classes.keys
  templates : ∀ k ∈ p.registry.classes.items, k.type.isSpecialized →
    k.type.templateName?.getD "" ∈ p.registry.classes.keys

/-- The template and the arguments behind a base, as they are known to a progress. -/
def baseKnown? (o : Progress) (k : ClassRecord) (as : List CppType) (b : ClassRecord) :
    Option (ClassRecord × List CppType) :=
  match b.type.template? with
  | none => none
  | some .specialized =>
    (o.registry.classes.find? (b.type.templateName?.getD "")).map (·, b.type.arguments)
  | some .generic =>
    some (b, match o.baseArguments.find? (k.qualifiedName, b.qualifiedName) with
      | none => as
      | some given => given.map (substituted k.type.arguments as))

/-- What is harvested from a template and its bases, to a depth of so many levels, as they are
known to a progress. -/
def gathered (o : Progress) : Nat → ClassRecord → List CppType → Harvest → Harvest
  | 0, _, _, h => h
  | n + 1, k, as, h =>
    if k.qualifiedName ∈ h.seen then h
    else (o.registry.directBases k).foldl (fun h b =>
      match baseKnown? o k as b with
      | none => h
      | some (k', as') => gathered o n k' as' h)
      ⟨h.fields ++ k.fields.map (substitutedField k.type.arguments as), k.qualifiedName :: h.seen⟩

section templates
variable {o q : Progress} {k : ClassRecord}

theorem TemplatesRecorded.directBases_eq (ho : TemplatesRecorded o)
    (hq : Keeps o.registry.classes.keys o q) (hk : k ∈ o.registry.classes.items) :
    q.registry.directBases k = o.registry.directBases k := by
  refine List.filterMap_congr fun n hn => hq.classes n (ho.bases k hk n ?_)
  obtain ⟨g, hg, hproper⟩ := List.mem_filterMap.1 hn
  cases g with
  | proper m => exact Option.some.inj hproper ▸ hg
  | _ => cases hproper

theorem baseInstance?_kept (ho : TemplatesRecorded o) (hq : Keeps o.registry.classes.keys o q)
    (hk : k ∈ o.registry.classes.items) (as : List CppType) {b : ClassRecord}
    (hb : b ∈ o.registry.classes.items) :
    Yields (baseInstance? k as b) q fun i q' => Reported q q' ∧ i = baseKnown? o k as b ∧
      ∀ j ∈ i, j.1 ∈ o.registry.classes.items := by
  unfold baseInstance? baseKnown?
  cases hkind : b.type.template? with
  | none => exact yields_pure ⟨.refl q, rfl, by simp⟩
  | some kind =>
    cases kind with
    | specialized =>
      have hspecial : b.type.isSpecialized := by simp [CppType.isSpecialized, hkind]
      refine yields_bind (genericClass_spec b.type) ?_
      rintro k' q' ⟨rfl, hk'⟩
      rw [hq.classes _ (ho.templates b hb hspecial)] at hk'
      refine yields_pure ⟨.refl q', by rw [hk']; rfl, ?_⟩
      simpa using Catalog.mem_of_find? hk'
    | generic =>
      refine yields_bind (R := fun r q' => q' = q ∧ r = q) (yields_get ⟨rfl, rfl⟩) ?_
      rintro r q' ⟨rfl, rfl⟩
      rw [hq.given _ (Catalog.key_mem_keys hk)]
      cases o.baseArguments.find? (k.qualifiedName, b.qualifiedName) with
      | none => exact yields_pure ⟨.refl r, rfl, by simpa using hb⟩
      | some given =>
        refine yields_bind (mapM_reported fun t _ q =>
          substitute_spec k.type.arguments as t) ?_
        rintro ts q ⟨hq', rfl⟩
        exact yields_pure ⟨hq', rfl, by simpa using hb⟩

/-- What is harvested from recorded templates does not depend on what came in since. -/
theorem harvest_kept (ho : TemplatesRecorded o) (m : Nat) {q : Progress}
    (hq : Keeps o.registry.classes.keys o q) {k : ClassRecord}
    (hk : k ∈ o.registry.classes.items) (as : List CppType) (h : Harvest) :
    Yields (harvest m k as h) q fun h' q' => Reported q q' ∧
      ∀ n, m ≤ n → h' = gathered o n k as h := by
  -- on the levels that are left
  induction m generalizing q k as h with
  | zero => exact yields_throw
  | succ m ih =>
    unfold harvest
    split
    · next hseen =>
      refine yields_pure ⟨.refl q, fun n hn => ?_⟩
      obtain ⟨n, rfl⟩ : ∃ j, n = j + 1 := ⟨n - 1, by omega⟩
      rw [gathered, if_pos hseen]
    · next hfresh =>
      refine yields_bind (mapM_reported fun f _ q =>
        substituteField_spec k.type.arguments as f) ?_
      rintro own q' ⟨hq', rfl⟩
      refine yields_bind (R := fun r q'' => q'' = q' ∧ r = q.registry)
        (yields_registry ⟨rfl, hq'.registry_eq⟩) ?_
      rintro r q'' ⟨rfl, rfl⟩
      rw [ho.directBases_eq hq hk]
      refine (yields_foldlM (I := fun done h' q' => Reported q q' ∧ ∀ n, m ≤ n →
        h' = done.foldl (fun h b => match baseKnown? o k as b with
          | none => h
          | some (k', as') => gathered o n k' as' h) _) ?_ ⟨hq', fun _ _ => rfl⟩).mono ?_
      · rintro done b hb h' q₁ ⟨hq₁, hdone⟩
        have hkeeps := hq.trans (.of_reported hq₁)
        refine yields_bind (baseInstance?_kept ho hkeeps hk as (directBases_mem hb)) ?_
        rintro i q₂ ⟨hq₂, hi, hmem⟩
        split
        · refine yields_pure ⟨hq₁.trans hq₂, fun n hn => ?_⟩
          rw [List.foldl_append, ← hdone n hn, List.foldl_cons, List.foldl_nil, ← hi]
        · next k' as' =>
          refine (ih (hkeeps.trans (.of_reported hq₂)) (hmem _ rfl) as' h').mono ?_
          rintro h'' q₃ ⟨hq₃, hnext⟩
          refine ⟨(hq₁.trans hq₂).trans hq₃, fun n hn => ?_⟩
          rw [List.foldl_append, ← hdone n hn, List.foldl_cons, List.foldl_nil, ← hi]
          exact hnext n hn
      · rintro h' q₁ ⟨hq₁, hall⟩
        refine ⟨hq₁, fun n hn => ?_⟩
        obtain ⟨n, rfl⟩ : ∃ j, n = j + 1 := ⟨n - 1, by omega⟩
        rw [gathered, if_neg hfresh]
        exact hall n (by omega)

/-- The fields that a specialisation has from a recorded template are the same whenever they are
asked for. -/
theorem promotedFields_kept (ho : TemplatesRecorded o) (hq : Keeps o.registry.classes.keys o q)
    (hspecial : k.type.isSpecialized)
    (htemplate : k.type.templateName?.getD "" ∈ o.registry.classes.keys) :
    Yields (promotedFields k) q fun fs _ => ∃ g,
      o.registry.classes.find? (k.type.templateName?.getD "") = some g ∧
        ∃ m, ∀ n, m ≤ n → fs = (gathered o n g k.type.arguments ⟨[], []⟩).fields := by
  rw [promotedFields_of_specialized hspecial]
  refine yields_bind (genericClass_spec k.type) ?_
  rintro g q' ⟨rfl, hg⟩
  rw [hq.classes _ htemplate] at hg
  refine yields_bind (R := fun _ q'' => q'' = q') (yields_registry rfl) ?_
  rintro r q'' rfl
  refine yields_bind (harvest_kept ho _ hq (Catalog.mem_of_find? hg) k.type.arguments ⟨[], []⟩) ?_
  rintro h q₁ ⟨-, hall⟩
  exact yields_pure ⟨g, hg, _, fun n hn => congrArg Harvest.fields (hall n hn)⟩

theorem promotedFields_eq (ho : TemplatesRecorded o) {q₁ q₂ q₁' q₂' : Progress}
    {k₁ k₂ : ClassRecord} {fs₁ fs₂ : List Field} (hq₁ : Keeps o.registry.classes.keys o q₁)
    (hq₂ : Keeps o.registry.classes.keys o q₂) (htype : k₁.type = k₂.type)
    (hspecial : k₁.type.isSpecialized)
    (htemplate : k₁.type.templateName?.getD "" ∈ o.registry.classes.keys)
    (h₁ : (promotedFields k₁).run q₁ = .ok fs₁ q₁')
    (h₂ : (promotedFields k₂).run q₂ = .ok fs₂ q₂') : fs₁ = fs₂ := by
  obtain ⟨g₁, hg₁, m₁, hfs₁⟩ := promotedFields_kept ho hq₁ hspecial htemplate _ _ h₁
  rw [htype] at hspecial htemplate hg₁ hfs₁
  obtain ⟨g₂, hg₂, m₂, hfs₂⟩ := promotedFields_kept ho hq₂ hspecial htemplate _ _ h₂
  obtain rfl := Option.some.inj (hg₁.symm.trans hg₂)
  rw [hfs₁ (max m₁ m₂) (Nat.le_max_left _ _), hfs₂ (max m₁ m₂) (Nat.le_max_right _ _)]

/-- At any time of a walk that started without records, what recorded classes refer to is
recorded. -/
theorem templatesRecorded_of_steps {c : Context} {hash : NameHash}
    (h : Steps c (.start (.empty hash)) o) : TemplatesRecorded o := by
  have hall := entered_of_steps (traced_start c hash) rfl h
  constructor
  · intro k hk n hn
    obtain ⟨o', q, flag, d, r, promoted, -, hg, -, hmembers, -, rfl⟩ := hall.2 k hk
    obtain ⟨x, -, m, hm, -, hproper⟩ := exists_of_forall₂ hmembers.bases hn
    exact Given.proper.inj hproper ▸ hg.class_mem hm
  · intro k hk hspecial
    obtain ⟨o', q, flag, d, r, promoted, -, hg, -, -, hrun, rfl⟩ := hall.2 k hk
    have hknown : Yields (promotedFields r) o' fun _ _ =>
        r.type.templateName?.getD "" ∈ o'.registry.classes.keys := by
      rw [promotedFields_of_specialized (c := r) hspecial]
      refine yields_bind (genericClass_spec r.type) ?_
      rintro g q' ⟨rfl, hfind⟩
      exact fun _ _ _ => Catalog.mem_keys_of_find? hfind
    exact hg.class_mem (hknown _ _ hrun)

end templates
end Introspect.Reflection
