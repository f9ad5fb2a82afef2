import Introspect.Proofs.Reflection.Provenance
import Introspect.Proofs.Reflection.Reach

/-! The members that a walk goes through, class by class. A class comes in because it was asked for
or because a class whose members were walked has it for a base, and for no other reason. -/
namespace Introspect.Reflection
open Relation

/-- The declaration is one of a class of the name. -/
inductive DeclaredAs (u : CompilationUnit) : String → CursorId → Prop
  | declared {d} : (u.cursor d).kind.isClass → DeclaredAs u (declaredName u d) d
  | typed {t d} : (u.canonical t).declaration = some d → DeclaredAs u (recordedName u t) d

/-- A class that came in: its name, its declaration, and the declaration whose members it has. -/
structure Body where
  name : String
  declaration : CursorId
  source : CursorId

/-- The class was asked for, or is a base of a class whose members were walked, and so on. -/
inductive Reached (c : Context) (asked : String → Metadata → Prop) (bodies : List Body) :
    String → Prop
  | asked {n m} : asked n m → Reached c asked bodies n
  | base {b n} : b ∈ bodies → Reached c asked bodies b.name → n ∈ baseNames c b.source →
      Reached c asked bodies n

theorem Reached.lift {c : Context} {asked asked' : String → Metadata → Prop}
    {bodies bodies' : List Body} {n : String} (h : Reached c asked bodies n)
    (hasked : ∀ n m, asked n m → Reached c asked' bodies' n) (hbodies : bodies ⊆ bodies') :
    Reached c asked' bodies' n := by
  induction h with
  | asked h => exact hasked _ _ h
  | base hb _ hn ih => exact .base (hbodies hb) ih hn

/-- The record has the bases of a body and the metadata of its declaration. -/
structure Body.Gives (c : Context) (b : Body) (k : ClassRecord) : Prop where
  name : k.qualifiedName = b.name
  metadata : k.metadata = c.metadata (c.unit.cursor b.declaration)
  bases : k.bases = (baseNames c b.source).map .proper

/-- Classes came in with their bases. What was asked for tells their names, with the metadata that
a class has if it is no base of another one. -/
structure Joins (c : Context) (asked : String → Metadata → Prop) (bodies : List Body)
    (p q : Progress) : Prop where
  origins : OriginsNamed c.unit p → OriginsNamed c.unit q
  types : Brings (fun t => Stems c.unit t ∧
    (t.isGeneric → t.qualifiedName ∈ q.registry.classes.keys)) p q
  keys : ∀ n, n ∈ q.registry.classes.keys ↔
    n ∈ p.registry.classes.keys ∨ ∃ b ∈ bodies, b.name = n
  fresh : ∀ b ∈ bodies, b.name ∉ p.registry.classes.keys
  apart : bodies.Pairwise fun a b => a.name = b.name → Circular c.unit a.name
  declared : ∀ b ∈ bodies, DeclaredAs c.unit b.name b.declaration
  walked : ∀ b ∈ bodies, Walked c.unit b.name b.source
  closed : ∀ b ∈ bodies, ∀ n ∈ baseNames c b.source, n ∈ q.registry.classes.keys
  reached : ∀ b ∈ bodies, Reached c asked bodies b.name
  records : ∀ k ∈ q.registry.classes.items, k ∈ p.registry.classes.items ∨
    (∃ b ∈ bodies, b.Gives c k) ∧
      (asked k.qualifiedName k.metadata ∨ ∃ b ∈ bodies, k.qualifiedName ∈ baseNames c b.source)

namespace Joins
variable {c : Context} {asked asked' : String → Metadata → Prop} {bodies bodies' : List Body}
  {p q r : Progress}

theorem kept (h : Joins c asked bodies p q) {n : String} (hn : n ∈ p.registry.classes.keys) :
    n ∈ q.registry.classes.keys :=
  (h.keys n).2 (.inl hn)

theorem refl (p : Progress) : Joins c asked [] p p where
  origins := id
  types := .refl p
  keys := by simp
  fresh := by simp
  apart := .nil
  declared := by simp
  walked := by simp
  closed := by simp
  reached := by simp
  records k hk := .inl hk

/-- Types came in first, and generic ones only for classes that are there in the end. -/
theorem after_resolves (h : Joins c asked bodies q r) (hq : Resolves c.unit p q)
    (hbrings : Brings (fun t => Stems c.unit t ∧
      (t.isGeneric → t.qualifiedName ∈ r.registry.classes.keys)) p q) :
    Joins c asked bodies p r :=
  { h with
    origins := fun hp => h.origins (hq.named hp)
    types := hbrings.trans h.types
    keys := hq.classes_eq ▸ h.keys
    fresh := hq.classes_eq ▸ h.fresh
    records := hq.classes_eq ▸ h.records }

theorem of_plain (h : Resolves c.unit p q) (hbrings : Brings (StemsPlainly c.unit) p q) :
    Joins c asked [] p q :=
  (refl q).after_resolves h
    (hbrings.mono fun t ht => ⟨ht.1, fun hg => absurd hg (by simp [ht.2])⟩)

/-- Nothing counts but types, classes and the declarations that are remembered. -/
theorem of_eq (h : Joins c asked bodies p q) (horigins : r.origins = q.origins)
    (htypes : r.registry.types = q.registry.types)
    (hclasses : r.registry.classes = q.registry.classes) : Joins c asked bodies p r :=
  { h with
    origins := fun hp n d hd => h.origins hp n d (horigins ▸ hd)
    types := by
      rw [hclasses]
      exact fun t ht => h.types t (htypes ▸ ht)
    keys := hclasses ▸ h.keys
    closed := hclasses ▸ h.closed
    records := hclasses ▸ h.records }

theorem of_reported (h : Reported p q) : Joins c asked [] p q := by
  obtain ⟨es, rfl⟩ := h
  exact (refl p).of_eq rfl rfl rfl

theorem trans (hpq : Joins c asked bodies p q) (hqr : Joins c asked bodies' q r) :
    Joins c asked (bodies ++ bodies') p r where
  origins h := hqr.origins (hpq.origins h)
  types := (hpq.types.mono fun t ht => ⟨ht.1, fun hg => hqr.kept (ht.2 hg)⟩).trans
    hqr.types
  keys n := by
    rw [hqr.keys, hpq.keys]
    simp only [List.mem_append, or_and_right, exists_or, or_assoc]
  fresh b hb := by
    rcases List.mem_append.1 hb with hb | hb
    · exact hpq.fresh b hb
    · exact fun hmem => hqr.fresh b hb (hpq.kept hmem)
  apart := by
    refine List.pairwise_append.2 ⟨hpq.apart, hqr.apart, ?_⟩
    -- what came in later was not there yet
    intro a ha b hb hname
    exact absurd ((hpq.keys b.name).2 (.inr ⟨a, ha, hname⟩)) (hqr.fresh b hb)
  declared := List.forall_mem_append.2 ⟨hpq.declared, hqr.declared⟩
  walked := List.forall_mem_append.2 ⟨hpq.walked, hqr.walked⟩
  closed b hb n hn := by
    rcases List.mem_append.1 hb with hb | hb
    · exact hqr.kept (hpq.closed b hb n hn)
    · exact hqr.closed b hb n hn
  reached b hb := by
    rcases List.mem_append.1 hb with hb | hb
    · exact (hpq.reached b hb).lift (fun _ _ => .asked) (List.subset_append_left _ _)
    · exact (hqr.reached b hb).lift (fun _ _ => .asked) (List.subset_append_right _ _)
  records k hk := by
    rcases hqr.records k hk with hk | ⟨⟨b, hb, hgives⟩, hreason⟩
    · refine (hpq.records k hk).imp_right ?_
      rintro ⟨⟨b, hb, hgives⟩, hreason⟩
      refine ⟨⟨b, List.mem_append_left _ hb, hgives⟩, hreason.imp_right ?_⟩
      rintro ⟨b', hb', hbase⟩
      exact ⟨b', List.mem_append_left _ hb', hbase⟩
    · refine .inr ⟨⟨b, List.mem_append_right _ hb, hgives⟩, hreason.imp_right ?_⟩
      rintro ⟨b', hb', hbase⟩
      exact ⟨b', List.mem_append_right _ hb', hbase⟩

theorem mono (h : Joins c asked bodies p q) (hasked : ∀ n m, asked n m → asked' n m) :
    Joins c asked' bodies p q :=
  { h with
    reached := fun b hb => (h.reached b hb).lift (fun n m hn => .asked (hasked n m hn))
      (List.Subset.refl _)
    records := fun k hk => (h.records k hk).imp_right fun hk =>
      ⟨hk.1, hk.2.imp_left (hasked _ _)⟩ }

/-- A class comes in after its bases. -/
theorem enter {b : Body} {k : ClassRecord} (h : Joins c (fun n _ => n ∈ baseNames c b.source)
      bodies p q)
    (hgives : b.Gives c k) (hnew : b.name ∉ p.registry.classes.keys)
    (hagain : b.name ∈ q.registry.classes.keys → Circular c.unit b.name)
    (hclosed : ∀ n ∈ baseNames c b.source, n ∈ q.registry.classes.keys)
    (hdeclared : DeclaredAs c.unit b.name b.declaration)
    (hwalked : Walked c.unit b.name b.source) :
    Joins c (fun n m => n = b.name ∧ m = k.metadata) (bodies ++ [b]) p (q.withClass k) where
  origins := h.origins
  types := h.types.mono fun t ht =>
    ⟨ht.1, fun hg => Catalog.mem_keys_insert.2 (.inr (ht.2 hg))⟩
  keys n := by
    have hinsert : n ∈ (q.withClass k).registry.classes.keys ↔
        n = k.qualifiedName ∨ n ∈ q.registry.classes.keys := Catalog.mem_keys_insert
    rw [hinsert, hgives.name, h.keys]
    simp only [List.mem_append, List.mem_singleton, or_and_right, exists_or, exists_eq_left,
      eq_comm (a := n), or_left_comm, or_comm]
  fresh := List.forall_mem_append.2 ⟨h.fresh, List.forall_mem_singleton.2 hnew⟩
  apart := by
    refine List.pairwise_append.2 ⟨h.apart, List.pairwise_singleton _ _, ?_⟩
    intro a ha b' hb' hname
    obtain rfl := List.mem_singleton.1 hb'
    exact hname ▸ hagain ((h.keys _).2 (.inr ⟨a, ha, hname⟩))
  declared := List.forall_mem_append.2 ⟨h.declared, List.forall_mem_singleton.2 hdeclared⟩
  walked := List.forall_mem_append.2 ⟨h.walked, List.forall_mem_singleton.2 hwalked⟩
  closed a ha n hn := by
    refine Catalog.mem_keys_insert.2 (.inr ?_)
    rcases List.mem_append.1 ha with ha | ha
    · exact h.closed a ha n hn
    · obtain rfl := List.mem_singleton.1 ha
      exact hclosed n hn
  reached a ha := by
    have hself : Reached c (fun n m => n = b.name ∧ m = k.metadata) (bodies ++ [b]) b.name :=
      .asked ⟨rfl, rfl⟩
    rcases List.mem_append.1 ha with ha | ha
    · refine (h.reached a ha).lift ?_ (List.subset_append_left _ _)
      exact fun n _ hn => .base (List.mem_append_right _ (List.mem_singleton_self b)) hself hn
    · exact List.mem_singleton.1 ha ▸ hself
  records k' hk' := by
    have hlast : b ∈ bodies ++ [b] := List.mem_append_right _ (List.mem_singleton_self b)
    rcases Catalog.mem_items_insert.1 hk' with rfl | ⟨hk', -⟩
    · exact .inr ⟨⟨b, hlast, hgives⟩, .inl ⟨hgives.name, rfl⟩⟩
    · refine (h.records k' hk').imp_right ?_
      rintro ⟨⟨a, ha, hgives'⟩, hreason⟩
      refine ⟨⟨a, List.mem_append_left _ ha, hgives'⟩, .inr ?_⟩
      rcases hreason with hbase | ⟨a', ha', hbase⟩
      · exact ⟨b, hlast, hbase⟩
      · exact ⟨a', List.mem_append_left _ ha', hbase⟩

end Joins

/-- Enums, aliases and functions stay as they are. -/
structure Untouched (p q : Progress) : Prop where
  enums : q.registry.enums = p.registry.enums
  aliases : q.registry.aliases = p.registry.aliases
  functions : q.registry.functions = p.registry.functions

namespace Untouched
variable {p q r : Progress}

theorem refl (p : Progress) : Untouched p p := ⟨rfl, rfl, rfl⟩

theorem trans (hpq : Untouched p q) (hqr : Untouched q r) : Untouched p r :=
  ⟨hqr.enums.trans hpq.enums, hqr.aliases.trans hpq.aliases, hqr.functions.trans hpq.functions⟩

theorem of_resolves {u : CompilationUnit} (h : Resolves u p q) : Untouched p q := by
  obtain ⟨_, _, _, rfl⟩ := h.frame
  exact ⟨rfl, rfl, rfl⟩

theorem of_reported (h : Reported p q) : Untouched p q := by
  obtain ⟨es, rfl⟩ := h
  exact ⟨rfl, rfl, rfl⟩

end Untouched

/-- Besides types, classes came in with their bases, and nothing else. -/
def Collects (c : Context) (asked : String → Metadata → Prop) (p q : Progress) : Prop :=
  Untouched p q ∧ ∃ bodies, Joins c asked bodies p q

namespace Collects
variable {c : Context} {asked asked' : String → Metadata → Prop} {p q r : Progress}

theorem refl (p : Progress) : Collects c asked p p := ⟨.refl p, [], .refl p⟩

theorem trans (hpq : Collects c asked p q) (hqr : Collects c asked q r) :
    Collects c asked p r := by
  obtain ⟨hpq', bodies, hbodies⟩ := hpq
  obtain ⟨hqr', bodies', hbodies'⟩ := hqr
  exact ⟨hpq'.trans hqr', bodies ++ bodies', hbodies.trans hbodies'⟩

theorem mono (h : Collects c asked p q) (hasked : ∀ n m, asked n m → asked' n m) :
    Collects c asked' p q := by
  obtain ⟨h, bodies, hbodies⟩ := h
  exact ⟨h, bodies, hbodies.mono hasked⟩

theorem of_plain (h : Resolves c.unit p q) (hbrings : Brings (StemsPlainly c.unit) p q) :
    Collects c asked p q :=
  ⟨.of_resolves h, [], .of_plain h hbrings⟩

theorem of_reported (h : Reported p q) : Collects c asked p q :=
  ⟨.of_reported h, [], .of_reported h⟩

/-- What a class gives to its bases is no part of any record. -/
theorem given (h : Collects c asked p q) (given : Table (String × String) (List CppType)) :
    Collects c asked p { q with baseArguments := given } := by
  obtain ⟨⟨henums, haliases, hfunctions⟩, bodies, hbodies⟩ := h
  exact ⟨⟨henums, haliases, hfunctions⟩, bodies, hbodies.of_eq rfl rfl rfl⟩

end Collects

/-- The class that is asked for by a target, and its metadata where the target tells them. -/
def Target.Asks (c : Context) : Target → String → Metadata → Prop
  | .declared d m => fun n m' => n = declaredName c.unit d ∧ m' = m
  | .typed t => fun n _ => n = recordedName c.unit t

/-- A declaration comes with its own metadata. -/
def Target.Described (c : Context) : Target → Prop
  | .declared d m => m = c.metadata (c.unit.cursor d)
  | .typed _ => True

/-- Whatever is recorded for a target, classes come in with their bases. -/
def CollectsEach (c : Context) (reflect : Target → Walk ClassRecord) : Prop :=
  ∀ t p, t.IsClass c.unit → t.Described c → OriginsNamed c.unit p →
    Yields (reflect t) p fun _ q => Collects c (t.Asks c) p q

section specs
variable {c : Context} {reflect : Target → Walk ClassRecord} {p : Progress}

@[simp] theorem settled_metadata (flag : Bool) (r : ClassRecord) :
    (settled flag r).metadata = r.metadata := by
  cases flag <;> rfl

@[simp] theorem settled_bases (flag : Bool) (r : ClassRecord) :
    (settled flag r).bases = r.bases := by
  cases flag <;> rfl

theorem baseOf_collects (hreflect : CollectsEach c reflect) (d : Cursor) (r : ClassRecord)
    (hp : OriginsNamed c.unit p) :
    Yields (baseOf c reflect d r) p fun _ q =>
      ∃ b, baseName? c.unit d = some b ∧ Collects c (fun n _ => n = b) p q := by
  unfold baseOf
  split
  · next t ht =>
    dsimp only
    split
    · next e he =>
      have htyped : (c.unit.cursor e).kind = .classDecl ∨ (c.unit.cursor e).kind = .structDecl →
          Yields (reflect (.typed (c.unit.type t).canonical)) p fun _ q =>
            ∃ b, baseName? c.unit d = some b ∧ Collects c (fun n _ => n = b) p q := by
        intro hkind
        have hclass : ClassType c.unit (c.unit.type t).canonical := by
          refine ⟨⟨t, rfl⟩, .inr ⟨e, he, ?_⟩⟩
          rcases hkind with hkind | hkind <;> simp [hkind, CursorKind.isClass]
        refine (hreflect (.typed _) p hclass trivial hp).mono fun _ q hq => ⟨_, ?_, hq⟩
        rcases hkind with hkind | hkind <;>
          simp [baseName?, ht, CompilationUnit.canonical, he, hkind]
      split
      · next htemplate =>
        have hclass : (Target.declared e (c.metadata (c.unit.cursor e))).IsClass c.unit := by
          simp [Target.IsClass, htemplate, CursorKind.isClass]
        have hname : baseName? c.unit d = some (declaredName c.unit e) := by
          simp [baseName?, ht, CompilationUnit.canonical, he, htemplate]
        refine yields_bind (hreflect _ p hclass rfl hp) ?_
        intro known q hq
        refine yields_bind (yields_mapM
          (S := fun p q => Resolves c.unit p q ∧ Brings (StemsPlainly c.unit) p q)
          (R := fun _ _ _ => True) (fun p => ⟨.refl p, .refl p⟩)
          (fun h h' => ⟨h.1.trans h'.1, h.2.trans h'.2⟩) (fun _ h => h) ?_) ?_
        · intro i _ q' _
          refine ((resolveType_spec i).and (resolveType_brings i)).mono ?_
          rintro t q'' ⟨⟨hresolves, -⟩, hbrings⟩
          exact ⟨⟨hresolves.resolves, hbrings⟩, trivial⟩
        · rintro as q' ⟨⟨hresolves, hbrings⟩, -⟩
          have hall : Collects c (fun n _ => n = declaredName c.unit e) p q' :=
            (hq.mono fun _ _ h => h.1).trans (.of_plain hresolves hbrings)
          split
          · exact yields_pure ⟨_, hname, hall⟩
          · refine yields_bind (R := fun _ q'' => q'' = { q' with
              baseArguments := q'.baseArguments.insert (r.qualifiedName, known.qualifiedName) as })
              (yields_modify rfl) ?_
            rintro - q'' rfl
            exact yields_pure ⟨_, hname, hall.given _⟩
      · next hclass => exact htyped (.inl hclass)
      · next hstruct => exact htyped (.inr hstruct)
      · exact yields_throw
    · exact yields_throw
  · exact yields_throw

/-- A member leads to classes only when it is a base specifier. -/
theorem addMember_collects (hreflect : CollectsEach c reflect) (flag : Bool) (r : ClassRecord)
    {d x : CursorId} (hx : x ∈ (c.unit.cursor d).children) (hp : OriginsNamed c.unit p) :
    Yields (addMember c reflect flag r x) p fun _ q =>
      Collects c (fun n _ => n ∈ baseNames c d) p q := by
  unfold addMember
  dsimp only
  split
  · exact yields_pure (.refl p)
  · split
    · next hkind =>
      refine yields_bind (baseOf_collects hreflect _ r hp) ?_
      rintro b q ⟨n, hn, hq⟩
      refine yields_pure (hq.mono ?_)
      rintro _ - rfl
      exact List.mem_filterMap.2 ⟨x, List.mem_filter.2 ⟨hx, by simp [isSpecifier, hkind]⟩, hn⟩
    · split
      · exact yields_pure (.refl p)
      · next m hm =>
        split
        · split
          · exact yields_pure (.refl p)
          · refine yields_bind ((fieldOf_spec hm).and (fieldOf_brings _ m)) ?_
            rintro f q ⟨⟨hq, -⟩, hbrings⟩
            exact yields_pure (.of_plain hq hbrings)
        · refine yields_bind ((methodOf_spec hm).and (methodOf_brings _ m)) ?_
          rintro f q ⟨⟨hq, -⟩, hbrings⟩
          refine yields_bind_ite (R := fun _ q' => Reported q q') ?_ ?_
          · split
            · exact specializeMethod_reports _ f
            · exact yields_pure (.refl q)
          · rintro f' q' hq'
            exact yields_pure ((Collects.of_plain hq hbrings).trans (.of_reported hq'))
        · exact yields_throw

theorem Collects.origins {asked : String → Metadata → Prop} {q : Progress}
    (h : Collects c asked p q) (hp : OriginsNamed c.unit p) : OriginsNamed c.unit q := by
  obtain ⟨-, bodies, hbodies⟩ := h
  exact hbodies.origins hp

theorem members_collects (hreflect : CollectsEach c reflect) (flag : Bool) (r : ClassRecord)
    (d : CursorId) (hp : OriginsNamed c.unit p) :
    Yields ((c.unit.cursor d).children.foldlM (addMember c reflect flag) r) p fun _ q =>
      Collects c (fun n _ => n ∈ baseNames c d) p q := by
  refine yields_foldlM (I := fun _ _ q => Collects c (fun n _ => n ∈ baseNames c d) p q) ?_
    (.refl p)
  intro _ x hx r q hq
  exact (addMember_collects hreflect flag r hx (hq.origins hp)).mono fun _ _ h => hq.trans h

theorem finish_withClass {r : ClassRecord} (ht : r.type ∈ p.registry.types.items) :
    Yields (finish r) p fun _ q => ∃ promoted p', Reported p p' ∧
      q = p'.withClass { r with fields := r.fields ++ promoted } := by
  refine yields_bind (promotedFields_reports r p) ?_
  intro promoted p' hreported
  refine yields_bind (R := fun _ q => q = p'.withClass { r with fields := r.fields ++ promoted })
    ?_ fun _ q hq => yields_pure ⟨promoted, p', hreported, hq⟩
  apply yields_update
  intro registry hadd
  obtain ⟨-, -, s, hs, rfl⟩ := Registry.addClass_ok hadd
  obtain rfl := eq_of_ensureType (hreported.registry_eq ▸ ht) hs
  rfl

/-- A new class comes in after everything that its members lead to. -/
private theorem enterWith_collects (hrecords : Records c reflect) (hpreserves : Preserves reflect)
    (hreflect : CollectsEach c reflect) {q : Progress} (hp : OriginsNamed c.unit p)
    (hq : Resolves c.unit p q) {b : Body} {type : CppType} {flag : Bool}
    (hbrings : Brings (fun t => Stems c.unit t ∧ (t.isGeneric → t.qualifiedName = b.name)) p q)
    (hsource : ClassSource c.unit q type flag b.source) (hname : type.qualifiedName = b.name)
    (hnew : b.name ∉ q.registry.classes.keys) (hdeclared : DeclaredAs c.unit b.name b.declaration) :
    Yields (enterWith c reflect flag b.source (freshRecord (c.unit.cursor b.declaration)
      (c.metadata (c.unit.cursor b.declaration)) type)) q fun _ q' =>
      Collects c (fun n m => n = b.name ∧ m = c.metadata (c.unit.cursor b.declaration)) p q' := by
  have hq' := hq.named hp
  have hfresh : type.qualifiedName ∉ q.registry.classes.keys := fun h => hnew (hname ▸ h)
  refine yields_bind (((members_spec hrecords hsource hq' (members_freshRecord flag _ _ type)).and
    (members_keep hpreserves flag (freshRecord _ _ type) rfl hfresh _)).and
      (members_collects hreflect flag _ b.source hq')) ?_
  rintro r q₁ ⟨⟨⟨hrecording, htype, hmembers⟩, -, hheaded⟩, huntouched, bodies, hbodies⟩
  have hsame : (settled flag r).type = type := (settled_type flag r).trans htype
  refine (finish_withClass (hsame ▸ hrecording.grows.type_mem hsource.type_mem)).mono ?_
  rintro - q₂ ⟨promoted, p', hreported, rfl⟩
  have hgives : b.Gives c
      { settled flag r with fields := (settled flag r).fields ++ promoted } := by
    refine ⟨?_, ?_, ?_⟩
    · rw [ClassRecord.qualifiedName, hsame, hname]
    · rw [settled_metadata, hheaded.metadata]
      rfl
    · rw [settled_bases, hmembers.bases_eq]
  have hclosed : ∀ n ∈ baseNames c b.source, n ∈ q₁.registry.classes.keys := by
    intro n hn
    obtain ⟨x, hx, hxn⟩ := List.mem_filterMap.1 hn
    obtain ⟨-, -, m, hm, hxm, -⟩ := exists_of_forall₂ hmembers.bases.flip hx
    obtain rfl := Option.some.inj (hxn.symm.trans hxm)
    exact hm
  have hcircle : b.name ∈ q₁.registry.classes.keys → Circular c.unit b.name := by
    intro hmem
    rcases hrecording.names _ hmem with hmem | hmem
    · exact absurd hmem hnew
    · have hinherits : TransGen (Inherits c.unit) type.qualifiedName b.name := hmem
      rwa [hname] at hinherits
  have hentered := (hbodies.trans (.of_reported hreported)).enter hgives hnew
    (by rwa [hreported.registry_eq]) (by rwa [hreported.registry_eq]) hdeclared
    (hname ▸ hsource.walked hq')
  refine ⟨(Untouched.of_resolves hq).trans (huntouched.trans ((Untouched.of_reported hreported).trans
    ⟨rfl, rfl, rfl⟩)), _, (hentered.after_resolves hq ?_).mono ?_⟩
  · refine hbrings.mono fun t ht => ⟨ht.1, fun hg => ?_⟩
    rw [ht.2 hg, hentered.keys]
    exact .inr ⟨b, by simp, rfl⟩
  · rintro n m ⟨hn, hm⟩
    exact ⟨hn, hm.trans hgives.metadata⟩

theorem reflectWith_collects (hrecords : Records c reflect) (hpreserves : Preserves reflect)
    (hreflect : CollectsEach c reflect) : CollectsEach c (reflectWith c reflect) := by
  rintro (⟨d, m⟩ | t) p ht hdescribed hp
  · obtain rfl : m = c.metadata (c.unit.cursor d) := hdescribed
    refine yields_reflectDeclared ?_ ?_
    · intro type q k hrun hk
      obtain ⟨hq, htype⟩ := resolveCursor_spec d _ _ hrun
      refine ⟨.of_resolves hq, [], (Joins.refl q).after_resolves hq ?_⟩
      refine (resolveCursor_brings d _ _ hrun).mono fun t ht => ⟨ht.1, fun hg => ?_⟩
      rw [ht.2 hg, ← Catalog.key_of_find? htype]
      exact Catalog.mem_keys_of_find? hk
    · intro type q hrun hnew
      obtain ⟨hq, htype⟩ := resolveCursor_spec d _ _ hrun
      have hname := Catalog.key_of_find? htype
      exact enterWith_collects (b := ⟨declaredName c.unit d, d, d⟩) hrecords hpreserves hreflect hp
        hq (resolveCursor_brings d _ _ hrun) (.declared ht htype) hname (hname ▸ hnew) (.declared ht)
  · have hplain : ∀ {type q}, (resolveType c.unit t).run p = .ok type q →
        Brings (fun s => Stems c.unit s ∧ (s.isGeneric → s.qualifiedName = recordedName c.unit t))
          p q := fun hrun => (resolveType_brings t _ _ hrun).mono
      fun s hs => ⟨hs.1, fun hg => absurd hg (by simp [hs.2])⟩
    refine yields_reflectTyped ?_ ?_ ?_
    · intro type q k hrun hk
      exact .of_plain (resolveType_spec t _ _ hrun).1.resolves (resolveType_brings t _ _ hrun)
    · intro type q e hrun hnew he htypePlain
      obtain ⟨⟨hq, -⟩, htype⟩ := resolveType_spec t _ _ hrun
      have hname := Catalog.key_of_find? htype
      refine (enterWith_collects (b := ⟨recordedName c.unit t, e, e⟩) hrecords hpreserves hreflect
        hp hq (hplain hrun) (.typed ht htype htypePlain he) hname (hname ▸ hnew) (.typed he)).mono ?_
      exact fun _ _ h => h.mono fun _ _ h => h.1
    · intro type q e d generic hrun hnew he hspecial hgeneric hd
      obtain ⟨⟨hq, -⟩, htype⟩ := resolveType_spec t _ _ hrun
      have hname := Catalog.key_of_find? htype
      refine (enterWith_collects (b := ⟨recordedName c.unit t, e, d⟩) hrecords hpreserves hreflect
        hp hq (hplain hrun) (.specialized htype hspecial hgeneric hd) hname (hname ▸ hnew)
        (.typed he)).mono ?_
      exact fun _ _ h => h.mono fun _ _ h => h.1

theorem reflectWithin_collects (n : Nat) : CollectsEach c (reflectWithin c n) := by
  induction n with
  | zero => exact fun _ _ _ _ _ => yields_throw
  | succ n ih => exact reflectWith_collects (reflectWithin_records n) (reflectWithin_preserves n) ih

theorem reflectClass_collects : CollectsEach c (reflectClass c) :=
  reflectWithin_collects _

end specs
end Introspect.Reflection
