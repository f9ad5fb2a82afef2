import Introspect.Proofs.Reflection.Closure

/-! Types that are resolved one call after another, whether a call fails or not: the table of types
only grows, arguments come first, and what was resolved is found again. -/
namespace Introspect.Reflection
open Relation

/-! ## Where a walk ends -/

/-- Where a walk ends, whether it fails or not. -/
def after {α : Type} (m : Walk α) (p : Progress) : Progress :=
  match m.run p with
  | .ok _ q => q
  | .error _ q => q

section ends
variable {α β : Type} {p q : Progress} {m : Walk α} {a : α}

theorem after_of_ok (h : m.run p = .ok a q) : after m p = q := by
  rw [after, h]

/-- A chain ends where a part of it fails, or with its last part. -/
theorem leads_bind {S : Progress → Progress → Prop} {f : α → Walk β}
    (htrans : ∀ {p q r}, S p q → S q r → S p r) (hm : S p (after m p))
    (hf : ∀ a q, m.run p = .ok a q → S q (after (f a) q)) : S p (after (m >>= f) p) := by
  unfold after at hm ⊢
  rw [EStateM.run_bind]
  cases hrun : m.run p with
  | ok a q =>
    rw [hrun] at hm
    exact htrans hm (hf a q hrun)
  | error e q =>
    rw [hrun] at hm
    exact hm

theorem leads_mapM {S : Progress → Progress → Prop} (hrefl : ∀ p, S p p)
    (htrans : ∀ {p q r}, S p q → S q r → S p r) {f : α → Walk β} {l : List α}
    (hf : ∀ a ∈ l, ∀ q, S q (after (f a) q)) : S p (after (l.mapM f) p) := by
  induction l generalizing p with
  | nil => exact hrefl p
  | cons a l ih =>
    rw [List.mapM_cons]
    refine leads_bind htrans (hf a (List.mem_cons_self ..) p) fun b q _ => ?_
    exact leads_bind htrans (ih fun a ha => hf a (List.mem_cons_of_mem _ ha)) fun _ q _ => hrefl q

end ends

/-! ## One registration after another -/

section registrations
variable {u : CompilationUnit} {p q : Progress} {t : CppType}

/-- One type is registered, with the declaration that is remembered for it. Its name is free where
names are apart. -/
inductive Registers (u : CompilationUnit) (p : Progress) : Progress → Prop
  | type {t origin holders} (source : TypeSource u p t origin)
      (fresh : NamesApart u → t.qualifiedName ∉ p.registry.types.keys) :
      Registers u p (p.withType t holders origin)

/-- Any number of registrations, one after another. -/
abbrev Grown (u : CompilationUnit) : Progress → Progress → Prop := ReflTransGen (Registers u)

private theorem after_registry {β : Type} {f : Registry → Walk β} :
    after (Walk.registry >>= f) p = after (f p.registry) p := rfl

/-- A type whose number another one has does not come in. -/
private theorem after_addType {n : String} (hn : t.qualifiedName = n) (origin : Option CursorId) :
    after (do
      Walk.update fun r => r.addType t
      recordOrigin n origin
      return t) p = p ∨ ∃ holders, after (do
      Walk.update fun r => r.addType t
      recordOrigin n origin
      return t) p = p.withType t holders origin := by
  cases hadd : p.registry.addType t with
  | error e =>
    have hrun : (Walk.update fun r => r.addType t).run p = .error e p := by
      simp only [Walk.update, EStateM.run_bind, EStateM.run_get, hadd]
      rfl
    left
    rw [after, EStateM.run_bind, hrun]
  | ok r =>
    obtain ⟨holders, -, rfl⟩ := Registry.addType_ok hadd
    have hrun : (Walk.update fun r => r.addType t).run p = .ok () { p with
        registry := { p.registry with
          types := p.registry.types.insert t, typeHolders := holders } } := by
      simp only [Walk.update, EStateM.run_bind, EStateM.run_get, hadd]
      rfl
    right
    refine ⟨holders, ?_⟩
    rw [after, EStateM.run_bind, hrun, ← hn]
    cases origin <;> rfl

theorem grown_resolveWithin (n : Nat) (i : TypeId) : Grown u p (after (resolveWithin u n i) p) := by
  induction n generalizing p i with
  | zero => exact .refl
  | succ n ih =>
    rw [resolveWithin, resolveWith, after_registry, text_nameOf]
    split
    · exact .refl
    · next hnone =>
      refine leads_bind .trans (leads_mapM (fun _ => .refl) .trans fun j _ q => ih j) ?_
      intro arguments q hrun
      obtain ⟨hq, hargs⟩ := arguments_spec (fun j _ => resolveWithin_spec n j) i _ _ hrun
      have hname := qualifiedName_build (u := u) i arguments
      have hnew := Catalog.find?_eq_none_iff.1 hnone
      rcases after_addType hname (u.type (unwrap u i)).declaration with hsame | ⟨holders, hentered⟩
      · rw [hsame]
      · rw [hentered]
        exact .single (.type (.type hargs) fun hu => hname ▸ hq.free hnew hu)

theorem grown_resolveType (i : TypeId) : Grown u p (after (resolveType u i) p) :=
  grown_resolveWithin _ i

theorem grown_resolveTyped (x : CursorId) : Grown u p (after (resolveTyped u (u.cursor x)) p) := by
  unfold resolveTyped
  split
  · exact grown_resolveType _
  · exact .refl

theorem grown_resolveCursor (d : CursorId) : Grown u p (after (resolveCursor u d) p) := by
  unfold resolveCursor
  dsimp only
  split
  · exact grown_resolveTyped d
  · next hcond =>
    have hd : IsTemplate u d := by simpa [IsTemplate] using hcond
    have hid : (templateId u (u.cursor d)).text = declaredName u d := hd.declaredName_eq.symm
    rw [templateId] at hid
    rw [after_registry, hid]
    split
    · exact .refl
    · next hnone =>
      refine leads_bind .trans
        (leads_mapM (fun _ => .refl) .trans fun x _ q => grown_resolveTyped x) ?_
      intro arguments q hrun
      obtain ⟨hq, hargs⟩ := parameters_spec d _ _ hrun
      have hname := hd.qualifiedName_build arguments
      have hnew := Catalog.find?_eq_none_iff.1 hnone
      rcases after_addType hname (some d) with hsame | ⟨holders, hentered⟩
      · exact hsame ▸ .refl
      · exact hentered ▸ .single (.type (.template hd hargs) fun hu =>
          hname ▸ hq.free_template hd hnew hu)

end registrations

/-! ## Requests -/

/-- What a resolver is asked for: a type, the type of a declaration, or a type as it is used. -/
inductive Request where
  | type (i : TypeId)
  | cursor (d : CursorId)
  | use (i : TypeId)

namespace Request
variable (u : CompilationUnit)

/-- The name that is looked up. -/
def name : Request → String
  | .type i | .use i => recordedName u i
  | .cursor d => declaredName u d

def resolve : Request → Walk CppType
  | .type i => resolveType u i
  | .cursor d => resolveCursor u d
  | .use i => return (← resolveUse u i).type

end Request

/-- What a resolver comes to with one request after another. What a failing request did stays. -/
def serve (u : CompilationUnit) (requests : List Request) (p : Progress) : Progress :=
  requests.foldl (fun p r => after (r.resolve u) p) p

/-- What a resolver with an empty registry comes to. -/
def served (u : CompilationUnit) (hash : NameHash) (requests : List Request) : Progress :=
  serve u requests (.start (.empty hash))

section requests
variable {u : CompilationUnit} {p q : Progress} {t : CppType} {r : Request}

theorem Request.grown (r : Request) : Grown u p (after (r.resolve u) p) := by
  cases r with
  | type i => exact grown_resolveType i
  | cursor d => exact grown_resolveCursor d
  | use i =>
    refine leads_bind .trans ?_ fun _ _ _ => .refl
    exact leads_bind .trans (grown_resolveType i) fun _ _ _ => .refl

theorem grown_serve (requests : List Request) : Grown u p (serve u requests p) := by
  induction requests generalizing p with
  | nil => exact .refl
  | cons r requests ih => exact r.grown.trans ih

theorem served_append (u : CompilationUnit) (hash : NameHash) (requests more : List Request) :
    served u hash (requests ++ more) = serve u more (served u hash requests) :=
  List.foldl_append

theorem Request.registered : Yields (r.resolve u) p fun t q =>
    q.registry.types.find? (r.name u) = some t := by
  cases r with
  | type i => exact (resolveType_spec i).mono fun _ _ h => h.2
  | cursor d => exact (resolveCursor_spec d).mono fun _ _ h => h.2
  | use i =>
    refine yields_bind (resolveUse_spec i) ?_
    rintro v q ⟨-, t, ht, rfl⟩
    exact yields_pure ht

theorem resolveType_known {i : TypeId} (h : Resolved u p i t) :
    (resolveType u i).run p = .ok t p := by
  have hlook : p.registry.types.find? (nameOf u (u.type (unwrap u i))).text = some t := by
    rwa [text_nameOf]
  unfold resolveType
  rw [resolveWithin, resolveWith]
  simp only [Walk.registry, EStateM.run_bind, EStateM.run_get, EStateM.run_pure, hlook]

theorem resolveCursor_of_type {d : CursorId} {i : TypeId} (h : (u.cursor d).type = some i) :
    resolveCursor u d = resolveType u i := by
  simp [resolveCursor, resolveTyped, h]

theorem IsTemplate.resolveCursor_known {d : CursorId} (hd : IsTemplate u d)
    (h : p.registry.types.find? (declaredName u d) = some t) :
    (resolveCursor u d).run p = .ok t p := by
  rw [hd.declaredName_eq, templateId] at h
  simp [resolveCursor, hd.1, hd.2, Walk.registry, h]

/-- Only the type of a declaration without any cannot be told, unless it is a class template. -/
theorem isTemplate_of_run_resolveCursor {d : CursorId} (hrun : (resolveCursor u d).run p = .ok t q)
    (hnone : (u.cursor d).type = none) : IsTemplate u d := by
  refine ⟨hnone, ?_⟩
  by_contra hkind
  simp only [resolveCursor, hnone, hkind, resolveTyped, Option.isSome_none, bne_iff_ne, ne_eq,
    not_false_eq_true, Bool.false_or, if_true] at hrun
  cases hrun

/-- What is registered under the name of a request that was answered once is the answer. -/
theorem Request.known {s : CppType} (hrun : (r.resolve u).run p = .ok s q) {p' : Progress}
    (h : p'.registry.types.find? (r.name u) = some t) : (r.resolve u).run p' = .ok t p' := by
  cases r with
  | type i => exact resolveType_known h
  | use i =>
    have hknown : (resolveType u i).run p' = .ok t p' := resolveType_known h
    simp [resolve, resolveUse, hknown]
  | cursor d =>
    cases htype : (u.cursor d).type with
    | some i =>
      rw [resolve, resolveCursor_of_type htype]
      rw [name, declaredName_of_type htype] at h
      exact resolveType_known h
    | none => exact (isTemplate_of_run_resolveCursor hrun htype).resolveCursor_known h

end requests

/-! ## Where names are apart -/

/-- A type comes in last, under a free name and after its template arguments. -/
structure Appends (p q : Progress) (t : CppType) : Prop where
  free : t.qualifiedName ∉ p.registry.types.keys
  arguments : ∀ a ∈ t.arguments, p.registry.types.find? a.qualifiedName = some a
  items : q.registry.types.items = p.registry.types.items ++ [t]

/-- Every type stands behind its template arguments. -/
def ArgumentsFirst (types : List CppType) : Prop :=
  ∀ before t behind, types = before ++ t :: behind → ∀ a ∈ t.arguments, a ∈ before

theorem ArgumentsFirst.concat {types : List CppType} {t : CppType} (h : ArgumentsFirst types)
    (ht : ∀ a ∈ t.arguments, a ∈ types) : ArgumentsFirst (types ++ [t]) := by
  intro before s behind heq a ha
  rcases behind.eq_nil_or_concat with rfl | ⟨init, x, rfl⟩
  · obtain ⟨rfl, hs⟩ := List.append_inj' heq rfl
    obtain rfl := List.singleton_inj.1 hs
    exact ht a ha
  · rw [List.concat_eq_append, ← List.cons_append, ← List.append_assoc] at heq
    exact h before s init (List.append_inj' heq rfl).1 a ha

section apart
variable {u : CompilationUnit} {p q : Progress}

theorem Registers.appends (hu : NamesApart u) (h : Registers u p q) : ∃ t, Appends p q t := by
  obtain ⟨hsource, hfresh⟩ := h
  exact ⟨_, hfresh hu, fun a ha => Catalog.find?_of_mem (hsource.arguments_mem a ha),
    Catalog.items_insert (hfresh hu)⟩

theorem Grown.appends (hu : NamesApart u) (h : Grown u p q) :
    ReflTransGen (fun p q => ∃ t, Appends p q t) p q :=
  ReflTransGen.mono (fun _ _ h => h.appends hu) _ _ h

/-- Types that are there stay where they are. -/
theorem items_initial (h : ReflTransGen (fun p q => ∃ t, Appends p q t) p q) :
    p.registry.types.items <+: q.registry.types.items := by
  induction h with
  | refl => exact List.prefix_rfl
  | tail _ hstep ih =>
    obtain ⟨t, hstep⟩ := hstep
    exact ih.trans (hstep.items ▸ List.prefix_append _ _)

theorem find?_of_initial {n : String} {t : CppType}
    (h : p.registry.types.items <+: q.registry.types.items)
    (ht : p.registry.types.find? n = some t) : q.registry.types.find? n = some t := by
  obtain ⟨hmem, hname⟩ := Catalog.find?_eq_some_iff.1 ht
  exact Catalog.find?_eq_some_iff.2 ⟨h.subset hmem, hname⟩

theorem argumentsFirst (h : ReflTransGen (fun p q => ∃ t, Appends p q t) p q)
    (hp : ArgumentsFirst p.registry.types.items) : ArgumentsFirst q.registry.types.items := by
  induction h with
  | refl => exact hp
  | tail _ hstep ih =>
    obtain ⟨t, hstep⟩ := hstep
    rw [hstep.items]
    exact ih.concat fun a ha => Catalog.mem_of_find? (hstep.arguments a ha)

end apart

/-- Where names are apart, the table of types only grows, whether requests fail or not: a name
keeps its type, and a type comes in under a free name after its template arguments. A resolved type
is registered under its own spelling, and what was resolved is found again without a change. -/
theorem types_served {u : CompilationUnit} (hu : NamesApart u) (hash : NameHash)
    (requests more : List Request) :
    let p := served u hash requests
    let q := served u hash (requests ++ more)
    (∀ n t, p.registry.types.find? n = some t → q.registry.types.find? n = some t) ∧
      ReflTransGen (fun p q => ∃ t, Appends p q t) p q ∧
      ArgumentsFirst p.registry.types.items ∧
      (∀ i t p', (resolveType u i).run p = .ok t p' →
        p'.registry.types.find? t.qualifiedName = some t ∧
          t.qualifiedName = (u.type (unwrap u i)).spelling) ∧
      (∀ (r : Request) t p', (r.resolve u).run p = .ok t p' →
        (r.resolve u).run (serve u more p') = .ok t (serve u more p')) ∧
      ∀ i t, p.registry.types.find? (recordedName u i) = some t →
        (resolveType u i).run q = .ok t q := by
  intro p q
  have hgrown : Grown u p q := by
    rw [show q = serve u more p from served_append ..]
    exact grown_serve more
  have hkeep := fun n t => find?_of_initial (n := n) (t := t) (items_initial (hgrown.appends hu))
  refine ⟨hkeep, hgrown.appends hu, ?_, ?_, ?_, fun i t h => resolveType_known (hkeep _ t h)⟩
  · refine argumentsFirst ((grown_serve requests).appends hu) ?_
    rintro before t behind heq
    simp [Progress.start, Registry.empty] at heq
  · intro i t p' hrun
    have hfound := (resolveType_spec i t p' hrun).2
    exact ⟨Catalog.find?_of_mem (Catalog.mem_of_find? hfound), Catalog.key_of_find? hfound⟩
  · intro r t p' hrun
    exact r.known hrun (find?_of_initial (items_initial ((grown_serve more).appends hu))
      (r.registered t p' hrun))

/-- The answer to a request after others satisfies a test. -/
def answers (u : CompilationUnit) (requests : List Request) (r : Request)
    (test : CppType → Bool) : Bool :=
  match (r.resolve u).run (served u .crc32 requests) with
  | .ok t _ => test t
  | .error .. => false

theorem exists_of_answers {u : CompilationUnit} {requests : List Request} {r : Request}
    {test : CppType → Bool} (h : answers u requests r test) :
    ∃ t q, (r.resolve u).run (served u .crc32 requests) = .ok t q ∧ test t := by
  unfold answers at h
  split at h
  · next t q hrun => exact ⟨t, q, hrun, h⟩
  · cases h

/-- The template and its specialisation each come in behind what they are made of. -/
theorem types_served_crates : NamesApart crates ∧
    ArgumentsFirst (served crates .crc32 [.use 2, .cursor 3, .cursor 1]).registry.types.items ∧
      (served crates .crc32 [.use 2, .cursor 3, .cursor 1]).registry.types.keys =
        ["int", "Box<int>", "T", "Box"] := by
  have hu : NamesApart crates := namesApart_of_flat (by decide +kernel) (by decide +kernel)
  exact ⟨hu, (types_served hu .crc32 [.use 2, .cursor 3, .cursor 1] []).2.2.1, by decide +kernel⟩

/-! ## What a resolved type tells -/

/-- The record is made of the type: its kind, and its template arguments, if there are any. -/
structure Transcribes (u : CompilationUnit) (p : Progress) (i : TypeId) (t : CppType) : Prop where
  kind : t.kind = classify (underlying u (u.type (unwrap u i)))
  arguments : List.Forall₂ (Resolved u p) (underlying u (u.type (unwrap u i))).arguments t.arguments
  template : t.template? =
    if (underlying u (u.type (unwrap u i))).arguments = [] then none else some .specialized

section descriptions
variable {u : CompilationUnit} {p q : Progress} {i : TypeId} {t : CppType}

theorem template?_build (id : QualifiedName) (k : TypeKind) (kind : TemplateKind)
    (as : List CppType) :
    (CppType.build id k kind as).template? = if as = [] then none else some kind := by
  cases as <;> rfl

theorem transcribes_build {as : List CppType}
    (has : List.Forall₂ (Resolved u p) (underlying u (u.type (unwrap u i))).arguments as) :
    Transcribes u p i (.build (nameOf u (u.type (unwrap u i)))
      (classify (underlying u (u.type (unwrap u i)))) .specialized as) where
  kind := CppType.kind_build ..
  arguments := by rwa [CppType.arguments_build]
  template := by
    have hnil : as = [] ↔ (underlying u (u.type (unwrap u i))).arguments = [] := by
      rw [← List.length_eq_zero_iff, ← has.length_eq, List.length_eq_zero_iff]
    simp only [template?_build, hnil]

theorem Transcribes.congr {j : TypeId} (h : Transcribes u p j t)
    (hj : underlying u (u.type (unwrap u j)) = underlying u (u.type (unwrap u i))) :
    Transcribes u p i t :=
  ⟨hj ▸ h.kind, hj ▸ h.arguments, hj ▸ h.template⟩

/-- What succeeds item by item with one function does so with another that does no less. -/
theorem run_mapM_of_le {α β : Type} {f g : α → Walk β} {l : List α}
    (h : ∀ a ∈ l, ∀ p, Yields (f a) p fun b q => (g a).run p = .ok b q) :
    Yields (l.mapM f) p fun bs q => (l.mapM g).run p = .ok bs q := by
  induction l generalizing p with
  | nil =>
    intro bs q hrun
    exact hrun
  | cons a l ih =>
    rw [List.mapM_cons, List.mapM_cons]
    refine yields_bind (h a (List.mem_cons_self ..) p) ?_
    intro b q hb
    refine yields_bind (ih fun a ha => h a (List.mem_cons_of_mem _ ha)) ?_
    intro bs q' hbs
    refine yields_pure ?_
    simp only [EStateM.run_bind, hb, hbs, EStateM.run_pure]

theorem run_resolveWith_of_le {f g : TypeId → Walk CppType}
    (h : ∀ j p, Yields (f j) p fun t q => (g j).run p = .ok t q) :
    Yields (resolveWith u f i) p fun t q => (resolveWith u g i).run p = .ok t q := by
  intro t q hrun
  unfold resolveWith at hrun ⊢
  simp only [Walk.registry, EStateM.run_bind, EStateM.run_get, EStateM.run_pure] at hrun ⊢
  split
  · next known hknown => simpa only [hknown] using hrun
  · next hnone =>
    simp only [hnone, EStateM.run_bind] at hrun
    cases hargs : ((underlying u (u.type (unwrap u i))).arguments.mapM f).run p with
    | error e q' =>
      rw [hargs] at hrun
      cases hrun
    | ok as q' =>
      rw [hargs] at hrun
      rw [EStateM.run_bind, run_mapM_of_le (fun j _ p => h j p) as q' hargs]
      exact hrun

/-- A type that is resolved within a depth is resolved so within a greater one. -/
theorem run_resolveWithin_succ (n : Nat) (i : TypeId) :
    Yields (resolveWithin u n i) p fun t q => (resolveWithin u (n + 1) i).run p = .ok t q := by
  induction n generalizing p i with
  | zero => exact yields_throw
  | succ n ih => exact run_resolveWith_of_le fun j p => ih j

/-- A type with a new name is recorded from what it is, after its template arguments. -/
theorem resolveType_new (hnew : recordedName u i ∉ p.registry.types.keys) :
    Yields (resolveType u i) p fun t q => ∃ s holders,
      ((underlying u (u.type (unwrap u i))).arguments.mapM (resolveType u)).run p =
        .ok t.arguments s ∧ Transcribes u s i t ∧
          q = s.withType t holders (u.type (unwrap u i)).declaration ∧
            t.id = nameOf u (u.type (unwrap u i)) := by
  have hlook : p.registry.types.find? (recordedName u i) = none := Catalog.find?_eq_none_iff.2 hnew
  unfold resolveType
  rw [resolveWithin, resolveWith]
  refine yields_bind (R := fun r q => q = p ∧ r = p.registry) (yields_registry ⟨rfl, rfl⟩) ?_
  rintro r q ⟨rfl, rfl⟩
  rw [text_nameOf, hlook]
  refine yields_bind ((arguments_spec (fun j _ => resolveWithin_spec _ j) i).and
    (run_mapM_of_le fun j _ p => run_resolveWithin_succ _ j)) ?_
  rintro as s ⟨⟨-, has⟩, hrun⟩
  refine (addType_spec (qualifiedName_build i as) _).mono ?_
  rintro t q' ⟨rfl, holders, rfl⟩
  exact ⟨s, holders, by rwa [CppType.arguments_build], transcribes_build has, rfl,
    CppType.id_build ..⟩

/-- Every type that a resolver has registered was made of a type or a class template of its name. -/
theorem exists_source {hash : NameHash} (h : Grown u (.start (.empty hash)) p)
    (ht : t ∈ p.registry.types.items) : ∃ s origin, Grown u (.start (.empty hash)) s ∧
      TypeSource u s t origin ∧ Grown u s p := by
  induction h with
  | refl => simp [Progress.start, Registry.empty] at ht
  | @tail p q hp hstep ih =>
    obtain ⟨hsource, hfresh⟩ := hstep
    rcases Catalog.mem_items_insert.1 ht with rfl | ⟨ht, -⟩
    · exact ⟨p, _, hp, hsource, .single (.type hsource hfresh)⟩
    · obtain ⟨s, origin, hs, hmade, hsp⟩ := ih ht
      exact ⟨s, origin, hs, hmade, hsp.tail (.type hsource hfresh)⟩

/-- What is made under the name of a type describes it when no other type and no class template has
that name. -/
theorem TypeSource.describes {origin : Option CursorId} (h : TypeSource u p t origin)
    (hname : t.qualifiedName = recordedName u i)
    (htypes : ∀ j, recordedName u j = recordedName u i →
      underlying u (u.type (unwrap u j)) = underlying u (u.type (unwrap u i)))
    (htemplates : ∀ d, IsTemplate u d → declaredName u d ≠ recordedName u i) :
    Transcribes u p i t := by
  cases h with
  | @type j as has =>
    have hj : recordedName u j = recordedName u i := (qualifiedName_build j as).symm.trans hname
    exact (transcribes_build has).congr (htypes j hj)
  | template hd _ => exact absurd ((hd.qualifiedName_build _).symm.trans hname) (htemplates _ hd)

end descriptions

/-- A resolved type has the name that is asked for. Under a new name it describes the type itself,
with the arguments that are resolved for it. Under a known name it is what is registered, which was
made of a type or a class template of that name when it came in, and so describes the type if no
others have the name. -/
theorem resolveType_served {u : CompilationUnit} {hash : NameHash} {requests : List Request}
    {i : TypeId} {t : CppType} {q : Progress}
    (hrun : (resolveType u i).run (served u hash requests) = .ok t q) :
    let p := served u hash requests
    t.qualifiedName = recordedName u i ∧
      (recordedName u i ∉ p.registry.types.keys → ∃ s,
        ((underlying u (u.type (unwrap u i))).arguments.mapM (resolveType u)).run p =
          .ok t.arguments s ∧ Transcribes u s i t) ∧
      (∀ known, Resolved u p i known → t = known ∧ q = p ∧
        ∃ s origin, Grown u (.start (.empty hash)) s ∧ TypeSource u s t origin ∧ Grown u s p) ∧
      ((∀ j, recordedName u j = recordedName u i →
          underlying u (u.type (unwrap u j)) = underlying u (u.type (unwrap u i))) →
        (∀ d, IsTemplate u d → declaredName u d ≠ recordedName u i) →
          ∃ s, Grown u (.start (.empty hash)) s ∧ Transcribes u s i t) := by
  intro p
  have hgrown : Grown u (.start (.empty hash)) p := grown_serve requests
  have hfound := (resolveType_spec i t q hrun).2
  have hname : t.qualifiedName = recordedName u i := Catalog.key_of_find? hfound
  refine ⟨hname, fun hnew => ?_, fun known hknown => ?_, fun htypes htemplates => ?_⟩
  · obtain ⟨s, -, hargs, hdescribes, -⟩ := resolveType_new hnew t q hrun
    exact ⟨s, hargs, hdescribes⟩
  · obtain ⟨rfl, rfl⟩ := EStateM.Result.ok.inj (hrun.symm.trans (resolveType_known hknown))
    exact ⟨rfl, rfl, exists_source hgrown (Catalog.mem_of_find? hknown)⟩
  · have hafter := grown_resolveType (u := u) (p := p) i
    rw [after_of_ok hrun] at hafter
    obtain ⟨s, origin, hs, hsource, -⟩ :=
      exists_source (hgrown.trans hafter) (Catalog.mem_of_find? hfound)
    exact ⟨s, hs, hsource.describes hname htypes htemplates⟩

/-- The specialisation comes in new, as what it is. -/
theorem resolveType_served_crates : ∃ t q,
    (resolveType crates 2).run (served crates .crc32 [.cursor 1]) = .ok t q ∧
      t.qualifiedName = "Box<int>" ∧ ∃ s, Transcribes crates s 2 t := by
  obtain ⟨t, q, hrun, -⟩ := exists_of_answers
    (show answers crates [.cursor 1] (.type 2) (fun _ => true) by decide +kernel)
  obtain ⟨hname, hnew, -⟩ := resolveType_served (u := crates) (i := 2) hrun
  obtain ⟨s, -, hdescribes⟩ := hnew (by decide +kernel)
  exact ⟨t, q, hrun, hname.trans (by decide +kernel), s, hdescribes⟩

/-- A class `T` and a template parameter `T`. -/
def homonyms : CompilationUnit where
  root := 0
  cursors := #[
    written .unit "a.h" none [1, 2],
    written .classTemplate "Box" none [3],
    written .structDecl "T" (some 1) [],
    written .templateTypeParameter "T" (some 0) []]
  types := #[
    ⟨.unexposed, "T", false, true, 0, none, some 3, []⟩,
    ⟨.record, "T", false, false, 1, none, some 2, []⟩]

/-- Of two types of one name the first one decides what the other one is taken for. -/
theorem exists_kind_ne_homonyms :
    (∃ t q, (resolveType homonyms 0).run (served homonyms .crc32 [.type 1]) = .ok t q ∧
      t.kind ≠ classify (underlying homonyms (homonyms.type (unwrap homonyms 0)))) ∧
    ∃ t q, (resolveType homonyms 1).run (served homonyms .crc32 [.type 0]) = .ok t q ∧
      t.kind ≠ classify (underlying homonyms (homonyms.type (unwrap homonyms 1))) := by
  constructor
  · obtain ⟨t, q, hrun, htest⟩ := exists_of_answers
      (show answers homonyms [.type 1] (.type 0) (fun t => t.kind == .record) by decide +kernel)
    exact ⟨t, q, hrun, by rw [beq_iff_eq.1 htest]; decide +kernel⟩
  · obtain ⟨t, q, hrun, htest⟩ := exists_of_answers
      (show answers homonyms [.type 0] (.type 1) (fun t => t.kind == .template) by decide +kernel)
    exact ⟨t, q, hrun, by rw [beq_iff_eq.1 htest]; decide +kernel⟩

end Introspect.Reflection
