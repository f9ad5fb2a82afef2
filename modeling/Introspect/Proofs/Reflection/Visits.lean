import Introspect.Proofs.Reflection.Halting
import Introspect.Proofs.Reflection.Tally

/-! The classes whose members a walk goes through, in its order. None comes up twice in a walk that
asks for no class that is among its own ancestors. -/
namespace Introspect.Reflection
open Relation

/-! ## The classes that are visited -/

/-- What is visited for the class that a step has recorded, if any. -/
def visitsOf (asked : Walk (Option Target)) (visits : Target → Progress → List String)
    (p : Progress) : List String :=
  match asked.run p with
  | .ok (some t) q => visits t q
  | _ => []

/-- What is visited by one step after another, up to the first one that fails. -/
def visitsAlong {α β : Type} (asked : α → Walk (Option Target)) (f : β → α → Walk β)
    (visits : Target → Progress → List String) : List α → β → Progress → List String
  | [], _, _ => []
  | a :: l, b, p =>
    visitsOf (asked a) visits p ++
      match (f b a).run p with
      | .ok b' q => visitsAlong asked f visits l b' q
      | .error .. => []

/-- The classes whose members are walked when a class is recorded, with bases nested at most `n`
levels deep: the class itself, when it is new, and whatever its members lead to. -/
def visitsWithin (c : Context) : Nat → Target → Progress → List String
  | 0, _, _ => []
  | n + 1, t, p =>
    match (opening c t).run p with
    | .ok (.inr o) q =>
      o.start.qualifiedName ::
        visitsAlong (fun x => pure (memberTarget? c x))
          (addMember c (reflectWithin c n) o.specialized) (visitsWithin c n)
          (c.unit.cursor o.source).children o.start q
    | _ => []

def visitsClass (c : Context) (t : Target) (p : Progress) : List String :=
  visitsWithin c (2 * (c.unit.cursors.size + c.unit.types.size) + 2) t p

/-- The classes whose members are walked for a list of declarations. -/
def visits (c : Context) (l : List CursorId) (p : Progress) : List String :=
  visitsAlong (asked c) (fun _ d => reflectDeclaration c d) (visitsClass c) l () p

/-! ## None twice -/

/-- The classes that a step visits are of the given names, none twice. They were not there before,
and no others come in with the step. -/
structure Fresh {α : Type} (names : String → Prop) (visited : List String) (m : Walk α)
    (p : Progress) : Prop where
  nodup : visited.Nodup
  new : ∀ n ∈ visited, n ∉ p.registry.classes.keys
  named : ∀ n ∈ visited, names n
  keys : Yields m p fun _ q =>
    ∀ n, n ∈ q.registry.classes.keys ↔ n ∈ p.registry.classes.keys ∨ n ∈ visited

section fresh
variable {α β : Type} {names names' : String → Prop} {visited : List String} {m : Walk α}
  {p : Progress} {visits : Target → Progress → List String}

theorem Fresh.mono (h : Fresh names visited m p) (hnames : ∀ n, names n → names' n) :
    Fresh names' visited m p :=
  ⟨h.nodup, h.new, fun n hn => hnames n (h.named n hn), h.keys⟩

/-- A step that brings no class in visits none. -/
theorem fresh_nil (h : Yields m p fun _ q => q.registry.classes = p.registry.classes) :
    Fresh names [] m p :=
  ⟨.nil, by simp, by simp, h.mono fun _ _ hq => by simp [hq]⟩

/-- A step visits what the class that it has recorded visits. -/
theorem Calls.fresh {u : CompilationUnit} {reflect : Target → Walk ClassRecord}
    {asked : Walk (Option Target)} (h : Calls u reflect asked m)
    (hreflect : ∀ t q, asked.run p = .ok (some t) q → Fresh names (visits t q) (reflect t) q) :
    Fresh names (visitsOf asked visits p) m p := by
  have hkeys : Yields m p fun _ q => ∀ n, n ∈ q.registry.classes.keys ↔
      n ∈ p.registry.classes.keys ∨ n ∈ visitsOf asked visits p := by
    refine h.yields (Q := fun q => q.registry.classes.keys = p.registry.classes.keys)
      (stable_keys (P := fun l => l = _)) (stable_keys (P := fun l => ∀ n, n ∈ l ↔
        n ∈ p.registry.classes.keys ∨ n ∈ visitsOf asked visits p)) ?_ ?_ rfl
    · intro q hnone hq
      simp [visitsOf, hnone, hq]
    · intro t q hsome hq
      simp only [visitsOf, hsome, ← hq]
      exact (hreflect t q hsome).keys
  unfold visitsOf at hkeys ⊢
  split
  · next t q hsome =>
    rw [hsome] at hkeys
    have hfresh := hreflect t q hsome
    have hclasses := (h.asked_quiet.keeps p _ q hsome).1
    exact ⟨hfresh.nodup, fun n hn => hclasses ▸ hfresh.new n hn, hfresh.named, hkeys⟩
  · next hnone =>
    refine ⟨.nil, by simp, by simp, ?_⟩
    split at hkeys
    · next t q hsome => exact absurd hsome (hnone t q)
    · exact hkeys

/-- No class is visited by two steps, since what the first one visits is there for the second. -/
theorem fresh_along {I : Progress → Prop} {asked : α → Walk (Option Target)} {f : β → α → Walk β}
    {l : List α} (hf : ∀ a ∈ l, ∀ b q, I q → Fresh names (visitsOf (asked a) visits q) (f b a) q ∧
      Yields (f b a) q fun _ q' => I q') {b : β} (hp : I p) :
    Fresh names (visitsAlong asked f visits l b p) (l.foldlM f b) p := by
  induction l generalizing b p with
  | nil => exact fresh_nil (yields_pure rfl)
  | cons a l ih =>
    obtain ⟨hfirst, hI⟩ := hf a (List.mem_cons_self ..) b p hp
    rw [visitsAlong, List.foldlM_cons]
    cases hrun : (f b a).run p with
    | error e q =>
      rw [List.append_nil]
      refine ⟨hfirst.nodup, hfirst.new, hfirst.named, fun b' q' h => ?_⟩
      rw [EStateM.run_bind, hrun] at h
      cases h
    | ok b' q =>
      have hrest := ih (fun a ha => hf a (List.mem_cons_of_mem _ ha)) (b := b') (hI b' q hrun)
      have hkeys := hfirst.keys b' q hrun
      refine ⟨?_, ?_, List.forall_mem_append.2 ⟨hfirst.named, hrest.named⟩, fun b'' q' h n => ?_⟩
      · refine hfirst.nodup.append hrest.nodup fun n hn hn' => ?_
        exact hrest.new n hn' ((hkeys n).2 (.inr hn))
      · refine List.forall_mem_append.2 ⟨hfirst.new, fun n hn hmem => ?_⟩
        exact hrest.new n hn ((hkeys n).2 (.inl hmem))
      · rw [EStateM.run_bind, hrun] at h
        rw [hrest.keys b'' q' h, hkeys, List.mem_append, or_assoc]

end fresh

section classes
variable {c : Context} {p : Progress}

theorem Grounded.base {u : CompilationUnit} {n m : String} (h : Grounded u n)
    (hnm : Inherits u n m) : Grounded u m :=
  fun k hk => h k (.head hnm hk)

/-- A class is visited before its ancestors, and is none of them. -/
theorem fresh_enterWith {reflect : Target → Walk ClassRecord} (hrecords : Records c reflect)
    {n : String} {o : Opening} (ho : o.Opens c n p) (hp : OriginsNamed c.unit p)
    (hn : ¬ Circular c.unit n) {visited : List String}
    (hmembers : Fresh (TransGen (Inherits c.unit) n) visited
      ((c.unit.cursor o.source).children.foldlM (addMember c reflect o.specialized) o.start) p) :
    Fresh (ReflTransGen (Inherits c.unit) n) (n :: visited)
      (enterWith c reflect o.specialized o.source o.start) p where
  nodup := List.nodup_cons.2 ⟨fun hmem => hn (hmembers.named n hmem), hmembers.nodup⟩
  new := List.forall_mem_cons.2 ⟨ho.new, hmembers.new⟩
  named := List.forall_mem_cons.2 ⟨.refl, fun m hm => (hmembers.named m hm).to_reflTransGen⟩
  keys := by
    refine (enterWith_keys hrecords ho hp hmembers.keys).mono ?_
    rintro - q ⟨-, q', hkeys, hentered⟩ m
    rw [hentered, hkeys, List.mem_cons, or_left_comm]

/-- The members of a class visit ancestors of it only, none twice. -/
theorem fresh_members {reflect : Target → Walk ClassRecord} {visits : Target → Progress → List String}
    (hrecords : Records c reflect) {n : String} {o : Opening} (ho : o.Opens c n p)
    (hp : OriginsNamed c.unit p)
    (hvisits : ∀ s : Target, s.IsClass c.unit → Inherits c.unit n (targetName c.unit s) →
      ∀ q, OriginsNamed c.unit q → Fresh (ReflTransGen (Inherits c.unit) (targetName c.unit s))
        (visits s q) (reflect s) q) :
    Fresh (TransGen (Inherits c.unit) n)
      (visitsAlong (fun x => pure (memberTarget? c x)) (addMember c reflect o.specialized) visits
        (c.unit.cursor o.source).children o.start p)
      ((c.unit.cursor o.source).children.foldlM (addMember c reflect o.specialized) o.start) p := by
  refine fresh_along (I := OriginsNamed c.unit) (fun x hx r q hq => ?_) hp
  refine ⟨(addMember_calls reflect o.specialized r x).fresh fun s q' hasked => ?_,
    addMember_named hrecords _ r x hq⟩
  obtain ⟨hs, rfl⟩ := EStateM.Result.ok.inj hasked
  have hbase := ho.inherits hp hx hs
  exact (hvisits s (memberTarget?_eq_some hs).2.1 hbase q hq).mono fun m hm => .head' hbase hm

/-- No class is visited twice while one is recorded that is grounded. -/
theorem fresh_reflectWithin (n : Nat) {t : Target} (ht : t.IsClass c.unit)
    (hp : OriginsNamed c.unit p) (hgrounded : Grounded c.unit (targetName c.unit t)) :
    Fresh (ReflTransGen (Inherits c.unit) (targetName c.unit t)) (visitsWithin c n t p)
      (reflectWithin c n t) p := by
  induction n generalizing t p with
  | zero => exact fresh_nil yields_throw
  | succ n ih =>
    rw [visitsWithin]
    split
    · next o q hrun =>
      obtain ⟨hq, -, hopens⟩ := opening_spec ht _ q hrun
      have ho := hopens o rfl
      have hnamed := hq.named hp
      have hmembers := fresh_members (reflectWithin_records n) ho hnamed fun s hs hbase q' hq' =>
        ih hs hq' (hgrounded.base hbase)
      have hentered := fresh_enterWith (reflectWithin_records n) ho hnamed (hgrounded _ .refl)
        hmembers
      rw [ho.name]
      refine ⟨hentered.nodup, hq.classes_eq ▸ hentered.new, hentered.named, fun r q' h => ?_⟩
      rw [reflectWithin, reflectWith_eq, EStateM.run_bind, hrun] at h
      exact hq.classes_eq ▸ hentered.keys r q' h
    · next hnone =>
      -- the class is known, or the walk fails before its members
      rw [reflectWithin, reflectWith_eq]
      refine fresh_nil (yields_bind (R := fun a q => (opening c t).run p = .ok a q)
        (fun _ _ h => h) fun a q hrun => ?_)
      have hclasses := (opening_spec ht a q hrun).1.classes_eq
      cases a with
      | inl known => exact yields_pure hclasses
      | inr o => exact absurd hrun (hnone o q)

/-- A declaration visits no class twice when the one that it asks for is grounded. -/
theorem fresh_reflectDeclaration (d : CursorId) (hp : OriginsNamed c.unit p)
    (hd : ∀ t, Wants c d t → Grounded c.unit (targetName c.unit t)) :
    Fresh (fun _ => True) (visitsOf (asked c d) (visitsClass c) p) (reflectDeclaration c d) p := by
  refine (reflectDeclaration_calls d).fresh fun t q hasked => ?_
  have hwants := asked_spec d _ q hasked t rfl
  have hnamed := ((reflectDeclaration_calls d).asked_quiet.keeps p _ q hasked).2 hp
  exact (fresh_reflectWithin _ hwants.isClass hnamed (hd t hwants)).mono fun _ _ => trivial

theorem reflectDeclaration_named (d : CursorId) (hp : OriginsNamed c.unit p) :
    Yields (reflectDeclaration c d) p fun _ q => OriginsNamed c.unit q :=
  (reflectDeclaration_spec hp d).mono fun _ _ h => hp.steps h

theorem forM_eq_foldlM {α : Type} (l : List α) (f : α → Walk Unit) :
    forM l f = l.foldlM (fun _ a => f a) () := by
  induction l with
  | nil => rfl
  | cons a l ih => rw [List.forM_cons, List.foldlM_cons, ih]

end classes
/-- Where neither template arguments nor namespaces go round in a circle, a walk from any registry
takes one after another the declarations that it meets. If no class that it asks for leads to one
that is among its own ancestors, it ends with a registry or with an error of reflection, and the
classes whose members it walks, none of them twice, are those that come in. It does not succeed when
the bases of a class that it asks for have no end: no depth is enough for that class. -/
theorem reflect_ends (c : Context) (hu : ArgumentsEnd c.unit) (hs : ScopesEnd c.unit)
    (r : Registry) (i : CursorId) :
    ∃ l, Met c.unit [i] l ∧ reflect c i = forM l (reflectDeclaration c) ∧
      ((∀ d ∈ l, ∀ t, Wants c d t → Grounded c.unit (targetName c.unit t)) →
        Ends (reflect c i) (.start r) ∧ (visits c l (.start r)).Nodup ∧
        Yields (reflect c i) (.start r) fun _ q => ∀ n,
          n ∈ q.registry.classes.keys ↔ n ∈ r.classes.keys ∨ n ∈ visits c l (.start r)) ∧
      ((∀ m ∈ r.classes.keys, ¬ Endless c.unit m) → ∀ d ∈ l, ∀ m, Wants c d (.declared d m) →
        Endless c.unit (declaredName c.unit d) →
          (∀ p, (reflect c i).run (.start r) ≠ .ok () p) ∧
            ∀ n k p, (reflectWithin c n (.declared d m)).run (.start r) ≠ .ok k p) := by
  obtain ⟨l, hl, hwalk⟩ := reflect_eq_forM hs i
  have hstart : OriginsNamed c.unit (.start r) := by
    intro n d hd
    simp [Progress.start] at hd
  refine ⟨l, hl, hwalk, fun hgrounded => ?_, fun hr d hd m hwants hendless => ⟨?_, ?_⟩⟩
  · have hfresh := fresh_along (b := ()) (I := OriginsNamed c.unit)
      (fun d hd _ q hq => ⟨fresh_reflectDeclaration d hq (hgrounded d hd),
        reflectDeclaration_named d hq⟩) hstart
    rw [hwalk, forM_eq_foldlM]
    refine ⟨?_, hfresh.nodup, hfresh.keys⟩
    refine ends_foldlM (I := fun _ _ q => OriginsNamed c.unit q) (fun _ d hd _ q hq => ?_) hstart
    exact ⟨ends_reflectDeclaration hu d hq (hgrounded d hd), reflectDeclaration_named d hq⟩
  · intro p hrun
    rw [hwalk] at hrun
    exact forM_endless hd hwants hendless ⟨hstart, hr⟩ () p hrun
  · intro n k p hrun
    exact (reflectWithin_eachEnds n hwants.isClass ⟨hstart, hr⟩ k p hrun).1 hendless

/-! ## Units without circles -/

theorem not_transGen_of_lt {α : Type} {R : α → α → Prop} (rank : α → Nat)
    (h : ∀ a b, R a b → rank b < rank a) (a : α) : ¬ TransGen R a a := by
  intro hcircle
  have hlt : TransGen (fun n m : Nat => m < n) (rank a) (rank a) := hcircle.lift rank h
  rw [transGen_eq_self (r := fun n m : Nat => m < n)] at hlt
  exact Nat.lt_irrefl _ hlt

section circles
variable {u : CompilationUnit}

/-- Template arguments come before the types that have them. -/
theorem argumentsEnd_of_lt (h : ∀ i < u.types.size,
    ∀ j ∈ (underlying u (u.type (unwrap u i))).arguments, j < i) : ArgumentsEnd u :=
  not_transGen_of_lt id fun i j hij => h i hij.lt_size j hij

/-- What is in a namespace comes after it. -/
theorem scopesEnd_of_lt (h : ∀ i < u.cursors.size,
    (u.cursor i).kind = .unit ∨ (u.cursor i).kind = .namespace →
    ∀ j ∈ (u.cursor i).children, i < j) : ScopesEnd u := by
  refine not_transGen_of_lt (u.cursors.size - ·) fun i j hij => ?_
  exact Nat.sub_lt_sub_left hij.lt_size (h i hij.lt_size hij.1 j hij.2)

/-- The declarations that types of the name are resolved from. -/
def originsAt (u : CompilationUnit) (n : String) : List CursorId :=
  ((List.range u.types.size).filter fun i => recordedName u i = n).flatMap
      (fun i => (u.type (unwrap u i)).declaration.toList) ++
    (List.range u.cursors.size).filter fun d =>
      (u.cursor d).type = none ∧ (u.cursor d).kind = .classTemplate ∧ declaredName u d = n

/-- The declarations whose members classes of the name have. -/
def walkedAt (u : CompilationUnit) (n : String) : List CursorId :=
  ((List.range u.cursors.size).filter fun d =>
      (u.cursor d).kind.isClass ∧ declaredName u d = n) ++
    ((List.range u.types.size).filter fun t => recordedName u t = n).flatMap
      (fun t => (u.canonical t).declaration.toList) ++
    originsAt u (Text.before '<' n)

theorem Origin.mem_originsAt {n : String} {d : CursorId} (h : Origin u n d) :
    d ∈ originsAt u n := by
  cases h with
  | @type i _ hd =>
    have hlt : i < u.types.size := by
      apply Nat.lt_of_not_le
      intro hge
      have hunknown := type_of_size_le hge
      simp [unwrap, hunknown, FrontType.unknown] at hd
    simp only [originsAt, List.mem_append, List.mem_flatMap, List.mem_filter, List.mem_range,
      Option.mem_toList]
    exact .inl ⟨i, ⟨hlt, by simp⟩, hd⟩
  | template hd =>
    simp only [originsAt, List.mem_append, List.mem_filter, List.mem_range]
    exact .inr ⟨hd.lt_size, by simp [hd.1, hd.2]⟩

theorem Walked.mem_walkedAt {n : String} {d : CursorId} (h : Walked u n d) :
    d ∈ walkedAt u n := by
  cases h with
  | declared hkind =>
    have hlt : d < u.cursors.size := by
      apply Nat.lt_of_not_le
      intro hge
      rw [cursor_of_size_le hge] at hkind
      cases hkind
    simp only [walkedAt, List.mem_append, List.mem_filter, List.mem_range]
    exact .inl (.inl ⟨hlt, by simp [hkind]⟩)
  | @typed t _ hd =>
    have hlt : t < u.types.size := by
      apply Nat.lt_of_not_le
      intro hge
      have hunknown := type_of_size_le hge
      simp [CompilationUnit.canonical, hunknown, FrontType.unknown] at hd
    simp only [walkedAt, List.mem_append, List.mem_flatMap, List.mem_filter, List.mem_range,
      Option.mem_toList]
    exact .inl (.inr ⟨t, ⟨hlt, by simp⟩, hd⟩)
  | specialized horigin => exact List.mem_append_right _ horigin.mem_originsAt

/-- No class is among its own ancestors when no base has bases. -/
theorem grounded_of_flat (h : ∀ d < u.cursors.size, ∀ x ∈ (u.cursor d).children,
    (u.cursor x).kind = .baseSpecifier → ∀ m ∈ baseName? u (u.cursor x), ∀ e ∈ walkedAt u m,
      ∀ y ∈ (u.cursor e).children, (u.cursor y).kind ≠ .baseSpecifier) (n : String) :
    Grounded u n := by
  have hflat : ∀ {n m k}, Inherits u n m → ¬ Inherits u m k := by
    rintro n m k ⟨d, -, x, hx, hkind, hm⟩ ⟨e, he, y, hy, hkind', -⟩
    have hlt : d < u.cursors.size := by
      apply Nat.lt_of_not_le
      intro hge
      rw [cursor_of_size_le hge] at hx
      cases hx
    exact h d hlt x hx hkind m hm e he.mem_walkedAt y hy hkind'
  intro m _ hcircle
  obtain ⟨k, hmk, hkm⟩ := TransGen.head'_iff.1 hcircle
  rcases ReflTransGen.cases_head hkm with rfl | ⟨l, hkl, -⟩
  · exact hflat hmk hmk
  · exact hflat hmk hkl

end circles

/-- The class template `Tuple` with the parameters `H` and `T`, derived from itself with the
arguments `T`. -/
def tuple : CompilationUnit where
  root := 0
  cursors := #[
    { written .unit "a.h" none [1] with parent := none },
    written .classTemplate "Tuple" none [2, 3, 4, 5],
    written .annotationNode "mark" none [],
    written .templateTypeParameter "H" (some 0) [],
    written .templateTypeParameter "T" (some 1) [],
    written .baseSpecifier "Tuple<T...>" (some 2) []]
  types := #[
    ⟨.unexposed, "H", false, true, 0, none, some 3, []⟩,
    ⟨.unexposed, "T", false, true, 1, none, some 4, []⟩,
    ⟨.unexposed, "Tuple<T...>", false, false, 2, none, some 1, [1]⟩]

/-- Whether a walk from the first declaration goes on without end. -/
def failsEndlessly (u : CompilationUnit) : Bool :=
  match (reflect (walkOver u) 0).run (.start (.empty NameHash.crc32)) with
  | .error .endlessRecursion _ => true
  | _ => false

theorem exists_of_failsEndlessly {u : CompilationUnit} (h : failsEndlessly u) :
    ∃ q, (reflect (walkOver u) 0).run (.start (.empty NameHash.crc32)) =
      .error .endlessRecursion q := by
  unfold failsEndlessly at h
  split at h
  · next q hrun => exact ⟨q, hrun⟩
  · cases h

theorem endless_tuple : Endless tuple "Tuple" := by
  refine ⟨(· = "Tuple"), rfl, ?_⟩
  rintro m rfl d hd
  have hwalked : ∀ d ∈ walkedAt tuple "Tuple", d = 1 := by decide +kernel
  obtain rfl := hwalked d hd.mem_walkedAt
  exact ⟨5, by decide +kernel, by decide +kernel, "Tuple", by decide +kernel, rfl⟩

theorem met_tuple : Met tuple [0] [1] :=
  .scope (.inl rfl) (met_self (by decide +kernel)) .nil

theorem met_depot : Met depot [0] [2, 4, 6, 7, 10, 11, 16, 18] := by
  have hinner : Met depot [2, 4] [2, 4] := met_self (by decide +kernel)
  have hrest : Met depot [6, 7, 10, 11, 16, 18] [6, 7, 10, 11, 16, 18] :=
    met_self (by decide +kernel)
  have hunit : Met depot [1, 6, 7, 10, 11, 16, 18] ([2, 4] ++ [6, 7, 10, 11, 16, 18]) :=
    .scope (.inr rfl) hinner hrest
  have hroot : Met depot [0] (([2, 4] ++ [6, 7, 10, 11, 16, 18]) ++ []) :=
    .scope (.inl rfl) hunit .nil
  exact hroot

/-- The base and the specialisation are visited for the class and the alias that lead to them. The
walk over the template that is its own base does not succeed. -/
theorem reflect_ends_depot :
    (ArgumentsEnd depot ∧ ScopesEnd depot ∧
      Ends (reflect (walkOver depot) 0) (.start (.empty NameHash.crc32)) ∧
      (visits (walkOver depot) [2, 4, 6, 7, 10, 11, 16, 18]
        (.start (.empty NameHash.crc32))).Nodup ∧
      visits (walkOver depot) [2, 4, 6, 7, 10, 11, 16, 18] (.start (.empty NameHash.crc32)) =
        ["Derived", "Base", "Box", "Box<int>"]) ∧
    ArgumentsEnd tuple ∧ ScopesEnd tuple ∧ Endless tuple "Tuple" ∧
      ∀ p, (reflect (walkOver tuple) 0).run (.start (.empty NameHash.crc32)) ≠ .ok () p := by
  have hdepot : ArgumentsEnd depot ∧ ScopesEnd depot :=
    ⟨argumentsEnd_of_lt (by decide +kernel), scopesEnd_of_lt (by decide +kernel)⟩
  have htuple : ArgumentsEnd tuple ∧ ScopesEnd tuple :=
    ⟨argumentsEnd_of_lt (by decide +kernel), scopesEnd_of_lt (by decide +kernel)⟩
  have hgrounded : ∀ n, Grounded depot n := grounded_of_flat (by decide +kernel)
  constructor
  · obtain ⟨l, hl, -, hends, -⟩ := reflect_ends (walkOver depot) hdepot.1 hdepot.2
      (.empty NameHash.crc32) 0
    obtain rfl := hl.unique met_depot
    obtain ⟨hends, hnodup, -⟩ := hends fun _ _ _ _ => hgrounded _
    exact ⟨hdepot.1, hdepot.2, hends, hnodup, by decide +kernel⟩
  · obtain ⟨l, hl, -, -, hendless⟩ := reflect_ends (walkOver tuple) htuple.1 htuple.2
      (.empty NameHash.crc32) 0
    obtain rfl := hl.unique met_tuple
    have hwants := Wants.class (c := walkOver tuple) (d := 1) (by decide +kernel) (by decide +kernel)
    have hname : declaredName tuple 1 = "Tuple" := by decide +kernel
    refine ⟨htuple.1, htuple.2, endless_tuple, ?_⟩
    refine (hendless (by simp [Registry.empty]) 1 (List.mem_singleton_self 1) _ hwants ?_).1
    exact hname.symm ▸ endless_tuple

/-- A class template that is derived from itself has its members walked again and again, and the
walk does not end, although canonical types, parents, template arguments and namespaces do. -/
theorem not_ends_tuple :
    (∀ i, (tuple.type (tuple.type i).canonical).canonical = (tuple.type i).canonical) ∧
      (∀ i, ¬ TransGen (fun i j => (tuple.cursor i).parent = some j) i i) ∧
      ArgumentsEnd tuple ∧ ScopesEnd tuple ∧ Met tuple [0] [1] ∧
      ¬ Ends (reflect (walkOver tuple) 0) (.start (.empty NameHash.crc32)) ∧
      visits (walkOver tuple) [1] (.start (.empty NameHash.crc32)) = List.replicate 20 "Tuple" := by
  refine ⟨fun i => ?_, ?_, argumentsEnd_of_lt (by decide +kernel),
    scopesEnd_of_lt (by decide +kernel), met_tuple, fun hends => ?_, by decide +kernel⟩
  · by_cases hi : i < tuple.types.size
    · have hall : ∀ i < tuple.types.size,
          (tuple.type (tuple.type i).canonical).canonical = (tuple.type i).canonical := by
        decide +kernel
      exact hall i hi
    · simp [type_of_size_le (Nat.le_of_not_lt hi), FrontType.unknown]
  · refine not_transGen_of_lt id fun i j hij => ?_
    have hi : i < tuple.cursors.size := by
      apply Nat.lt_of_not_le
      intro hge
      rw [cursor_of_size_le hge] at hij
      cases hij
    have hall : ∀ i < tuple.cursors.size, ∀ j ∈ (tuple.cursor i).parent, j < i := by
      decide +kernel
    exact hall i hi j hij
  · have hfails : failsEndlessly tuple := by decide +kernel
    obtain ⟨q, hrun⟩ := exists_of_failsEndlessly hfails
    cases hends _ _ hrun

end Introspect.Reflection
