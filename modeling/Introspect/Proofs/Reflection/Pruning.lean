import Introspect.Proofs.Reflection.Visits

/-! Code that is not marked leaves no trace: a walk over a unit comes to the same as one over what is
left of the unit without the declarations and members that are passed over. -/
namespace Introspect.Reflection
open Relation

/-! ## Pruned units -/

/-- Whether a type names the declaration as its own. -/
def isNamed (u : CompilationUnit) (i : CursorId) : Bool :=
  u.types.any fun t => t.declaration == some i

namespace Context
variable (c : Context)

/-- Whether something below the unit or a namespace is left: namespaces, and the definitions and
functions in the module that are marked. -/
def keepsDeclaration (i : CursorId) : Bool :=
  let d := c.unit.cursor i
  d.kind == .unit || d.kind == .namespace || d.kind == .annotationNode ||
    (d.isDefinition || d.kind == .functionDecl) && c.isInModule d && c.isMarked d

/-- Whether something below a class is left: bases, the body marker, template parameters,
annotations, and whatever is marked. -/
def keepsMember (i : CursorId) : Bool :=
  let d := c.unit.cursor i
  d.kind == .baseSpecifier || isBodyMarker c d || d.kind == .templateTypeParameter ||
    d.kind == .templateValueParameter || d.kind == .annotationNode || c.isMarked d

/-- Whether a child of a declaration is left. A unit or a namespace that a type names as its own
declaration has what is left of a class, too. -/
def keepsChild (i k : CursorId) : Bool :=
  let kind := (c.unit.cursor i).kind
  if kind = .unit ∨ kind = .namespace then
    c.keepsDeclaration k || isNamed c.unit i && c.keepsMember k
  else if kind.isClass then c.keepsMember k
  else true

/-- The walk over what is left of the unit. Whatever goes stays in the unit as a declaration with its
surroundings, for the types that speak of it. -/
def pruned : Context :=
  { c with unit := { c.unit with
      cursors := c.unit.cursors.mapIdx fun i d =>
        { d with children := d.children.filter (c.keepsChild i) } } }

end Context

section units
variable {c : Context}

@[simp] theorem size_pruned : c.pruned.unit.cursors.size = c.unit.cursors.size :=
  Array.size_mapIdx

@[simp] theorem types_pruned : c.pruned.unit.types = c.unit.types := rfl

@[simp] theorem type_pruned (i : TypeId) : c.pruned.unit.type i = c.unit.type i := rfl

@[simp] theorem canonical_pruned (i : TypeId) : c.pruned.unit.canonical i = c.unit.canonical i := rfl

theorem cursor_pruned (i : CursorId) : c.pruned.unit.cursor i =
    { c.unit.cursor i with
      children := (c.unit.cursor i).children.filter (c.keepsChild i) } := by
  by_cases hi : i < c.unit.cursors.size
  · simp [CompilationUnit.cursor, Context.pruned, hi]
  · have hsize := Nat.le_of_not_lt hi
    rw [cursor_of_size_le hsize, cursor_of_size_le (by rwa [size_pruned])]
    rfl

theorem upwards_pruned (n : Nat) (i : Option CursorId) :
    (c.pruned.unit.upwards n i).map (fun d => (d.kind, d.spelling)) =
      (c.unit.upwards n i).map fun d => (d.kind, d.spelling) := by
  induction n generalizing i with
  | zero => rfl
  | succ n ih =>
    cases i with
    | none => rfl
    | some i =>
      simp only [CompilationUnit.upwards, cursor_pruned]
      split
      · rfl
      · simp only [List.map_cons, ih]

/-- The names of namespaces stay. -/
@[simp] theorem namespaceOf_pruned (i : Option CursorId) :
    c.pruned.unit.namespaceOf i = c.unit.namespaceOf i := by
  have hspelled : ∀ l : List Cursor, (l.filter fun d => d.kind == .namespace).map (·.spelling) =
      ((l.map fun d => (d.kind, d.spelling)).filter fun k => k.1 == .namespace).map (·.2) := by
    intro l
    simp [List.filter_map, Function.comp_def]
  rw [CompilationUnit.namespaceOf, CompilationUnit.namespaceOf, hspelled, hspelled,
    CompilationUnit.enclosing, CompilationUnit.enclosing, upwards_pruned, size_pruned]

theorem Context.keepsChild_annotation {i k : CursorId}
    (hk : (c.unit.cursor k).kind = .annotationNode) : c.keepsChild i k := by
  simp [keepsChild, keepsDeclaration, keepsMember, hk]

theorem Context.keepsChild_of_isClass {i : CursorId} (hi : (c.unit.cursor i).kind.isClass)
    (k : CursorId) : c.keepsChild i k = c.keepsMember k := by
  have hscope : ¬ ((c.unit.cursor i).kind = .unit ∨ (c.unit.cursor i).kind = .namespace) := by
    revert hi
    cases (c.unit.cursor i).kind <;> decide
  simp [keepsChild, hscope, hi]

@[simp] theorem annotations_pruned (i : CursorId) :
    c.pruned.unit.annotations (c.pruned.unit.cursor i) = c.unit.annotations (c.unit.cursor i) := by
  have hkept : ∀ k ∈ (c.unit.cursor i).children,
      ((c.unit.cursor k).kind == .annotationNode && c.keepsChild i k) =
        ((c.unit.cursor k).kind == .annotationNode) := by
    intro k _
    by_cases hk : (c.unit.cursor k).kind = .annotationNode
    · simp [hk, Context.keepsChild_annotation hk]
    · simp [hk]
  simp only [CompilationUnit.annotations, cursor_pruned, List.filter_map, List.map_map,
    Function.comp_def, List.filter_filter]
  rw [List.filter_congr hkept]

@[simp] theorem metadata_pruned (i : CursorId) :
    c.pruned.metadata (c.pruned.unit.cursor i) = c.metadata (c.unit.cursor i) := by
  unfold Context.metadata
  rw [annotations_pruned, cursor_pruned]
  rfl

@[simp] theorem reflected?_pruned (i : CursorId) :
    c.pruned.reflected? (c.pruned.unit.cursor i) = c.reflected? (c.unit.cursor i) := by
  simp only [Context.reflected?, metadata_pruned]

@[simp] theorem isEligible_pruned (i : CursorId) : c.pruned.isEligible i = c.isEligible i := by
  have hmarked : c.pruned.isMarked (c.pruned.unit.cursor i) = c.isMarked (c.unit.cursor i) := by
    rw [Context.isMarked, annotations_pruned]
    rfl
  simp only [Context.isEligible, hmarked]
  rw [cursor_pruned]
  rfl

/-- Template parameters stay. -/
theorem templateParameters_pruned {i : CursorId} (hi : (c.unit.cursor i).kind.isClass) :
    c.pruned.unit.templateParameters (c.pruned.unit.cursor i) =
      c.unit.templateParameters (c.unit.cursor i) := by
  have hkept : ∀ k ∈ (c.unit.cursor i).children,
      (decide ((c.unit.cursor k).kind ∈
          [CursorKind.templateTypeParameter, .templateValueParameter]) && c.keepsChild i k) =
        decide ((c.unit.cursor k).kind ∈
          [CursorKind.templateTypeParameter, .templateValueParameter]) := by
    intro k _
    rw [Context.keepsChild_of_isClass hi, Context.keepsMember]
    cases (c.unit.cursor k).kind <;> simp
  simp only [CompilationUnit.templateParameters, cursor_pruned, List.filter_filter]
  exact List.filter_congr hkept

end units

/-! ## Types -/

section types
variable {c : Context}

@[simp] theorem resolveWithin_pruned (n : Nat) :
    resolveWithin c.pruned.unit n = resolveWithin c.unit n := by
  induction n with
  | zero => rfl
  | succ n ih =>
    funext i
    simp only [resolveWithin, ih, resolveWith, nameOf, namespaceOf_pruned]
    rfl

@[simp] theorem resolveType_pruned : resolveType c.pruned.unit = resolveType c.unit := by
  funext i
  simp only [resolveType, types_pruned, resolveWithin_pruned]

@[simp] theorem resolveUse_pruned : resolveUse c.pruned.unit = resolveUse c.unit := by
  funext i
  simp only [resolveUse, resolveType_pruned, type_pruned]

@[simp] theorem resolveTyped_pruned (i : CursorId) :
    resolveTyped c.pruned.unit (c.pruned.unit.cursor i) = resolveTyped c.unit (c.unit.cursor i) := by
  simp only [resolveTyped, resolveType_pruned, cursor_pruned]

@[simp] theorem resolveCursor_pruned (i : CursorId) :
    resolveCursor c.pruned.unit i = resolveCursor c.unit i := by
  simp only [resolveCursor, resolveTyped_pruned]
  by_cases hi : (c.unit.cursor i).kind = .classTemplate
  · simp only [templateParameters_pruned (c := c) (i := i) (by rw [hi]; rfl), namespaceOf_pruned]
    simp only [cursor_pruned]
  · simp [cursor_pruned, hi]

@[simp] theorem signatureOf_pruned (i : CursorId) :
    signatureOf c.pruned.unit (c.pruned.unit.cursor i) = signatureOf c.unit (c.unit.cursor i) := by
  simp only [signatureOf, resolveUse_pruned, cursor_pruned]

@[simp] theorem fieldOf_pruned (i : CursorId) (m : Metadata) :
    fieldOf c.pruned.unit (c.pruned.unit.cursor i) m = fieldOf c.unit (c.unit.cursor i) m := by
  simp only [fieldOf, resolveUse_pruned, cursor_pruned]

@[simp] theorem methodOf_pruned (i : CursorId) (m : Metadata) :
    methodOf c.pruned.unit (c.pruned.unit.cursor i) m = methodOf c.unit (c.unit.cursor i) m := by
  simp only [methodOf, signatureOf_pruned]
  rw [cursor_pruned]

end types

/-! ## Walks that agree -/

/-- Two walks do the same wherever the remembered declarations are those of their types. -/
def Agrees (u : CompilationUnit) {α : Type} (m m' : Walk α) : Prop :=
  ∀ p, OriginsNamed u p → m'.run p = m.run p

section agrees
variable {u : CompilationUnit} {α β : Type}

theorem Agrees.of_eq {m m' : Walk α} (h : m' = m) : Agrees u m m' := fun _ _ => by rw [h]

theorem Agrees.bind {m m' : Walk α} {f f' : α → Walk β} (hm : Agrees u m m')
    (hnamed : ∀ p, OriginsNamed u p → Yields m p fun _ q => OriginsNamed u q)
    (hf : ∀ a, Agrees u (f a) (f' a)) : Agrees u (m >>= f) (m' >>= f') := by
  intro p hp
  rw [EStateM.run_bind, EStateM.run_bind, hm p hp]
  cases hrun : m.run p with
  | error e q => rfl
  | ok a q => exact hf a q (hnamed p hp a q hrun)

/-- The same rest after walks that agree. -/
theorem Agrees.bind_left {m m' : Walk α} (hm : Agrees u m m') (f : α → Walk β) :
    Agrees u (m >>= f) (m' >>= f) := by
  intro p hp
  rw [EStateM.run_bind, EStateM.run_bind, hm p hp]

theorem agrees_foldlM {f f' : β → α → Walk β} {l : List α}
    (hf : ∀ b, ∀ a ∈ l, Agrees u (f b a) (f' b a))
    (hnamed : ∀ b, ∀ a ∈ l, ∀ p, OriginsNamed u p → Yields (f b a) p fun _ q => OriginsNamed u q)
    (b : β) : Agrees u (l.foldlM f b) (l.foldlM f' b) := by
  induction l generalizing b with
  | nil => exact .of_eq rfl
  | cons a l ih =>
    rw [List.foldlM_cons, List.foldlM_cons]
    exact .bind (hf b a (List.mem_cons_self ..)) (hnamed b a (List.mem_cons_self ..)) fun b' =>
      ih (fun b a ha => hf b a (List.mem_cons_of_mem _ ha))
        (fun b a ha => hnamed b a (List.mem_cons_of_mem _ ha)) b'

/-- Items that do nothing may go. -/
theorem foldlM_filter_eq {f : β → α → Walk β} {l : List α} (keep : α → Bool)
    (h : ∀ a ∈ l, keep a = false → ∀ b, f b a = pure b) (b : β) :
    (l.filter keep).foldlM f b = l.foldlM f b := by
  induction l generalizing b with
  | nil => rfl
  | cons a l ih =>
    have hrest := ih fun a ha => h a (List.mem_cons_of_mem _ ha)
    rw [List.foldlM_cons]
    cases hkeep : keep a with
    | true =>
      rw [List.filter_cons_of_pos hkeep, List.foldlM_cons]
      exact bind_congr hrest
    | false =>
      rw [List.filter_cons_of_neg (by simp [hkeep]), h a (List.mem_cons_self ..) hkeep b, pure_bind]
      exact hrest b

end agrees

/-! ## Classes -/

section classes
variable {c : Context} {reflect reflect' : Target → Walk ClassRecord}

theorem baseOf_pruned (h : ∀ t : Target, t.IsClass c.unit → Agrees c.unit (reflect t) (reflect' t))
    (x : CursorId) (r : ClassRecord) :
    Agrees c.unit (baseOf c reflect (c.unit.cursor x) r)
      (baseOf c.pruned reflect' (c.pruned.unit.cursor x) r) := by
  have htype : (c.pruned.unit.cursor x).type = (c.unit.cursor x).type := by rw [cursor_pruned]
  have hspelling : (c.pruned.unit.cursor x).spelling = (c.unit.cursor x).spelling := by
    rw [cursor_pruned]
  have hkind : ∀ e, (c.pruned.unit.cursor e).kind = (c.unit.cursor e).kind := fun e => by
    rw [cursor_pruned]
  simp only [baseOf, htype, hspelling, type_pruned, metadata_pruned, resolveType_pruned, hkind]
  cases (c.unit.cursor x).type with
  | none => exact .of_eq rfl
  | some type =>
    dsimp only
    cases he : (c.unit.type (c.unit.type type).canonical).declaration with
    | none => exact .of_eq rfl
    | some e =>
      have htyped : (c.unit.cursor e).kind.isClass →
          (Target.typed (c.unit.type type).canonical).IsClass c.unit :=
        fun hclass => ⟨⟨type, rfl⟩, .inr ⟨e, he, hclass⟩⟩
      dsimp only
      cases hk : (c.unit.cursor e).kind
      case classTemplate =>
        refine .bind_left (h _ ?_) _
        rw [Target.IsClass, hk]
        rfl
      case classDecl | structDecl => exact h _ (htyped (by rw [hk]; rfl))
      all_goals exact .of_eq rfl

theorem addMember_pruned (h : ∀ t : Target, t.IsClass c.unit → Agrees c.unit (reflect t) (reflect' t))
    (flag : Bool) (r : ClassRecord) (x : CursorId) :
    Agrees c.unit (addMember c reflect flag r x) (addMember c.pruned reflect' flag r x) := by
  have hmarker : isBodyMarker c.pruned (c.pruned.unit.cursor x) =
      isBodyMarker c (c.unit.cursor x) := by rw [cursor_pruned]; rfl
  have hkind : (c.pruned.unit.cursor x).kind = (c.unit.cursor x).kind := by rw [cursor_pruned]
  have hline : (c.pruned.unit.cursor x).line = (c.unit.cursor x).line := by rw [cursor_pruned]
  have hspelling : (c.pruned.unit.cursor x).spelling = (c.unit.cursor x).spelling := by
    rw [cursor_pruned]
  simp only [addMember, hmarker, hkind, hline, hspelling, reflected?_pruned, fieldOf_pruned,
    methodOf_pruned]
  split
  · exact .of_eq rfl
  · split
    · exact .bind_left (baseOf_pruned h x r) _
    · exact .of_eq rfl

/-- A member that goes would have been passed over. -/
theorem addMember_of_not_kept {x : CursorId} (hx : c.keepsMember x = false) (flag : Bool)
    (r : ClassRecord) : addMember c reflect flag r x = pure r := by
  simp only [Context.keepsMember, Bool.or_eq_false_iff, beq_eq_false_iff_ne] at hx
  obtain ⟨⟨⟨⟨⟨hbase, hmarker⟩, -⟩, -⟩, -⟩, hmarked⟩ := hx
  simp [addMember, hmarker, hbase, Context.reflected?_eq, hmarked]

theorem isNamed_of_type {u : CompilationUnit} {t : TypeId} {d : CursorId}
    (h : (u.type t).declaration = some d) : isNamed u d := by
  have hlt : t < u.types.size := by
    apply Nat.lt_of_not_le
    intro hge
    rw [type_of_size_le hge] at h
    cases h
  rw [isNamed, Array.any_eq_true]
  refine ⟨t, hlt, ?_⟩
  simpa [CompilationUnit.type, hlt] using h

theorem keepsMember_of_keepsChild {d k : CursorId}
    (hd : isNamed c.unit d ∨ (c.unit.cursor d).kind.isClass) (hk : c.keepsChild d k = false) :
    c.keepsMember k = false := by
  by_cases hclass : (c.unit.cursor d).kind.isClass
  · rwa [Context.keepsChild_of_isClass hclass] at hk
  · have hnamed := hd.resolve_right hclass
    simp only [Context.keepsChild, hclass, hnamed, Bool.true_and] at hk
    split at hk
    · exact (Bool.or_eq_false_iff.1 hk).2
    · cases hk

theorem Origin.isNamed_or {u : CompilationUnit} {n : String} {d : CursorId} (h : Origin u n d) :
    isNamed u d ∨ (u.cursor d).kind.isClass := by
  cases h with
  | type hd => exact .inl (isNamed_of_type hd)
  | template hd => exact .inr (by rw [hd.2]; rfl)

/-- Wherever the members of a class are found, those that matter stay. -/
theorem Walked.keepsMember {n : String} {d k : CursorId} (h : Walked c.unit n d)
    (hk : c.keepsChild d k = false) : c.keepsMember k = false := by
  refine keepsMember_of_keepsChild ?_ hk
  cases h with
  | declared hkind => exact .inr hkind
  | typed hd => exact .inl (isNamed_of_type hd)
  | specialized horigin => exact horigin.isNamed_or

theorem opening_pruned (t : Target) : opening c.pruned t = opening c t := by
  have hfresh : ∀ i m type, freshRecord (c.pruned.unit.cursor i) m type =
      freshRecord (c.unit.cursor i) m type := fun i m type => by rw [cursor_pruned]; rfl
  cases t <;>
    simp only [opening, resolveCursor_pruned, resolveType_pruned, canonical_pruned, type_pruned,
      metadata_pruned, hfresh]

/-- A class is entered with the same members. -/
theorem enterWith_pruned (hrecords : Records c reflect)
    (h : ∀ t : Target, t.IsClass c.unit → Agrees c.unit (reflect t) (reflect' t)) (flag : Bool)
    {n : String} {d : CursorId} (hd : Walked c.unit n d) (start : ClassRecord) :
    Agrees c.unit (enterWith c reflect flag d start) (enterWith c.pruned reflect' flag d start) := by
  have hchildren : (c.pruned.unit.cursor d).children =
      (c.unit.cursor d).children.filter (c.keepsChild d) := by rw [cursor_pruned]
  rw [enterWith, enterWith, hchildren]
  refine .bind_left ?_ _
  rw [← foldlM_filter_eq (c.keepsChild d) fun x _ hx b =>
    addMember_of_not_kept (hd.keepsMember hx) flag b]
  exact agrees_foldlM (fun r x _ => addMember_pruned h flag r x)
    (fun r x _ p hp => addMember_named hrecords flag r x hp) start

theorem reflectWithin_pruned (n : Nat) {t : Target} (ht : t.IsClass c.unit) :
    Agrees c.unit (reflectWithin c n t) (reflectWithin c.pruned n t) := by
  induction n generalizing t with
  | zero => exact .of_eq rfl
  | succ n ih =>
    intro p hp
    rw [reflectWithin, reflectWithin, reflectWith_eq, reflectWith_eq, opening_pruned,
      EStateM.run_bind, EStateM.run_bind]
    cases hrun : (opening c t).run p with
    | error e q => rfl
    | ok a q =>
      obtain ⟨hq, -, hopens⟩ := opening_spec ht a q hrun
      have hnamed := hq.named hp
      cases a with
      | inl known => rfl
      | inr o =>
        exact enterWith_pruned (reflectWithin_records n) (fun _ ht => ih ht) o.specialized
          ((hopens o rfl).walked hnamed) o.start q hnamed

theorem reflectClass_pruned {t : Target} (ht : t.IsClass c.unit) :
    Agrees c.unit (reflectClass c t) (reflectClass c.pruned t) := by
  rw [reflectClass, reflectClass, size_pruned, types_pruned]
  exact reflectWithin_pruned _ ht

end classes

/-! ## Declarations -/

section declarations
variable {c : Context}

/-- The enumerators of an enum stay. -/
theorem reflectEnum_pruned {d : CursorId} (hd : (c.unit.cursor d).kind = .enumDecl) (m : Metadata) :
    reflectEnum c.pruned d m = reflectEnum c d m := by
  have hchildren : (c.pruned.unit.cursor d).children = (c.unit.cursor d).children := by
    rw [cursor_pruned]
    exact List.filter_eq_self.2 fun k _ => by simp [Context.keepsChild, hd, CursorKind.isClass]
  have hadd : addEnumerator c.pruned = addEnumerator c := by
    funext e i
    simp only [addEnumerator, metadata_pruned]
    rw [cursor_pruned]
    rfl
  simp only [reflectEnum, resolveCursor_pruned, hchildren, hadd]

theorem aliasTargets_pruned {t : TypeId} (ht : ∃ s, (c.unit.type s).canonical = t)
    (target : CppType) : Agrees c.unit (aliasTargets c t target) (aliasTargets c.pruned t target) := by
  simp only [aliasTargets, type_pruned]
  refine .bind (.of_eq rfl) (fun _ hp => yields_registry hp) fun r => ?_
  split
  · next hkind =>
    split
    · exact .of_eq rfl
    · split
      · exact .bind_left (reflectClass_pruned (t := .typed t) ⟨ht, .inl hkind⟩) _
      · exact .of_eq rfl
  · exact .of_eq rfl
  · exact .of_eq rfl

theorem resolveType_named (i : TypeId) (p : Progress) (hp : OriginsNamed c.unit p) :
    Yields (resolveType c.unit i) p fun _ q => OriginsNamed c.unit q :=
  (resolveType_spec i).mono fun _ _ h => h.1.resolves.named hp

theorem reflectAlias_pruned (d : CursorId) (m : Metadata) :
    Agrees c.unit (reflectAlias c d m) (reflectAlias c.pruned d m) := by
  have htype : (c.pruned.unit.cursor d).type = (c.unit.cursor d).type := by rw [cursor_pruned]
  have hspelling : (c.pruned.unit.cursor d).spelling = (c.unit.cursor d).spelling := by
    rw [cursor_pruned]
  simp only [reflectAlias, htype, hspelling, resolveType_pruned, type_pruned]
  cases (c.unit.cursor d).type with
  | none => exact .of_eq rfl
  | some own =>
    refine .bind (.of_eq rfl) (resolveType_named own) fun type => ?_
    refine .bind (.of_eq rfl) (fun _ hp => yields_registry hp) fun r => ?_
    split
    · exact .of_eq rfl
    · refine .bind (.of_eq rfl) (resolveType_named _) fun target => ?_
      exact .bind_left (aliasTargets_pruned ⟨own, rfl⟩ target) _

theorem reflectFunction_pruned (d : CursorId) (m : Metadata) :
    reflectFunction c.pruned d m = reflectFunction c d m := by
  simp only [reflectFunction, namespaceOf_pruned, signatureOf_pruned]
  rw [cursor_pruned]

theorem Agrees.discard {u : CompilationUnit} {α : Type} {m m' : Walk α} (h : Agrees u m m') :
    Agrees u (discard m) (discard m') :=
  .bind_left h _

/-- A declaration leaves the same. -/
theorem reflectDeclaration_pruned (d : CursorId) :
    Agrees c.unit (reflectDeclaration c d) (reflectDeclaration c.pruned d) := by
  have hkind : (c.pruned.unit.cursor d).kind = (c.unit.cursor d).kind := by rw [cursor_pruned]
  rw [reflectDeclaration_eq, reflectDeclaration_eq]
  simp only [isEligible_pruned, metadata_pruned, hkind]
  split
  · split
    · next hclass => exact (reflectClass_pruned (t := .declared d _) hclass).discard
    · split
      · next henum => exact .of_eq (by rw [reflectEnum_pruned henum])
      · split
        · exact (reflectAlias_pruned d _).discard
        · exact .of_eq (by rw [reflectFunction_pruned])
  · exact .of_eq rfl

/-- A declaration that goes would have been passed over. -/
theorem reflectDeclaration_of_not_kept {i : CursorId} (hi : c.keepsDeclaration i = false) :
    reflectDeclaration c i = pure () := by
  have hno : c.isEligible i = false := by
    simp only [Context.keepsDeclaration, Bool.or_eq_false_iff] at hi
    have hkept := hi.2
    rw [Context.isEligible]
    by_contra heligible
    simp only [Bool.not_eq_false, Bool.and_eq_true, Bool.or_eq_true] at heligible
    obtain ⟨⟨hshape, hmodule⟩, hmarked⟩ := heligible
    rw [hmodule, hmarked] at hkept
    rcases hshape with ⟨-, hdefinition⟩ | hfunction
    · simp [hdefinition] at hkept
    · simp [hfunction] at hkept
  rw [reflectDeclaration_eq]
  simp [hno]

end declarations

/-! ## Walks -/

/-- One after another, where what goes is passed over. -/
theorem agrees_forM_filter {u : CompilationUnit} {f f' : CursorId → Walk Unit} {l : List CursorId}
    {keep : CursorId → Bool} (hf : ∀ k ∈ l, Agrees u (f k) (f' k))
    (hpassed : ∀ k ∈ l, keep k = false → f k = pure ())
    (hnamed : ∀ k ∈ l, ∀ p, OriginsNamed u p → Yields (f k) p fun _ q => OriginsNamed u q) :
    Agrees u (l.forM f) ((l.filter keep).forM f') := by
  have hall : l.forM f = (l.filter keep).foldlM (fun _ k => f k) () :=
    (forM_eq_foldlM l f).trans
      (foldlM_filter_eq keep (fun k hk hno (_ : Unit) => hpassed k hk hno) ()).symm
  have hleft : (l.filter keep).forM f' = (l.filter keep).foldlM (fun _ k => f' k) () :=
    forM_eq_foldlM _ f'
  rw [hall, hleft]
  exact agrees_foldlM (fun _ k hk => hf k (List.mem_filter.1 hk).1)
    (fun _ k hk => hnamed k (List.mem_filter.1 hk).1) ()

/-- A walk agrees with the one over what is left, and does nothing for what goes. -/
theorem agrees_reflect {c : Context} (hs : ScopesEnd c.unit) (i : CursorId) :
    Agrees c.unit (reflect c i) (reflect c.pruned i) ∧
      (c.keepsDeclaration i = false → reflect c i = pure ()) := by
  rw [reflect, reflect, size_pruned]
  refine depth_induction (R := IsIn c.unit) (S := Finset.range c.unit.cursors.size)
    (P := fun n i => Agrees c.unit (reflectFrom c n i) (reflectFrom c.pruned n i) ∧
      (c.keepsDeclaration i = false → reflectFrom c n i = pure ()))
    (fun _ _ h => Finset.mem_range.2 h.lt_size) ?_ (fun j _ => hs j)
    (by rw [Finset.card_range]; exact Nat.lt_succ_self _)
  intro n i ih
  have hkind : (c.pruned.unit.cursor i).kind = (c.unit.cursor i).kind := by rw [cursor_pruned]
  have hchildren : (c.pruned.unit.cursor i).children =
      (c.unit.cursor i).children.filter (c.keepsChild i) := by rw [cursor_pruned]
  simp only [reflectFrom, hkind, hchildren, Bool.or_eq_true, decide_eq_true_eq]
  by_cases hscope : (c.unit.cursor i).kind = .unit ∨ (c.unit.cursor i).kind = .namespace
  · rw [if_pos hscope, if_pos hscope]
    refine ⟨agrees_forM_filter (fun k hk => (ih k ⟨hscope, hk⟩).1) (fun k hk hno => ?_)
      (fun k _ p hp => (reflectFrom_spec n k hp).mono fun _ _ h => hp.steps h), fun hno => ?_⟩
    · simp only [Context.keepsChild, if_pos hscope] at hno
      exact (ih k ⟨hscope, hk⟩).2 (Bool.or_eq_false_iff.1 hno).1
    · rcases hscope with hk | hk <;> simp [Context.keepsDeclaration, hk] at hno
  · rw [if_neg hscope, if_neg hscope]
    exact ⟨reflectDeclaration_pruned i, reflectDeclaration_of_not_kept⟩

/-- Unmarked code is invisible to a walk. Where no namespace is in itself, a walk from any registry
does the same over a unit and over what is left of it without the declarations below the unit and
its namespaces that are no definitions, lie outside the module or are not marked, and without the
members of classes that are neither bases nor the body marker nor marked: it succeeds with the same
records in the same order, or it fails with the same error. -/
theorem reflect_pruned (c : Context) (hs : ScopesEnd c.unit) (r : Registry) (i : CursorId) :
    (reflect c.pruned i).run (.start r) = (reflect c i).run (.start r) := by
  refine (agrees_reflect hs i).1 _ fun n d hd => ?_
  simp [Progress.start] at hd

/-- A marked class `Shown` in a namespace, with a base that is not marked, a marked field, another
field and the body marker. Around it a function that is not marked, a marked class that is only
declared, and marked enums in a file outside the module and in none. -/
def gallery : CompilationUnit where
  root := 0
  cursors := #[
    written .unit "a.h" none [1, 10, 11, 13, 15],
    written .namespace "inner" none [2, 9],
    { written .structDecl "Shown" (some 0) [3, 4, 5, 7, 8] with parent := some 1 },
    written .annotationNode "mark" none [],
    written .baseSpecifier "Base" (some 1) [],
    written .fieldDecl "size" (some 2) [6],
    written .annotationNode "mark" none [],
    written .fieldDecl "cache" (some 3) [],
    { written .method "body" none [] with line := 7 },
    { written .functionDecl "helper" none [] with parent := some 1, resultType := some 3 },
    written .structDecl "Base" (some 1) [],
    { written .structDecl "Ahead" (some 4) [12] with isDefinition := false },
    written .annotationNode "mark" none [],
    { written .enumDecl "Far" (some 5) [14] with file := some ⟨.root, ["other", "b.h"]⟩ },
    written .annotationNode "mark" none [],
    { written .enumDecl "Lost" (some 6) [16] with file := none },
    written .annotationNode "mark" none []]
  types := #[
    ⟨.record, "inner::Shown", false, false, 0, none, some 2, []⟩,
    ⟨.record, "Base", false, false, 1, none, some 10, []⟩,
    ⟨.int, "int", false, false, 2, none, none, []⟩,
    ⟨.float, "float", false, false, 3, none, none, []⟩,
    ⟨.record, "Ahead", false, false, 4, none, some 11, []⟩,
    ⟨.enum, "Far", false, false, 5, none, some 13, []⟩,
    ⟨.enum, "Lost", false, false, 6, none, some 15, []⟩]

/-- Six of the declarations and members go, one of them a base that the class still leads to. No
type is registered for those that nothing leads to. -/
theorem reflect_pruned_gallery :
    ((walkOver gallery).pruned.unit.cursor 0).children = [1] ∧
      ((walkOver gallery).pruned.unit.cursor 1).children = [2] ∧
      ((walkOver gallery).pruned.unit.cursor 2).children = [3, 4, 5, 8] ∧ ScopesEnd gallery ∧
      ∃ p, (reflect (walkOver gallery) 0).run (.start (.empty .crc32)) = .ok () p ∧
        (reflect (walkOver gallery).pruned 0).run (.start (.empty .crc32)) = .ok () p ∧
        p.registry.classes.keys = ["Base", "inner::Shown"] ∧
        p.registry.types.keys = ["inner::Shown", "Base", "int"] ∧ p.registry.enums.keys = [] := by
  have hleaves : leaves gallery fun p =>
      p.registry.classes.keys == ["Base", "inner::Shown"] &&
        p.registry.types.keys == ["inner::Shown", "Base", "int"] &&
        p.registry.enums.keys == [] := by decide +kernel
  have hchildren : [0, 1, 2].map (fun i => ((walkOver gallery).pruned.unit.cursor i).children) =
      [[1], [2], [3, 4, 5, 8]] := by decide +kernel
  have hscopes : ScopesEnd gallery := scopesEnd_of_lt (by decide)
  obtain ⟨p, hrun, hkeys⟩ := exists_of_leaves hleaves
  simp only [Bool.and_eq_true, beq_iff_eq] at hkeys
  have hpruned := reflect_pruned (walkOver gallery) hscopes (.empty .crc32) 0
  simp only [List.map_cons, List.map_nil, List.cons.injEq, and_true] at hchildren
  obtain ⟨hunit, hinner, hshown⟩ := hchildren
  exact ⟨hunit, hinner, hshown, hscopes, p, hrun, hpruned.trans hrun, hkeys.1.1, hkeys.1.2,
    hkeys.2⟩

end Introspect.Reflection
