import Introspect.Proofs.Reflection.Resolution
import Introspect.Proofs.Text.Scopes

/-! Types of declarations inside namespaces and classes: the name that a class template is recorded
under, the name that its specialisations give to it, and where the name of a type is cut. -/
namespace Introspect.Reflection
open Relation Text

/-! ## Names of what is nested -/

/-- The names that a spelling shows before its first argument list: those of the classes, outermost
first and each with its argument list, if it has one, and then that of the declaration in them. -/
def shownNames : List (Cursor × String) → String → List String
  | [], name => [name]
  | (c, arguments) :: classes, name =>
    if arguments = "" then c.spelling :: shownNames classes name else [c.spelling]

/-- The spelling of a specialisation of a template in namespaces and classes. -/
def spelledName (namespaces : List Cursor) (classes : List (Cursor × String))
    (name arguments : String) : String :=
  "::".intercalate (namespaces.map (·.spelling) ++
    (classes.map (fun c => c.1.spelling ++ c.2) ++ [name ++ arguments]))

/-- The declaration stands in the classes and these in the namespaces, outermost first. Every class
comes with the argument list that it is spelled with, if it has one. -/
structure Nested (u : CompilationUnit) (d : CursorId) (namespaces : List Cursor)
    (classes : List (Cursor × String)) : Prop where
  enclosing : u.enclosing (u.cursor d).parent = (namespaces ++ classes.map Prod.fst).reverse
  isNamespace : ∀ c ∈ namespaces, c.kind = .namespace
  isClass : ∀ c ∈ classes, c.1.kind.isClass
  named : ∀ c ∈ u.cursor d :: (namespaces ++ classes.map Prod.fst), IsName c.spelling
  arguments : ∀ c ∈ classes, c.2 = "" ∨ startsWith "<" c.2

section names
variable {classes : List (Cursor × String)} {name : String}

theorem shownNames_ne_nil : shownNames classes name ≠ [] := by
  cases classes with
  | nil => simp [shownNames]
  | cons c classes =>
    rw [shownNames]
    split <;> simp

/-- Only the declaration itself is shown when it stands in no class, or the outermost one has an
argument list and its name. -/
theorem shownNames_eq_singleton_iff : shownNames classes name = [name] ↔
    classes = [] ∨ ∃ c rest, classes = c :: rest ∧ c.2 ≠ "" ∧ c.1.spelling = name := by
  cases classes with
  | nil => simp [shownNames]
  | cons c rest =>
    by_cases hc : c.2 = ""
    · simp [shownNames, hc, shownNames_ne_nil]
    · simp [shownNames, hc]

theorem isName_of_mem_shownNames (hname : IsName name)
    (hclasses : ∀ c ∈ classes, IsName c.1.spelling) : ∀ n ∈ shownNames classes name, IsName n := by
  induction classes with
  | nil => simpa [shownNames] using hname
  | cons c classes ih =>
    obtain ⟨hc, hclasses⟩ := List.forall_mem_cons.1 hclasses
    rw [shownNames]
    split
    · exact List.forall_mem_cons.2 ⟨hc, ih hclasses⟩
    · simpa using hc

/-- What a spelling shows before its first argument list, behind other names. -/
theorem before_spelled {names : List String} {arguments : String}
    (hnames : ∀ n ∈ names, '<' ∉ n.toList) (hname : IsName name)
    (hclasses : ∀ c ∈ classes, IsName c.1.spelling)
    (hlists : ∀ c ∈ classes, c.2 = "" ∨ startsWith "<" c.2) (hown : startsWith "<" arguments) :
    before '<' ("::".intercalate
      (names ++ (classes.map (fun c => c.1.spelling ++ c.2) ++ [name ++ arguments]))) =
      "::".intercalate (names ++ shownNames classes name) := by
  induction classes generalizing names with
  | nil => exact before_intercalate hnames hname.bracket hown
  | cons c classes ih =>
    obtain ⟨hc, hclasses⟩ := List.forall_mem_cons.1 hclasses
    obtain ⟨hlist, hlists⟩ := List.forall_mem_cons.1 hlists
    rw [shownNames, List.map_cons, List.cons_append]
    split
    · next hnone =>
      have hmore : ∀ n ∈ names ++ [c.1.spelling], '<' ∉ n.toList := by
        simpa [or_imp, forall_and, hc.bracket] using hnames
      have hrest := ih hmore hclasses hlists
      rw [hnone, String.append_empty]
      simpa only [List.append_assoc, List.singleton_append] using hrest
    · next hsome => exact before_intercalate hnames hc.bracket (hlist.resolve_left hsome)

end names

section nested
variable {u : CompilationUnit} {d e : CursorId} {namespaces namespaces' : List Cursor}
  {classes classes' : List (Cursor × String)}

namespace Nested

theorem own (h : Nested u d namespaces classes) : IsName (u.cursor d).spelling :=
  h.named _ (List.mem_cons_self ..)

theorem namespace_isName (h : Nested u d namespaces classes) :
    ∀ n ∈ namespaces.map (·.spelling), IsName n := by
  intro n hn
  obtain ⟨c, hc, rfl⟩ := List.mem_map.1 hn
  exact h.named c (List.mem_cons_of_mem _ (List.mem_append_left _ hc))

theorem class_isName (h : Nested u d namespaces classes) : ∀ c ∈ classes, IsName c.1.spelling := by
  intro c hc
  refine h.named c.1 (List.mem_cons_of_mem _ (List.mem_append_right _ ?_))
  exact List.mem_map_of_mem hc

/-- Classes around a declaration do not count for its namespace. -/
theorem namespaceOf (h : Nested u d namespaces classes) :
    u.namespaceOf (u.cursor d).parent = "::".intercalate (namespaces.map (·.spelling)) := by
  have hclasses : (classes.map Prod.fst).filter (fun c => c.kind == .namespace) = [] := by
    rw [List.filter_eq_nil_iff]
    intro d hd
    obtain ⟨c, hc, rfl⟩ := List.mem_map.1 hd
    have hkind := h.isClass c hc
    rw [beq_iff_eq]
    intro hnamespace
    rw [hnamespace] at hkind
    cases hkind
  have hnamespaces : namespaces.filter (fun c => c.kind == .namespace) = namespaces := by
    rw [List.filter_eq_self]
    exact fun c hc => beq_iff_eq.2 (h.isNamespace c hc)
  rw [CompilationUnit.namespaceOf, h.enclosing, List.filter_reverse, List.filter_append, hclasses,
    hnamespaces, List.append_nil, List.map_reverse, List.reverse_reverse]

/-- The name of a class template tells its namespaces and its own name. -/
theorem declaredName_eq (h : Nested u d namespaces classes) (hd : IsTemplate u d) :
    declaredName u d =
      "::".intercalate (namespaces.map (·.spelling) ++ [(u.cursor d).spelling]) := by
  rw [hd.declaredName_eq, templateId, h.namespaceOf,
    QualifiedName.text_mk fun n hn => (h.namespace_isName n hn).nonempty]

/-- The name that a specialisation gives to its template tells the classes, too, up to the first
that has an argument list. -/
theorem before_spelledName (h : Nested u d namespaces classes) {arguments : String}
    (hown : startsWith "<" arguments) :
    before '<' (spelledName namespaces classes (u.cursor d).spelling arguments) =
      "::".intercalate (namespaces.map (·.spelling) ++
        shownNames classes (u.cursor d).spelling) :=
  before_spelled (fun n hn => (h.namespace_isName n hn).bracket) h.own h.class_isName h.arguments
    hown

theorem shown_isName (h : Nested u d namespaces classes) :
    ∀ n ∈ namespaces.map (·.spelling) ++ shownNames classes (u.cursor d).spelling, IsName n :=
  fun n hn => (List.mem_append.1 hn).elim (h.namespace_isName n)
    (isName_of_mem_shownNames h.own h.class_isName n)

theorem declared_isName (h : Nested u d namespaces classes) :
    ∀ n ∈ namespaces.map (·.spelling) ++ [(u.cursor d).spelling], IsName n :=
  fun n hn => (List.mem_append.1 hn).elim (h.namespace_isName n)
    fun hn => List.mem_singleton.1 hn ▸ h.own

/-- Class templates have one name when they have it in the same namespaces, whatever the classes
around them. -/
theorem declaredName_eq_iff (h : Nested u d namespaces classes) (hd : IsTemplate u d)
    (h' : Nested u e namespaces' classes') (he : IsTemplate u e) :
    declaredName u d = declaredName u e ↔
      namespaces.map (·.spelling) = namespaces'.map (·.spelling) ∧
        (u.cursor d).spelling = (u.cursor e).spelling := by
  rw [h.declaredName_eq hd, h'.declaredName_eq he,
    intercalate_inj (by simp) (by simp) (fun n hn => (h.declared_isName n hn).scope)
      fun n hn => (h'.declared_isName n hn).scope]
  constructor
  · intro heq
    obtain ⟨hnamespaces, hown⟩ := List.append_inj' heq rfl
    exact ⟨hnamespaces, List.singleton_inj.1 hown⟩
  · rintro ⟨hnamespaces, hown⟩
    rw [hnamespaces, hown]

end Nested

/-! ## Templates and their specialisations -/

variable {p q p' q' : Progress} {i : TypeId} {s g : CppType}

/-- What a specialisation is resolved as is one, unless something else is registered for it. -/
theorem isSpecialized_of_run (hp : ∀ known, Resolved u p i known → known.isSpecialized)
    (harguments : (underlying u (u.type (unwrap u i))).arguments ≠ [])
    (hrun : (resolveType u i).run p = .ok s q) : s.isSpecialized := by
  cases hfind : p.registry.types.find? (recordedName u i) with
  | some known =>
    obtain ⟨rfl, -⟩ := EStateM.Result.ok.inj (hrun.symm.trans (resolveType_known hfind))
    exact hp s hfind
  | none =>
    obtain ⟨_, _, -, hdescribes, -⟩ := resolveType_new (Catalog.find?_eq_none_iff.1 hfind) s q hrun
    rw [CppType.isSpecialized, hdescribes.template, if_neg harguments]
    rfl

/-- A specialisation names its template as that is recorded when the template stands in no class,
and else only by chance: when the outermost class around it has an argument list and its name. Class
templates share a name when they have it in the same namespaces, whatever classes are around them. -/
theorem templateName?_eq_iff (hd : IsTemplate u d) (h : Nested u d namespaces classes)
    {arguments : String} (hown : startsWith "<" arguments)
    (hname : recordedName u i = spelledName namespaces classes (u.cursor d).spelling arguments)
    (harguments : (underlying u (u.type (unwrap u i))).arguments ≠ [])
    (hp : ∀ known, Resolved u p i known → known.isSpecialized)
    (hs : (resolveType u i).run p = .ok s q) (hg : (resolveCursor u d).run p' = .ok g q') :
    s.templateName? = some ("::".intercalate (namespaces.map (·.spelling) ++
        shownNames classes (u.cursor d).spelling)) ∧
      g.qualifiedName =
        "::".intercalate (namespaces.map (·.spelling) ++ [(u.cursor d).spelling]) ∧
      (s.templateName? = some g.qualifiedName ↔ classes = [] ∨
        ∃ c rest, classes = c :: rest ∧ c.2 ≠ "" ∧ c.1.spelling = (u.cursor d).spelling) ∧
      ∀ e namespaces' classes', IsTemplate u e → Nested u e namespaces' classes' →
        ∀ p'' g' q'', (resolveCursor u e).run p'' = .ok g' q'' →
          (g.qualifiedName = g'.qualifiedName ↔
            namespaces.map (·.spelling) = namespaces'.map (·.spelling) ∧
              (u.cursor d).spelling = (u.cursor e).spelling) := by
  have hspecial : s.template? = some .specialized :=
    beq_iff_eq.1 (isSpecialized_of_run hp harguments hs)
  have hqualified : s.qualifiedName = recordedName u i :=
    Catalog.key_of_find? (resolveType_spec i s q hs).2
  have hshown : s.templateName? = some ("::".intercalate (namespaces.map (·.spelling) ++
      shownNames classes (u.cursor d).spelling)) := by
    simp only [CppType.templateName?, hspecial]
    rw [hqualified, hname, h.before_spelledName hown]
  have hdeclared : g.qualifiedName = declaredName u d :=
    Catalog.key_of_find? (resolveCursor_spec d g q' hg).2
  refine ⟨hshown, hdeclared.trans (h.declaredName_eq hd), ?_, ?_⟩
  · rw [hshown, hdeclared, h.declaredName_eq hd, Option.some_inj,
      intercalate_inj (by simp [shownNames_ne_nil]) (by simp)
        (fun n hn => (h.shown_isName n hn).scope) fun n hn => (h.declared_isName n hn).scope,
      List.append_right_inj, shownNames_eq_singleton_iff]
  · intro e namespaces' classes' he h' p'' g' q'' hg'
    have hdeclared' : g'.qualifiedName = declaredName u e :=
      Catalog.key_of_find? (resolveCursor_spec e g' q'' hg').2
    rw [hdeclared, hdeclared', h.declaredName_eq_iff hd h' he]

end nested

/-- A class template `Lid` in a namespace, and two of the name `Tray` in two classes. -/
def trays : CompilationUnit where
  root := 0
  cursors := #[
    written .unit "a.h" none [1, 3, 6],
    written .namespace "shelf" none [2],
    { written .classTemplate "Lid" none [9] with parent := some 1 },
    written .structDecl "Upper" none [4],
    { written .classTemplate "Tray" none [5] with parent := some 3 },
    written .templateTypeParameter "T" (some 0) [],
    written .structDecl "Lower" none [7],
    { written .classTemplate "Tray" none [8] with parent := some 6 },
    written .templateTypeParameter "T" (some 0) [],
    written .templateTypeParameter "T" (some 0) []]
  types := #[
    ⟨.unexposed, "T", false, true, 0, none, some 5, []⟩,
    ⟨.int, "int", false, false, 1, none, none, []⟩,
    ⟨.record, "shelf::Lid<int>", false, false, 2, none, some 2, [1]⟩,
    ⟨.record, "Upper::Tray<int>", false, false, 3, none, some 4, [1]⟩]

/-- A template in a namespace has the name that its specialisation gives to it. -/
theorem templateName?_eq_iff_lid : ∃ s q g q',
    (resolveType trays 2).run (served trays .crc32 []) = .ok s q ∧
      (resolveCursor trays 2).run (served trays .crc32 []) = .ok g q' ∧
        s.templateName? = some g.qualifiedName := by
  obtain ⟨s, q, hs, -⟩ := exists_of_answers
    (show answers trays [] (.type 2) (fun _ => true) by decide +kernel)
  obtain ⟨g, q', hg, -⟩ := exists_of_answers
    (show answers trays [] (.cursor 2) (fun _ => true) by decide +kernel)
  have hnested : Nested trays 2 [trays.cursor 1] [] := by
    refine ⟨rfl, by simp [trays, CompilationUnit.cursor, written], by simp, ?_, by simp⟩
    intro c hc
    rcases List.mem_pair.1 hc with rfl | rfl <;>
      exact ⟨by decide +kernel, by decide +kernel, by decide +kernel⟩
  have hiff := (templateName?_eq_iff (p := served trays .crc32 []) (i := 2) ⟨rfl, rfl⟩ hnested
    (by decide +kernel : Text.startsWith "<" "<int>") (by decide +kernel) (by decide +kernel)
    (fun known hknown => by cases hknown) hs hg).2.2.1
  exact ⟨s, q, g, q', hs, hg, hiff.2 (.inl rfl)⟩

/-- A specialisation names its template with the class that this stands in, which the name of the
template does not tell: two templates in different classes share it. -/
theorem exists_templateName?_ne_trays :
    (∃ s q g q', (resolveType trays 3).run (served trays .crc32 []) = .ok s q ∧
      (resolveCursor trays 4).run (served trays .crc32 []) = .ok g q' ∧
        s.templateName? ≠ some g.qualifiedName) ∧
    (trays.scopedName (trays.cursor 4).parent ≠ trays.scopedName (trays.cursor 7).parent ∧
      ∃ g q g' q', (resolveCursor trays 4).run (served trays .crc32 []) = .ok g q ∧
        (resolveCursor trays 7).run (served trays .crc32 []) = .ok g' q' ∧
          g.qualifiedName = g'.qualifiedName) := by
  obtain ⟨s, r, hs, hshown⟩ := exists_of_answers
    (show answers trays [] (.type 3) (fun s => s.templateName? == some "Upper::Tray") by
      decide +kernel)
  obtain ⟨g, q, hg, hupper⟩ := exists_of_answers
    (show answers trays [] (.cursor 4) (fun g => g.qualifiedName == "Tray") by decide +kernel)
  obtain ⟨g', q', hg', hlower⟩ := exists_of_answers
    (show answers trays [] (.cursor 7) (fun g => g.qualifiedName == "Tray") by decide +kernel)
  rw [beq_iff_eq] at hshown hupper hlower
  refine ⟨⟨s, r, g, q, hs, hg, ?_⟩, by decide +kernel, g, q, g', q', hg, hg', ?_⟩
  · rw [hshown, hupper]
    decide
  · rw [hupper, hlower]

/-! ## What a declaration stands in -/

/-- A declaration and those around it up to the unit, innermost first. -/
inductive Encloses (u : CompilationUnit) : Option CursorId → List Cursor → Prop
  | outside : Encloses u none []
  | unit {i} : (u.cursor i).kind = .unit → Encloses u (some i) []
  | inside {i chain} : (u.cursor i).kind ≠ .unit → Encloses u (u.cursor i).parent chain →
      Encloses u (some i) (u.cursor i :: chain)

/-- The second declaration is around the first one, with nothing between them. -/
def Within (u : CompilationUnit) (i j : CursorId) : Prop :=
  (u.cursor i).kind ≠ .unit ∧ (u.cursor i).parent = some j

section chains
variable {u : CompilationUnit} {o : Option CursorId} {i : CursorId} {chain : List Cursor}

theorem Within.mem_range {j : CursorId} (h : Within u i j) :
    i ∈ Finset.range u.cursors.size := by
  rw [Finset.mem_range]
  apply Nat.lt_of_not_le
  intro hge
  have hparent := h.2
  rw [cursor_of_size_le hge] at hparent
  cases hparent

/-- Who goes up from a declaration with an end above it never comes round. -/
theorem Encloses.not_cyclic (h : Encloses u o chain) :
    ∀ i ∈ o, ∀ j, ReflTransGen (Within u) i j → ¬ TransGen (Within u) j j := by
  induction h with
  | outside => simp
  | unit hunit =>
    rintro i ⟨⟩ j hij hcycle
    rcases hij.cases_head with rfl | ⟨k, hik, -⟩
    · obtain ⟨k, hik, -⟩ := TransGen.head'_iff.1 hcycle
      exact hik.1 hunit
    · exact hik.1 hunit
  | inside _ _ ih =>
    rintro i ⟨⟩ j hij hcycle
    rcases hij.cases_head with rfl | ⟨k, hik, hkj⟩
    · obtain ⟨k, hik, hki⟩ := TransGen.head'_iff.1 hcycle
      exact ih k hik.2 _ hki hcycle
    · exact ih k hik.2 j hkj hcycle

/-- The way up is not cut short before it ends. -/
theorem Encloses.enclosing_eq (h : Encloses u o chain) : u.enclosing o = chain := by
  cases o with
  | none =>
    cases h
    rfl
  | some i =>
    refine depth_induction (R := Within u) (S := Finset.range u.cursors.size)
      (P := fun n i => ∀ chain, Encloses u (some i) chain → u.upwards n (some i) = chain)
      (fun _ _ h => h.mem_range) ?_ (h.not_cyclic i rfl) (by simp) chain h
    intro n i ih chain h
    cases h with
    | unit hunit => rw [CompilationUnit.upwards, if_pos hunit]
    | @inside _ chain hunit habove =>
      rw [CompilationUnit.upwards, if_neg hunit]
      cases hparent : (u.cursor i).parent with
      | none =>
        rw [hparent] at habove
        cases habove
        cases n <;> rfl
      | some j =>
        rw [hparent] at habove
        rw [ih j ⟨hunit, hparent⟩ chain habove]

end chains

/-- The declaration stands in the classes and these in the namespaces up to the unit, outermost
first. Every class comes with the argument list that it is spelled with, if it has one. -/
structure Scoped (u : CompilationUnit) (d : CursorId) (namespaces : List Cursor)
    (classes : List (Cursor × String)) : Prop where
  encloses : Encloses u (some d) (u.cursor d :: (namespaces ++ classes.map Prod.fst).reverse)
  kind : (u.cursor d).kind ≠ .namespace
  isNamespace : ∀ c ∈ namespaces, c.kind = .namespace
  isClass : ∀ c ∈ classes, c.1.kind.isClass
  named : ∀ c ∈ u.cursor d :: (namespaces ++ classes.map Prod.fst), IsName c.spelling
  arguments : ∀ c ∈ classes, c.2 = "" ∨ startsWith "<" c.2

namespace Scoped
variable {u : CompilationUnit} {d : CursorId} {namespaces : List Cursor}
  {classes : List (Cursor × String)}

theorem nested (h : Scoped u d namespaces classes) : Nested u d namespaces classes := by
  have habove : Encloses u (u.cursor d).parent (namespaces ++ classes.map Prod.fst).reverse := by
    cases h.encloses with
    | inside _ habove => exact habove
  exact ⟨habove.enclosing_eq, h.isNamespace, h.isClass, h.named, h.arguments⟩

theorem namespaceOf (h : Scoped u d namespaces classes) :
    u.namespaceOf (some d) = "::".intercalate (namespaces.map (·.spelling)) := by
  have hparent := h.nested.namespaceOf
  rw [CompilationUnit.namespaceOf, h.nested.enclosing] at hparent
  rw [CompilationUnit.namespaceOf, h.encloses.enclosing_eq, List.filter_cons_of_neg, hparent]
  simpa using h.kind

end Scoped

/-- A type is named after the namespaces and the classes that its declaration stands in. -/
theorem Scoped.nameOf_eq {u : CompilationUnit} {d : CursorId} {namespaces : List Cursor}
    {classes : List (Cursor × String)} {arguments : String} {t : FrontType}
    (h : Scoped u d namespaces classes) (hd : t.declaration = some d)
    (hspelled : t.spelling = spelledName namespaces classes (u.cursor d).spelling arguments) :
    nameOf u t = ⟨"::".intercalate (classes.map (fun c => c.1.spelling ++ c.2) ++
        [(u.cursor d).spelling ++ arguments]),
      "::".intercalate (namespaces.map (·.spelling))⟩ := by
  rw [nameOf, hd, hspelled, h.namespaceOf, spelledName]
  exact QualifiedName.split_intercalate (fun n hn => (h.nested.namespace_isName n hn).nonempty)
    (by simp)

/-- A type that is registered for a declaration has the namespaces around that as its namespace, and
the rest of its spelling, with the classes, as its name. No spelling loses anything when it is cut
behind a namespace, whatever the two are. -/
theorem resolveType_scopes (u : CompilationUnit) :
    (∀ d namespaces classes, Scoped u d namespaces classes → ∀ i arguments,
      (u.type (unwrap u i)).declaration = some d →
      (u.type (unwrap u i)).spelling =
        spelledName namespaces classes (u.cursor d).spelling arguments →
      ∀ p t q, recordedName u i ∉ p.registry.types.keys → (resolveType u i).run p = .ok t q →
        t ∈ q.registry.types.items ∧
          t.id.scope = "::".intercalate (namespaces.map (·.spelling)) ∧
          t.id.name = "::".intercalate (classes.map (fun c => c.1.spelling ++ c.2) ++
            [(u.cursor d).spelling ++ arguments]) ∧
          t.id.namespaces = namespaces.map (·.spelling)) ∧
    ∀ spelling scope, (QualifiedName.split spelling scope).text = spelling ∧
      ((QualifiedName.split spelling scope).scope = scope ∨
        (QualifiedName.split spelling scope).scope = "") := by
  refine ⟨?_, fun spelling scope =>
    ⟨QualifiedName.text_split spelling scope, QualifiedName.scope_split spelling scope⟩⟩
  intro d namespaces classes h i arguments hd hspelled p t q hnew hrun
  obtain ⟨s, holders, -, -, rfl, hid⟩ := resolveType_new hnew t q hrun
  rw [h.nameOf_eq hd hspelled] at hid
  refine ⟨Catalog.mem_items_insert.2 (.inl rfl), ?_, ?_, ?_⟩
  · rw [hid, QualifiedName.scope_mk]
  · rw [hid, QualifiedName.name_mk]
  · rw [hid]
    exact QualifiedName.namespaces_mk h.nested.namespace_isName

/-- An `Item` in a specialisation of a class template that is called like the two namespaces around
it. -/
def stores : CompilationUnit where
  root := 0
  cursors := #[
    written .unit "a.h" none [1],
    written .namespace "store" none [2],
    { written .namespace "store" none [3] with parent := some 1 },
    { written .classTemplate "store" none [4] with parent := some 2 },
    { written .structDecl "Item" (some 0) [] with parent := some 3 }]
  types := #[⟨.record, "store::store::store<store::Key>::Item", false, false, 0, none, some 4, []⟩]

/-- The name is cut behind the second namespace, and before the class. -/
theorem resolveType_scopes_stores : ∃ t q,
    (resolveType stores 0).run (served stores .crc32 []) = .ok t q ∧
      t.id.scope = "store::store" ∧ t.id.name = "store<store::Key>::Item" ∧
        t.id.namespaces = ["store", "store"] := by
  obtain ⟨t, q, hrun, -⟩ := exists_of_answers
    (show answers stores [] (.type 0) (fun _ => true) by decide +kernel)
  have hscoped : Scoped stores 4 [stores.cursor 1, stores.cursor 2]
      [(stores.cursor 3, "<store::Key>")] := by
    refine ⟨?_, by decide +kernel, by decide +kernel, by decide +kernel, ?_, by decide +kernel⟩
    · refine .inside (by decide +kernel) (.inside (i := 3) (by decide +kernel) ?_)
      refine .inside (i := 2) (by decide +kernel) (.inside (i := 1) (by decide +kernel) ?_)
      exact .unit (by decide +kernel)
    · intro c hc
      have hnames : ∀ n ∈ ["Item", "store"], n ≠ "" ∧ ':' ∉ n.toList ∧ '<' ∉ n.toList := by
        decide +kernel
      have hmem : c.spelling ∈ ["Item", "store", "store", "store"] := List.mem_map_of_mem hc
      obtain ⟨hsome, hscope, hbracket⟩ := hnames c.spelling (by simpa using hmem)
      exact ⟨hsome, hscope, hbracket⟩
  obtain ⟨-, hscope, hname, hnamespaces⟩ := (resolveType_scopes stores).1 _ _ _ hscoped 0 ""
    (by decide +kernel) (by decide +kernel) _ t q (by decide +kernel) hrun
  exact ⟨t, q, hrun, hscope.trans (by decide +kernel), hname.trans (by decide +kernel),
    hnamespaces.trans (by decide +kernel)⟩

end Introspect.Reflection
