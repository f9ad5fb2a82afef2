import Introspect.Proofs.Reflection.Alignment

/-! The keyword of a class template stands behind its parameter list. The scan for it counts single
brackets only, so it finds the keyword exactly behind the lists in which no token closes two. -/
namespace Introspect

/-! ## Angle brackets -/

/-- The tokens that a token counts as: two brackets can close with one. -/
def brackets (t : String) : List String := if t = ">>" then [">", ">"] else [t]

/-- Every bracket that opens is closed, and no other. -/
inductive Balanced : List String → Prop
  | nil : Balanced []
  | token {t : String} {r : List String} : t ≠ "<" → t ≠ ">" → Balanced r → Balanced (t :: r)
  | group {a r : List String} : Balanced a → Balanced r → Balanced ("<" :: (a ++ ">" :: r))

/-- The tokens from the bracket that opens a parameter list to the one that closes it. -/
def IsParameterList (l : List String) : Prop :=
  ∃ inner, Balanced inner ∧ l.flatMap brackets = "<" :: (inner ++ [">"])

/-- How many more single brackets are opened than closed. -/
def opened (l : List String) : Int := l.count "<" - l.count ">"

theorem flatMap_brackets_eq_nil_iff {l : List String} : l.flatMap brackets = [] ↔ l = [] := by
  cases l with
  | nil => simp
  | cons t l => by_cases hdouble : t = ">>" <;> simp [brackets, hdouble]

section opened
variable {t : String} {l r : List String}

@[simp] theorem opened_nil : opened [] = 0 := rfl

@[simp] theorem opened_append (l r : List String) : opened (l ++ r) = opened l + opened r := by
  simp only [opened, List.count_append]
  omega

@[simp] theorem opened_cons_open (l : List String) : opened ("<" :: l) = opened l + 1 := by
  simp only [opened, List.count_cons_self, List.count_cons_of_ne (show "<" ≠ ">" by decide)]
  omega

@[simp] theorem opened_cons_close (l : List String) : opened (">" :: l) = opened l - 1 := by
  simp only [opened, List.count_cons_self, List.count_cons_of_ne (show ">" ≠ "<" by decide)]
  omega

theorem opened_cons_of_ne (hopen : t ≠ "<") (hclose : t ≠ ">") (l : List String) :
    opened (t :: l) = opened l := by
  rw [opened, opened, List.count_cons_of_ne hopen, List.count_cons_of_ne hclose]

/-- A token for two brackets is not counted, though it closes both. -/
theorem opened_flatMap_brackets (l : List String) :
    opened l = opened (l.flatMap brackets) + 2 * l.count ">>" := by
  induction l with
  | nil => rfl
  | cons t l ih =>
    rw [List.flatMap_cons, opened_append]
    by_cases hdouble : t = ">>"
    · subst hdouble
      rw [opened_cons_of_ne (by decide) (by decide), List.count_cons_self, brackets, if_pos rfl,
        opened_cons_close, opened_cons_close, opened_nil]
      omega
    · have hsplit : opened (t :: l) = opened [t] + opened l := opened_append [t] l
      rw [hsplit, List.count_cons_of_ne hdouble, brackets, if_neg hdouble]
      omega

theorem Balanced.opened_eq (h : Balanced l) : opened l = 0 := by
  induction h with
  | nil => rfl
  | token hopen hclose _ ih => rw [opened_cons_of_ne hopen hclose, ih]
  | group _ _ iha ihr =>
    rw [opened_cons_open, opened_append, opened_cons_close, iha, ihr]
    rfl

/-- Nowhere in a balanced list more brackets are closed than opened. -/
theorem Balanced.opened_nonneg (h : Balanced l) {p : List String} (hp : p <+: l) :
    0 ≤ opened p := by
  induction h generalizing p with
  | nil =>
    rw [List.prefix_nil.1 hp]
    exact Int.le_refl 0
  | token hopen hclose _ ih =>
    obtain rfl | ⟨p, rfl, hrest⟩ := List.prefix_cons_iff.1 hp
    · exact Int.le_refl 0
    · rw [opened_cons_of_ne hopen hclose]
      exact ih hrest
  | @group a r ha _ iha ihr =>
    obtain rfl | ⟨p, rfl, hrest⟩ := List.prefix_cons_iff.1 hp
    · exact Int.le_refl 0
    rw [opened_cons_open]
    obtain hshort | ⟨s, rfl⟩ := List.prefix_or_prefix_of_prefix hrest (List.prefix_append a _)
    · have := iha hshort
      omega
    · rw [opened_append, ha.opened_eq]
      obtain rfl | ⟨s, rfl, hs⟩ := List.prefix_cons_iff.1 ((List.prefix_append_right_inj a).1 hrest)
      · exact Int.le_of_lt (by decide)
      · have := ihr hs
        rw [opened_cons_close]
        omega

end opened

/-! ## The scan -/

section scan
variable {depth : Int} {params l r rest : List String}

/-- Inside brackets the scan looks at nothing but single brackets. -/
theorem classKeyFrom_cons (hdepth : depth ≠ 0) (t : String) (r : List String) :
    classKeyFrom depth (t :: r) = classKeyFrom (depth + opened [t]) r := by
  rw [classKeyFrom]
  by_cases hopen : t = "<"
  · subst hopen
    simp
  by_cases hclose : t = ">"
  · subst hclose
    simp [Int.sub_eq_add_neg]
  · simp [hopen, hclose, hdepth, opened_cons_of_ne hopen hclose]

theorem classKeyFrom_append
    (h : ∀ p s, l = p ++ s → s ≠ [] → depth + opened p ≠ 0) (r : List String) :
    classKeyFrom depth (l ++ r) = classKeyFrom (depth + opened l) r := by
  induction l generalizing depth with
  | nil => simp
  | cons t l ih =>
    have hdepth : depth ≠ 0 := by simpa using h [] (t :: l) rfl (List.cons_ne_nil t l)
    have hsplit (p : List String) : opened (t :: p) = opened [t] + opened p :=
      opened_append [t] p
    rw [List.cons_append, classKeyFrom_cons hdepth, ih, hsplit l, Int.add_assoc]
    rintro p s rfl hs
    have := h (t :: p) s rfl hs
    rwa [hsplit, ← Int.add_assoc] at this

/-- The scan leaves a parameter list as if nothing had closed that one token closes with another. -/
theorem IsParameterList.classKeyFrom_eq (h : IsParameterList params) (r : List String) :
    classKeyFrom 0 ("template" :: params ++ r) =
      classKeyFrom (2 * params.count ">>") r := by
  obtain ⟨inner, hinner, hparams⟩ := h
  -- the first token is the bracket itself
  obtain ⟨tail, rfl, htail⟩ : ∃ tail, params = "<" :: tail ∧
      tail.flatMap brackets = inner ++ [">"] := by
    cases params with
    | nil => simp at hparams
    | cons t tail =>
      by_cases hdouble : t = ">>"
      · simp [hdouble, brackets] at hparams
      · simpa [hdouble, brackets] using hparams
  have hopened : opened tail = 2 * tail.count ">>" - 1 := by
    rw [opened_flatMap_brackets, htail, opened_append, hinner.opened_eq, opened_cons_close,
      opened_nil]
    omega
  have hinside : ∀ p s, tail = p ++ s → s ≠ [] → 1 + opened p ≠ 0 := by
    rintro p s rfl hs
    rw [List.flatMap_append] at htail
    have hprefix : p.flatMap brackets <+: inner := by
      refine (List.prefix_concat_iff.1 ⟨_, htail⟩).resolve_left fun hall => hs ?_
      rwa [hall, List.append_right_eq_self, flatMap_brackets_eq_nil_iff] at htail
    have := hinner.opened_nonneg hprefix
    rw [opened_flatMap_brackets]
    omega
  have hstart : classKeyFrom 0 ("template" :: "<" :: tail ++ r) = classKeyFrom 1 (tail ++ r) := by
    simp [classKeyFrom]
  rw [hstart, classKeyFrom_append hinside, hopened, List.count_cons_of_ne (by decide)]
  congr 1
  omega

/-- Where brackets stay open, no keyword is found. -/
theorem classKeyFrom_of_pos (hdepth : 0 < depth) (h : ∀ p, p <+: rest → 0 ≤ opened p) :
    classKeyFrom depth rest = .classDecl := by
  have hinside : ∀ p s, rest = p ++ s → s ≠ [] → depth + opened p ≠ 0 := by
    rintro p s rfl -
    have := h p (List.prefix_append p s)
    omega
  have hall := classKeyFrom_append hinside []
  rwa [List.append_nil] at hall

/-- What a template declares that has the keyword. -/
def ClassKey.kind : ClassKey → CursorKind
  | structKey => .structDecl
  | classKey => .classDecl

theorem ClassKey.kind_eq_structDecl_iff {key : ClassKey} :
    key.kind = .structDecl ↔ key = .structKey := by
  cases key <;> simp [kind]

/-- The keyword is found behind a parameter list unless brackets stay open there. -/
theorem IsParameterList.classKeyFrom_label (h : IsParameterList params) (key : ClassKey)
    (rest : List String) : classKeyFrom 0 ("template" :: params ++ key.label :: rest) =
      if ">>" ∈ params then classKeyFrom (2 * params.count ">>") rest else key.kind := by
  rw [h.classKeyFrom_eq]
  split
  · next hdouble =>
    have hcount : 0 < params.count ">>" := List.count_pos_iff.2 hdouble
    rw [classKeyFrom_cons (by omega)]
    cases key <;> simp [ClassKey.label, opened]
  · next hsingle =>
    rw [List.count_eq_zero.2 hsingle]
    cases key <;> simp [ClassKey.label, ClassKey.kind, classKeyFrom]

end scan

/-! ## Class templates as reported -/

/-- A class template whose tokens are a parameter list, the keyword behind it, and the rest. -/
structure RawCursor.IsTemplate (c : RawCursor) (params : List String) (key : ClassKey)
    (rest : List String) : Prop where
  kind : c.kind = "CLASS_TEMPLATE"
  tokens : c.tokens = "template" :: params ++ key.label :: rest

theorem RawCursor.IsTemplate.templateKind_eq {c : RawCursor} {params rest : List String}
    {key : ClassKey} (h : c.IsTemplate params key rest) (hparams : IsParameterList params)
    (u : RawUnit) (cwd : List String) :
    (u.cursor cwd c).templateKind =
      if ">>" ∈ params then classKeyFrom (2 * params.count ">>") rest else key.kind := by
  rw [RawUnit.cursor, h.tokens]
  exact hparams.classKeyFrom_label key rest

theorem RawUnit.cursor_toUnit (u : RawUnit) (cwd : List String) {i : CursorId} {id : String}
    {c : RawCursor} (h : u.cursors.entries[i]? = some (id, c)) :
    (u.toUnit cwd).cursor i = u.cursor cwd c := by
  simp [toUnit, CompilationUnit.cursor, h]

namespace Reflection

theorem classKeyOf_template {c : RawCursor} (h : c.kind = "CLASS_TEMPLATE") (u : RawUnit)
    (cwd : List String) :
    classKeyOf (u.cursor cwd c) =
      if (u.cursor cwd c).templateKind = .structDecl then .structKey else .classKey := by
  have hkind : (u.cursor cwd c).kind = .classTemplate :=
    (congrArg CursorKind.ofLabel h).trans (by decide)
  rw [classKeyOf, hkind, if_pos rfl]

/-- A class that is recorded for the first time has the keyword of its declaration. -/
theorem reflectClass_key {c : Context} {p : Progress} {d : CursorId} (m : Metadata)
    (hnew : declaredName c.unit d ∉ p.registry.classes.keys) :
    Yields (reflectClass c (.declared d m)) p fun k _ => k.key = classKeyOf (c.unit.cursor d) := by
  refine yields_reflectDeclared (fun type q k hrun hk => ?_) fun type q hrun hfresh => ?_
  · obtain ⟨hq, htype⟩ := resolveCursor_spec d _ _ hrun
    rw [hq.classes_eq, Catalog.key_of_find? htype] at hk
    exact absurd (Catalog.mem_keys_of_find? hk) hnew
  · refine yields_bind (members_keep (reflectWithin_preserves _) false
      (freshRecord (c.unit.cursor d) m type) rfl hfresh _) ?_
    rintro r q' ⟨-, hr⟩
    refine (finish_keeps List.not_mem_nil).mono ?_
    rintro k - ⟨-, promoted, -, -, rfl⟩
    exact hr.key

/-- The keywords behind a parameter list are found in all class templates exactly when no token of
the list closes two brackets. A template is recorded with its keyword then, and otherwise as a class,
whatever its keyword is, unless more brackets close behind the list. -/
theorem templateKind_iff {params : List String} (h : IsParameterList params) :
    ((∀ (raw : RawUnit) (cwd : List String) (t : RawCursor) (key : ClassKey) (rest : List String),
      t.IsTemplate params key rest →
        ((raw.cursor cwd t).templateKind = .structDecl ↔ key = .structKey)) ↔ ">>" ∉ params) ∧
    ∀ (c : Context) (raw : RawUnit), c.unit = raw.toUnit c.cwd →
      ∀ d id t key rest, raw.cursors.entries[d]? = some (id, t) → t.IsTemplate params key rest →
        ∀ m p k q, declaredName c.unit d ∉ p.registry.classes.keys →
          (reflectClass c (.declared d m)).run p = .ok k q →
            (">>" ∉ params → k.key = key) ∧
            (">>" ∈ params → (∀ l, l <+: rest → 0 ≤ opened l) → k.key = .classKey) := by
  refine ⟨⟨fun hfound hdouble => ?_, fun hsingle raw cwd t key rest ht => ?_⟩, ?_⟩
  · let t : RawCursor := { reportedCursor none "CLASS_TEMPLATE" "Box" none [] with
      tokens := "template" :: params ++ [ClassKey.structKey.label] }
    have ht : t.IsTemplate params .structKey [] := ⟨rfl, rfl⟩
    have hkind := (hfound ⟨.ofList [], .ofList [], ""⟩ [] t _ _ ht).2 rfl
    rw [ht.templateKind_eq h, if_pos hdouble] at hkind
    cases hkind
  · rw [ht.templateKind_eq h, if_neg hsingle, ClassKey.kind_eq_structDecl_iff]
  · intro c raw hc d id t key rest hd ht m p k q hnew hrun
    have hkey := reflectClass_key m hnew k q hrun
    rw [hc, raw.cursor_toUnit c.cwd hd, classKeyOf_template ht.kind, ht.templateKind_eq h] at hkey
    refine ⟨fun hsingle => ?_, fun hdouble hrest => ?_⟩
    · rw [hkey, if_neg hsingle]
      cases key <;> rfl
    · have hcount : 0 < params.count ">>" := List.count_pos_iff.2 hdouble
      rw [hkey, if_pos hdouble, classKeyFrom_of_pos (by omega) hrest]
      rfl

/-- A class template with one parameter. -/
def reportedTemplate (name parameter : String) (tokens : List String) : RawCursor :=
  { reportedCursor (some "unit") "CLASS_TEMPLATE" name none ["mark", parameter] with tokens := tokens }

/-- The parameter list `<typename A = Box<int> >`. -/
def binParameters : List String := ["<", "typename", "A", "=", "Box", "<", "int", ">", ">"]

/-- The parameter list `<typename B = Box<int>>`. -/
def trayParameters : List String := ["<", "typename", "B", "=", "Box", "<", "int", ">>"]

def binTemplate : RawCursor :=
  reportedTemplate "Bin" "A" ("template" :: binParameters ++ ["struct", "Bin", "\x7b", "\x7d"])

def trayTemplate : RawCursor :=
  reportedTemplate "Tray" "B" ("template" :: trayParameters ++ ["struct", "Tray", "\x7b", "\x7d"])

/-- Two struct templates whose parameters have a specialisation for a default. -/
def bins : RawUnit where
  root := "unit"
  cursors := .ofList [
    ("unit", reportedCursor none "TRANSLATION_UNIT" "a.h" none ["Bin", "Tray"]),
    ("Bin", binTemplate),
    ("Tray", trayTemplate),
    ("A", reportedCursor (some "Bin") "TEMPLATE_TYPE_PARAMETER" "A" (some "A") []),
    ("B", reportedCursor (some "Tray") "TEMPLATE_TYPE_PARAMETER" "B" (some "B") []),
    ("mark", reportedCursor none "ANNOTATE_ATTR" "mark" none [])]
  types := .ofList [
    ("A", reportedType "UNEXPOSED" "A" (some "A") []),
    ("B", reportedType "UNEXPOSED" "B" (some "B") [])]

theorem isParameterList_default {t : String} (hopen : t ≠ "<") (hclose : t ≠ ">") {l : List String}
    (hl : l.flatMap brackets = ["<", "typename", t, "=", "Box", "<", "int", ">", ">"]) :
    IsParameterList l := by
  have hint : Balanced ["int"] := .token (by decide) (by decide) .nil
  have hbox : Balanced ["Box", "<", "int", ">"] := .token (by decide) (by decide) (.group hint .nil)
  have hdefault : Balanced ["=", "Box", "<", "int", ">"] := .token (by decide) (by decide) hbox
  exact ⟨["typename", t, "=", "Box", "<", "int", ">"],
    .token (by decide) (by decide) (.token hopen hclose hdefault), hl⟩

/-- Where the brackets close one by one, a struct template is recorded as a struct. -/
theorem templateKind_iff_bins :
    IsParameterList binParameters ∧
    binTemplate.IsTemplate binParameters .structKey ["Bin", "\x7b", "\x7d"] ∧
    (bins.cursor [] binTemplate).templateKind = .structDecl ∧
    ∃ k q, (reflectClass (walkOver (bins.toUnit []))
      (.ofDeclaration (walkOver (bins.toUnit [])) 1)).run (.start (.empty NameHash.crc32)) = .ok k q ∧
        k.key = .structKey := by
  have hparams : IsParameterList binParameters :=
    isParameterList_default (by decide) (by decide) rfl
  have hbin : binTemplate.IsTemplate binParameters .structKey ["Bin", "\x7b", "\x7d"] := ⟨rfl, rfl⟩
  have hsingle : ">>" ∉ binParameters := by decide
  obtain ⟨hfound, hrecorded⟩ := templateKind_iff hparams
  have hends : (match (reflectClass (walkOver (bins.toUnit []))
      (.ofDeclaration (walkOver (bins.toUnit [])) 1)).run (.start (.empty NameHash.crc32)) with
    | .ok .. => true
    | .error .. => false) = true := by decide +kernel
  split at hends
  · next k q hrun =>
    refine ⟨hparams, hbin, (hfound.2 hsingle bins [] _ _ _ hbin).2 rfl, k, q, hrun, ?_⟩
    exact (hrecorded _ bins rfl 1 "Bin" binTemplate _ _ rfl hbin _ _ k q List.not_mem_nil hrun).1
      hsingle
  · cases hends

/-- Where one token closes two, it is recorded as a class. -/
theorem exists_not_structKey_bins :
    IsParameterList trayParameters ∧
    trayTemplate.IsTemplate trayParameters .structKey ["Tray", "\x7b", "\x7d"] ∧
    (bins.cursor [] trayTemplate).templateKind ≠ .structDecl ∧
    ∃ p, (reflect (walkOver (bins.toUnit [])) 0).run (.start (.empty NameHash.crc32)) = .ok () p ∧
      p.registry.classes.items.map (fun k => (k.qualifiedName, k.key)) =
        [("Bin", .structKey), ("Tray", .classKey)] := by
  have hleaves : leaves (bins.toUnit []) fun p => decide
      (p.registry.classes.items.map (fun k => (k.qualifiedName, k.key)) =
        [("Bin", .structKey), ("Tray", .classKey)]) := by decide +kernel
  obtain ⟨p, hrun, htest⟩ := exists_of_leaves hleaves
  exact ⟨isParameterList_default (by decide) (by decide) rfl, ⟨rfl, rfl⟩, by decide, p, hrun,
    of_decide_eq_true htest⟩

end Reflection
end Introspect
