import Introspect.Proofs.GeneratedPath

/-! One path lies inside another when the components of this, taken from the top with `.` and `..`
carried out, begin those of the first. The components are read off the texts of the paths, and what
is generated for a file of the module lies in the output directory. -/
namespace Introspect.Path
variable {cwd : List String} {a b c p q r : Path}

/-! ## Components without `.` and `..` -/

/-- The components that are left when empty ones and `.` are dropped, `..` takes away the name
before it, and nothing at the top, wherever each of these stands. -/
inductive Folds : List String → List String → Prop
  | names {parts} : (∀ s ∈ parts, IsName s) → Folds parts parts
  | here {front s rest folded} : s = "" ∨ s = "." → Folds (front ++ rest) folded →
      Folds (front ++ s :: rest) folded
  | back {front name rest folded} : IsName name → Folds (front ++ rest) folded →
      Folds (front ++ name :: ".." :: rest) folded
  | top {rest folded} : Folds rest folded → Folds (".." :: rest) folded

/-- The components of a text as they stand, behind those of the working directory unless the text
begins at the top. -/
def rawParts (cwd : List String) (s : String) : List String :=
  if Text.startsWith "/" s then Text.pieces '/' s else cwd ++ Text.pieces '/' s

/-- A component that counts. -/
private def counts (s : String) : Bool := s ≠ "" && s ≠ "."

private theorem counts_of_isName {s : String} (h : IsName s) : counts s = true := by
  simp [counts, h.nonempty, h.here]

private theorem filter_names {parts : List String} (h : ∀ s ∈ parts, IsName s) :
    parts.filter counts = parts :=
  List.filter_eq_self.2 fun s hs => counts_of_isName (h s hs)

private theorem descend_name {above : List String} {name : String} (h : IsName name) :
    descend above name = above ++ [name] := if_neg h.up

private theorem foldl_names {parts : List String} (h : ∀ s ∈ parts, IsName s)
    (above : List String) : parts.foldl descend above = above ++ parts := by
  induction parts generalizing above with
  | nil => simp
  | cons s parts ih =>
    obtain ⟨hs, hparts⟩ := List.forall_mem_cons.1 h
    rw [List.foldl_cons, descend_name hs, ih hparts, List.append_assoc, List.singleton_append]

/-- There is only one way that components can be left. -/
theorem Folds.eq_foldl {parts folded : List String} (h : Folds parts folded) :
    folded = (parts.filter counts).foldl descend [] := by
  induction h with
  | names hnames => rw [filter_names hnames, foldl_names hnames, List.nil_append]
  | here hs _ ih =>
    rw [ih, List.filter_append, List.filter_append, List.filter_cons_of_neg]
    rcases hs with rfl | rfl <;> decide
  | @back front name rest folded hname _ ih =>
    have hup : counts ".." = true := by decide
    have hback : ∀ above, descend (descend above name) ".." = above := fun above => by
      rw [descend_name hname, descend, if_pos rfl, List.dropLast_concat]
    rw [ih, List.filter_append, List.filter_append, List.filter_cons_of_pos (counts_of_isName hname),
      List.filter_cons_of_pos hup, List.foldl_append, List.foldl_append, List.foldl_cons,
      List.foldl_cons, hback]
  | top _ ih =>
    rw [ih, List.filter_cons_of_pos (by decide), List.foldl_cons]
    rfl

/-- Going on from names that are left already. -/
private theorem folds_append {above parts : List String} (habove : ∀ s ∈ above, IsName s)
    (hparts : ∀ s ∈ parts, '/' ∉ s.toList) :
    Folds (above ++ parts) ((parts.filter counts).foldl descend above) := by
  induction parts generalizing above with
  | nil => simpa using Folds.names habove
  | cons s parts ih =>
    obtain ⟨hs, hrest⟩ := List.forall_mem_cons.1 hparts
    by_cases hcounts : counts s = true
    · rw [List.filter_cons_of_pos hcounts, List.foldl_cons]
      by_cases hup : s = ".."
      · subst hup
        rw [descend, if_pos rfl]
        rcases List.eq_nil_or_concat above with rfl | ⟨front, name, rfl⟩
        · exact .top (ih habove hrest)
        · rw [List.concat_eq_append] at habove ⊢
          rw [List.dropLast_concat, List.append_assoc]
          exact .back (habove name (by simp))
            (ih (fun n hn => habove n (List.mem_append_left _ hn)) hrest)
      · have hname : IsName s := by
          simp only [counts, ne_eq, Bool.and_eq_true, decide_eq_true_eq] at hcounts
          exact ⟨hcounts.1, hcounts.2, hup, hs⟩
        have hmore : ∀ n ∈ above ++ [s], IsName n := by
          simpa [or_imp, forall_and, hname] using habove
        rw [descend_name hname]
        simpa using ih hmore hrest
    · rw [List.filter_cons_of_neg hcounts]
      refine .here ?_ (ih habove hrest)
      simpa [counts, or_iff_not_imp_left] using hcounts

private theorem anchorOf_eq_relative_iff {s : List Char} :
    anchorOf s = .relative ↔ ∀ rest, s ≠ '/' :: rest := by
  cases s with
  | nil => simp [anchorOf]
  | cons d rest =>
    by_cases hd : d = '/'
    · subst hd
      unfold anchorOf
      split
      · next h => simp at h
      · simp
      · simp
    · simp [anchorOf, hd]

theorem isAbsolute_ofString (s : String) : (ofString s).isAbsolute = Text.startsWith "/" s := by
  rw [Bool.eq_iff_iff, isAbsolute, bne_iff_ne, ofString, ne_eq, anchorOf_eq_relative_iff,
    Text.startsWith, Option.isSome_iff_exists]
  simp only [Text.afterPrefix?, Option.map_eq_some_iff, Text.dropPrefix?_eq_some_iff]
  constructor
  · intro h
    obtain ⟨rest, hrest⟩ := not_forall_not.1 h
    exact ⟨_, rest, hrest, rfl⟩
  · rintro ⟨_, rest, hrest, -⟩ h
    exact h rest hrest

/-- Folding a path takes the components of its text from the top and carries out `.` and `..`. -/
theorem folds_rawParts_iff (hcwd : ∀ s ∈ cwd, IsName s) {s : String} {folded : List String} :
    Folds (rawParts cwd s) folded ↔ folded = (ofString s).fold cwd := by
  have hslash : ∀ part ∈ Text.pieces '/' s, '/' ∉ part.toList := by
    intro part hpart
    obtain ⟨l, hl, rfl⟩ := List.mem_map.1 hpart
    simpa using not_mem_of_mem_splitOn hl
  have hfold : Folds (rawParts cwd s) ((ofString s).fold cwd) := by
    rw [fold, isAbsolute_ofString, rawParts]
    split
    · exact folds_append (List.forall_mem_nil IsName) hslash
    · exact folds_append hcwd hslash
  exact ⟨fun h => h.eq_foldl.trans hfold.eq_foldl.symm, fun h => h ▸ hfold⟩

/-! ## Containment -/

theorem isWithin_iff : c.isWithin cwd r = true ↔
    c.hasNull = false ∧ r.hasNull = false ∧ r.fold cwd <+: c.fold cwd := by
  simp [isWithin, and_assoc]

theorem isWithin_refl (h : p.hasNull = false) : p.isWithin cwd p = true :=
  isWithin_iff.2 ⟨h, h, List.prefix_refl _⟩

theorem isWithin_trans (h : a.isWithin cwd b = true) (h' : b.isWithin cwd c = true) :
    a.isWithin cwd c = true := by
  rw [isWithin_iff] at h h' ⊢
  exact ⟨h.1, h'.2.1, h'.2.2.trans h.2.2⟩

/-- Two paths lie in one another when they lead to the same place. -/
theorem isWithin_both_iff : a.isWithin cwd b = true ∧ b.isWithin cwd a = true ↔
    a.hasNull = false ∧ b.hasNull = false ∧ a.sameAs cwd b = true := by
  rw [isWithin_iff, isWithin_iff, sameAs, beq_iff_eq]
  constructor
  · rintro ⟨⟨ha, hb, hba⟩, -, -, hab⟩
    exact ⟨ha, hb, hab.eq_of_length_le hba.length_le⟩
  · rintro ⟨ha, hb, heq⟩
    exact ⟨⟨ha, hb, heq ▸ List.prefix_refl _⟩, hb, ha, heq ▸ List.prefix_refl _⟩

/-- A name that only begins like that of a directory leads to another place. -/
theorem isWithin_longer {front rest : List String} {name more : String}
    (hr : r.fold cwd = front ++ [name]) (hc : c.fold cwd = front ++ (name ++ more) :: rest)
    (hmore : more ≠ "") : c.isWithin cwd r = false := by
  rw [Bool.eq_false_iff, ne_eq, isWithin_iff, hr, hc]
  rintro ⟨-, -, hprefix⟩
  rw [List.prefix_append_right_inj, List.cons_prefix_cons] at hprefix
  have hlength := congrArg String.length hprefix.1
  rw [String.length_append] at hlength
  exact hmore (String.length_eq_zero_iff.1 (by omega))

private theorem mem_splitOn_iff {sep d : Char} (hd : d ≠ sep) {s : List Char} :
    d ∈ (s.splitOn sep).flatten ↔ d ∈ s := by
  induction s with
  | nil => simp
  | cons x s ih =>
    rw [List.splitOn_cons_eq_if_modifyHead]
    split
    · next hx =>
      obtain rfl : x = sep := beq_iff_eq.1 hx
      simpa [hd] using ih
    · obtain ⟨first, others, hsplit⟩ := List.exists_cons_of_ne_nil (List.splitOn_ne_nil sep s)
      rw [hsplit] at ih ⊢
      simpa using or_congr_right ih

/-- The system cannot know a path exactly when the null character stands in its text. -/
theorem hasNull_ofString {s : String} : (ofString s).hasNull = true ↔ '\x00' ∈ s.toList := by
  rw [← mem_splitOn_iff (by decide : '\x00' ≠ '/'), List.mem_flatten, hasNull, List.any_eq_true]
  constructor
  · rintro ⟨part, hpart, hnull⟩
    obtain ⟨l, hl, rfl⟩ := List.mem_map.1 (List.mem_filter.1 hpart).1
    exact ⟨l, hl, by simpa using hnull⟩
  · rintro ⟨l, hl, hnull⟩
    have hcounts : counts (String.ofList l) = true := by
      have hempty : String.ofList l ≠ "" := by
        rintro he
        simp [String.ofList_eq_empty_iff.1 he] at hnull
      have hdot : String.ofList l ≠ "." := by
        intro he
        rw [← String.toList_inj, String.toList_ofList] at he
        simp [he] at hnull
      simp [counts, hempty, hdot]
    exact ⟨_, List.mem_filter.2 ⟨List.mem_map_of_mem hl, hcounts⟩, by simpa using hnull⟩

end Introspect.Path

namespace Introspect.GeneratedPath
open Introspect.Path
variable {cwd : List String} {source moduleDirectory output : Path} {extension : String}

/-- What is generated for a file of the module lies in the output directory. -/
theorem isWithin_ofSource (hcwd : ∀ s ∈ cwd, IsName s ∧ '\x00' ∉ s.toList)
    (hsource : source.Clean) (hinside : source.isWithin cwd moduleDirectory = true)
    (hstrict : source.sameAs cwd moduleDirectory = false) (houtput : output.hasNull = false)
    (hslash : '/' ∉ extension.toList) (hlength : 2 < extension.toList.length)
    (hnull : '\x00' ∉ extension.toList) :
    (ofSource cwd source moduleDirectory output extension).isWithin cwd output = true := by
  have hnames : ∀ s ∈ cwd, IsName s := fun s hs => (hcwd s hs).1
  have hup : ".." ∉ cwd := fun hm => (hnames _ hm).up rfl
  obtain ⟨hknown, -, rest, hrest⟩ := isWithin_iff.1 hinside
  have hstraight := (hsource.straight hnames).names
  rcases List.eq_nil_or_concat rest with rfl | ⟨place, name, rfl⟩
  · rw [List.append_nil] at hrest
    rw [sameAs, hrest, beq_self_eq_true] at hstrict
    cases hstrict
  · rw [List.concat_eq_append] at hrest
    have hbelow : ∀ s ∈ place ++ [name], IsName s := fun s hs => by
      refine hstraight s ?_
      rw [resolve, absolute, ← hrest]
      exact List.mem_append_right _ hs
    have hgenerated : ofSource cwd source moduleDirectory output extension =
        .absolute (output.fold cwd ++ (place ++ [stemOf name ++ extension])) :=
      ofSource_below (fold_clean cwd moduleDirectory hup) hrest.symm hbelow hslash hlength
    have hstem : IsName (stemOf name ++ extension) :=
      isName_append (slash_stemOf (hbelow name (by simp)).single) hslash hlength
    have hdown : ".." ∉ output.fold cwd ++ (place ++ [stemOf name ++ extension]) := by
      have hplace : ".." ∉ place := fun hm => (hbelow _ (List.mem_append_left _ hm)).up rfl
      simp [fold_clean cwd output hup, hplace, hstem.up.symm]
    refine isWithin_iff.2
      ⟨hasNull_ofSource hcwd houtput hsource hknown hslash hlength hnull, houtput, ?_⟩
    rw [hgenerated, fold_absolute cwd _ hdown]
    exact List.prefix_append _ _

end Introspect.GeneratedPath

namespace Introspect.Path
variable {cwd : List String}

private theorem hasNull_eq_false {s : String} (h : '\x00' ∉ s.toList) :
    (ofString s).hasNull = false :=
  Bool.eq_false_iff.2 (mt hasNull_ofString.1 h)

/-- Of paths that the system can know, one lies inside another exactly when the components of this
begin those of the first, all from the top and with `.` and `..` carried out. So a path lies inside
itself, what is inside stays inside from further up, two paths lie in one another when they lead to
the same place, and a name that only begins like that of a directory leads past it. What is
generated for a file inside the module directory lies in the output directory. -/
theorem isWithin_iff_prefix_folds (hcwd : ∀ s ∈ cwd, IsName s ∧ '\x00' ∉ s.toList) :
    (∀ c r : String, (ofString c).isWithin cwd (ofString r) = true ↔
      '\x00' ∉ c.toList ∧ '\x00' ∉ r.toList ∧
        ∃ cs rs, Folds (rawParts cwd c) cs ∧ Folds (rawParts cwd r) rs ∧ rs <+: cs) ∧
    (∀ p : String, '\x00' ∉ p.toList → (ofString p).isWithin cwd (ofString p) = true) ∧
    (∀ a b c : String, (ofString a).isWithin cwd (ofString b) = true →
      (ofString b).isWithin cwd (ofString c) = true →
      (ofString a).isWithin cwd (ofString c) = true) ∧
    (∀ a b : String, '\x00' ∉ a.toList → '\x00' ∉ b.toList →
      ((ofString a).isWithin cwd (ofString b) = true ∧
          (ofString b).isWithin cwd (ofString a) = true ↔
        (ofString a).sameAs cwd (ofString b) = true)) ∧
    (∀ (c r : String) (front : List String) (name more : String) (rest : List String),
      Folds (rawParts cwd r) (front ++ [name]) →
      Folds (rawParts cwd c) (front ++ (name ++ more) :: rest) → more ≠ "" →
      (ofString c).isWithin cwd (ofString r) = false) ∧
    ∀ source moduleDirectory output extension : String,
      (ofString source).isWithin cwd (ofString moduleDirectory) = true →
      (ofString source).sameAs cwd (ofString moduleDirectory) = false →
      '\x00' ∉ output.toList → '\x00' ∉ extension.toList →
      '/' ∉ extension.toList → 2 < extension.toList.length →
      (GeneratedPath.ofSource cwd (ofString source) (ofString moduleDirectory) (ofString output)
        extension).isWithin cwd (ofString output) = true := by
  have hfolds : ∀ {s : String} {folded : List String}, Folds (rawParts cwd s) folded ↔
      folded = (ofString s).fold cwd := folds_rawParts_iff fun s hs => (hcwd s hs).1
  refine ⟨fun c r => ?_, fun p hp => isWithin_refl (hasNull_eq_false hp),
    fun a b c => isWithin_trans, fun a b ha hb => ?_, fun c r front name more rest hr hc hmore =>
      isWithin_longer (hfolds.1 hr).symm (hfolds.1 hc).symm hmore,
    fun source moduleDirectory output extension hinside hstrict houtput hnull hslash hlength =>
      GeneratedPath.isWithin_ofSource hcwd (clean_ofString source) hinside hstrict
        (hasNull_eq_false houtput) hslash hlength hnull⟩
  · rw [isWithin_iff, ← Bool.not_eq_true, ← Bool.not_eq_true, hasNull_ofString, hasNull_ofString]
    simp [hfolds]
  · rw [isWithin_both_iff, hasNull_eq_false ha, hasNull_eq_false hb]
    simp

/-- A header given in a roundabout way lies in its directory, one in a directory with a longer name
does not, and what is generated for the header lies in the output directory. -/
theorem isWithin_iff_prefix_folds_vfs :
    (∀ s ∈ ["vfs"], IsName s ∧ '\x00' ∉ s.toList) ∧
    (ofString "ui/..//src/./a.h").isWithin ["vfs"] (ofString "/../vfs/src/") = true ∧
    (ofString "source/a.h").isWithin ["vfs"] (ofString "src/../so") = false ∧
    (GeneratedPath.ofSource ["vfs"] (ofString "ui/..//src/./a.h") (ofString "src")
      (ofString "../out") ".reflgen.h").isWithin ["vfs"] (ofString "../out") = true := by
  have hcwd : ∀ s ∈ ["vfs"], IsName s ∧ '\x00' ∉ s.toList := by decide
  obtain ⟨hiff, -, -, -, hlonger, hgenerated⟩ := isWithin_iff_prefix_folds hcwd
  have hfolds : ∀ {s : String} {folded : List String}, folded = (ofString s).fold ["vfs"] →
      Folds (rawParts ["vfs"] s) folded := (folds_rawParts_iff fun s hs => (hcwd s hs).1).2
  refine ⟨hcwd, (hiff _ _).2 ⟨by decide, by decide, ["vfs", "src", "a.h"], ["vfs", "src"],
    hfolds (by decide), hfolds (by decide), by decide⟩,
    hlonger _ _ ["vfs"] "so" "urce" ["a.h"] (hfolds (by decide)) (hfolds (by decide)) (by decide),
    hgenerated _ _ _ _ ?_ (by decide) (by decide) (by decide) (by decide) (by decide)⟩
  exact (hiff _ _).2 ⟨by decide, by decide, ["vfs", "src", "a.h"], ["vfs", "src"],
    hfolds (by decide), hfolds (by decide), by decide⟩

/-- A path with the null character lies nowhere, not even inside itself, whatever its components
begin with. -/
theorem not_isWithin_null :
    Folds (rawParts [] "/module/a\x00.h") ["module", "a\x00.h"] ∧
    Folds (rawParts [] "/module") ["module"] ∧ ["module"] <+: ["module", "a\x00.h"] ∧
    (ofString "/module/a\x00.h").isWithin [] (ofString "/module") = false ∧
    (ofString "/module/a\x00.h").isWithin [] (ofString "/module/a\x00.h") = false :=
  ⟨(folds_rawParts_iff (by simp)).2 (by decide), (folds_rawParts_iff (by simp)).2 (by decide),
    by decide, by decide, by decide⟩

end Introspect.Path
