import Mathlib.Data.List.Lex
import Mathlib.Data.String.Basic
import Introspect.Path

/-! Paths in normal form are read back from their text, whatever is read is in normal form, names
have a stem and a suffix, and paths are in a linear order. -/
namespace Introspect.Path

/-- No component is empty, a single dot, or more than one component. -/
def Normal (p : Path) : Prop := ∀ s ∈ p.parts, s ≠ "" ∧ s ≠ "." ∧ '/' ∉ s.toList

theorem not_mem_of_mem_splitOn {c : Char} {s l : List Char} (h : l ∈ s.splitOn c) :
    c ∉ l := by
  induction s generalizing l with
  | nil => simp_all
  | cons d s ih =>
    rw [List.splitOn_cons_eq_if_modifyHead] at h
    split at h
    · obtain rfl | h := List.mem_cons.1 h
      · simp
      · exact ih h
    · next hd =>
      cases hs : s.splitOn c with
      | nil => exact absurd hs (List.splitOn_ne_nil c s)
      | cons first others =>
        rw [hs, List.modifyHead_cons] at h
        obtain rfl | h := List.mem_cons.1 h
        · have hfirst := ih (l := first) (by simp [hs])
          have hne : c ≠ d := fun he => hd (by simp [he])
          simp [hfirst, hne]
        · exact ih (by simp [hs, h])

theorem normal_ofString (s : String) : (ofString s).Normal := by
  intro p hp
  simp only [ofString, List.mem_filter, Bool.and_eq_true, decide_eq_true_eq, Text.pieces,
    List.mem_map] at hp
  obtain ⟨⟨l, hl, rfl⟩, hne, hdot⟩ := hp
  exact ⟨hne, hdot, by simpa using not_mem_of_mem_splitOn hl⟩

/-- The components below an anchor, as text. -/
private def below (p : Path) : List Char := ("/".intercalate p.parts).toList

private theorem splitOn_below {p : Path} (hp : p.Normal) :
    ((p.below.splitOn '/').map String.ofList).filter (fun s => s ≠ "" && s ≠ ".") = p.parts := by
  have hkeep : p.parts.filter (fun s => s ≠ "" && s ≠ ".") = p.parts := by
    apply List.filter_eq_self.2
    intro s hs
    obtain ⟨hne, hdot, -⟩ := hp s hs
    simp [hne, hdot]
  cases hparts : p.parts with
  | nil => simp [below, hparts]
  | cons a r =>
    have hslash : ∀ l ∈ p.parts.map String.toList, '/' ∉ l := by
      intro l hl
      obtain ⟨s, hs, rfl⟩ := List.mem_map.1 hl
      exact (hp s hs).2.2
    have hsplit : p.below.splitOn '/' = p.parts.map String.toList := by
      rw [below, String.toList_intercalate]
      exact List.splitOn_intercalate '/' hslash (by simp [hparts])
    rw [hsplit, List.map_map, ← hparts]
    simpa using hkeep

/-- The text below the anchor does not begin with a slash. -/
private theorem takeWhile_below {p : Path} (hp : p.Normal) :
    p.below.takeWhile (· == '/') = [] := by
  cases hparts : p.parts with
  | nil => simp [below, hparts]
  | cons a r =>
    obtain ⟨hne, -, hslash⟩ := hp a (by simp [hparts])
    cases ha : a.toList with
    | nil => exact absurd (String.toList_inj.1 ha) hne
    | cons c cs =>
      have hc : c ≠ '/' := by
        rintro rfl
        simp [ha] at hslash
      have hbelow : ∃ t, p.below = c :: t := by
        rw [below, hparts, String.toList_intercalate]
        cases r with
        | nil => exact ⟨cs, by simp [ha]⟩
        | cons b r => exact ⟨_, by simp [ha]; rfl⟩
      obtain ⟨t, ht⟩ := hbelow
      simp [ht, hc]

/-- A path in normal form is read back from its text. -/
theorem ofString_toString {p : Path} (hp : p.Normal) : ofString p.toString = p := by
  obtain ⟨anchor, parts⟩ := p
  have hstart := takeWhile_below hp
  have hparts := splitOn_below hp
  cases anchor with
  | relative =>
    cases parts with
    | nil => decide
    | cons a r =>
      have htext : (toString ⟨.relative, a :: r⟩).toList = below ⟨.relative, a :: r⟩ := by
        simp [toString, Anchor.text, below]
      rw [ofString, Text.pieces, htext, hparts, anchorOf, hstart]
      rfl
  | root =>
    have htext : (toString ⟨.root, parts⟩).toList = '/' :: below ⟨.root, parts⟩ := by
      simp [toString, Anchor.text, below]
    rw [ofString, Text.pieces, htext]
    simpa [anchorOf, hstart, List.splitOn_cons_eq_if_modifyHead] using hparts
  | doubleRoot =>
    have htext : (toString ⟨.doubleRoot, parts⟩).toList =
        '/' :: '/' :: below ⟨.doubleRoot, parts⟩ := by
      simp [toString, Anchor.text, below]
    rw [ofString, Text.pieces, htext]
    simpa [anchorOf, hstart, List.splitOn_cons_eq_if_modifyHead] using hparts

/-! ## Stems and suffixes -/

variable {name e : String}

/-- What stands behind the stem of a name. -/
def suffixOf (name : String) : String :=
  String.ofList (name.toList.drop (stemOf name).toList.length)

/-- The text begins with its only dot, and goes on. -/
def IsSuffix (e : String) : Prop :=
  ∃ x : List Char, e.toList = '.' :: x ∧ x ≠ [] ∧ '.' ∉ x ∧ '/' ∉ x

theorem stemOf_prefix_name (name : String) : (stemOf name).toList <+: name.toList := by
  unfold stemOf
  dsimp only
  split
  · exact List.prefix_refl _
  · rw [String.toList_ofList, ← List.reverse_suffix, List.reverse_reverse]
    exact List.drop_suffix _ _

theorem stemOf_append_suffixOf (name : String) : stemOf name ++ suffixOf name = name := by
  apply String.toList_inj.1
  rw [String.toList_append, suffixOf, String.toList_ofList]
  exact (List.prefix_iff_eq_append.1 (stemOf_prefix_name name))

theorem stemOf_ne_empty (h : name ≠ "") : stemOf name ≠ "" := by
  unfold stemOf
  dsimp only
  split
  · exact h
  · next hne =>
    simp only [Bool.or_eq_true, not_or, List.isEmpty_iff] at hne
    intro he
    exact hne.2 (List.reverse_eq_nil_iff.1 (by simpa using congrArg String.toList he))

theorem slash_stemOf (h : '/' ∉ name.toList) : '/' ∉ (stemOf name).toList :=
  fun hm => h ((stemOf_prefix_name name).subset hm)

/-- Behind some text a suffix is what the stem leaves out. -/
theorem stemOf_append {front : String} (hfront : front ≠ "") (he : IsSuffix e) :
    stemOf (front ++ e) = front := by
  obtain ⟨x, hx, hne, hdot, -⟩ := he
  have hreverse : (front ++ e).toList.reverse = x.reverse ++ '.' :: front.toList.reverse := by
    simp [hx]
  have hkept : ∀ c ∈ x.reverse, (c != '.') = true := by
    intro c hc
    simp only [bne_iff_ne]
    rintro rfl
    exact hdot (List.mem_reverse.1 hc)
  have htake : (x.reverse ++ '.' :: front.toList.reverse).takeWhile (· != '.') = x.reverse := by
    rw [List.takeWhile_append_of_pos hkept, List.takeWhile_cons_of_neg (by simp), List.append_nil]
  have hfront' : front.toList ≠ [] := fun h => hfront (String.toList_inj.1 h)
  unfold stemOf
  dsimp only
  rw [hreverse, htake]
  have hdrop : (x.reverse ++ '.' :: front.toList.reverse).drop (x.reverse.length + 1) =
      front.toList.reverse := by
    rw [List.drop_append, List.drop_eq_nil_of_le (by omega)]
    simp
  rw [hdrop]
  simp [hne, hfront']

theorem suffixOf_append {front : String} (hfront : front ≠ "") (he : IsSuffix e) :
    suffixOf (front ++ e) = e := by
  apply String.toList_inj.1
  rw [suffixOf, stemOf_append hfront he]
  simp

/-! ## Order -/

variable {a b : Path}

private theorem precedes_iff {s t : String} : precedes s t = true ↔ s < t := by
  rw [precedes, List.lex_eq_true_iff_lex, String.lt_iff_toList_lt]
  have hchar : ∀ c d : Char, c.toNat.blt d.toNat = true ↔ c < d := by
    intro c d
    rw [Nat.blt_eq]
    exact Iff.rfl
  simp only [hchar]
  exact Iff.rfl

/-- Paths are compared by their components, from the left. -/
private theorem le_iff :
    le a b = true ↔ a.anchor.text :: a.parts ≤ b.anchor.text :: b.parts := by
  rw [le, Bool.not_eq_true', ← Bool.not_eq_true, List.lex_eq_true_iff_lex]
  simp only [precedes_iff]
  exact @not_lt (List String) _ _ _

theorem le_trans (a b c : Path) (h : le a b = true) (h' : le b c = true) : le a c = true :=
  le_iff.2 ((le_iff.1 h).trans (le_iff.1 h'))

theorem le_total (a b : Path) : (le a b || le b a) = true := by
  rw [Bool.or_eq_true, le_iff, le_iff]
  exact Std.le_total

theorem le_antisymm (h : le a b = true) (h' : le b a = true) : a = b := by
  obtain ⟨hanchor, hparts⟩ := List.cons.inj ((le_iff.1 h).antisymm (le_iff.1 h'))
  have htext : ∀ x y : Anchor, x.text = y.text → x = y := by
    intro x y
    cases x <;> cases y <;> decide
  obtain ⟨x, xs⟩ := a
  obtain ⟨y, ys⟩ := b
  obtain rfl : x = y := htext x y hanchor
  obtain rfl : xs = ys := hparts
  rfl

end Introspect.Path
