import Mathlib.Data.List.TakeWhile
import Introspect.Text.Lines

/-! What trimming takes away from a text, which texts it leaves as they are, and the lines of a text
that is put together of lines. -/
namespace Introspect.Text
variable {p : Char → Bool} {s a b : List Char}

/-! ## Trimming -/

/-- Trimming takes characters away at both ends. -/
theorem exists_trimWhile (p : Char → Bool) (s : List Char) : ∃ a b,
    s = a ++ trimWhile p s ++ b ∧ (∀ c ∈ a, p c) ∧ ∀ c ∈ b, p c := by
  let back := ((s.dropWhile p).reverse.takeWhile p).reverse
  have hback : trimWhile p s ++ back = s.dropWhile p := by
    rw [trimWhile, dropEndWhile, ← List.reverse_append, List.takeWhile_append_dropWhile,
      List.reverse_reverse]
  refine ⟨s.takeWhile p, back, ?_, List.all_eq_true.1 List.all_takeWhile, fun c hc => ?_⟩
  · rw [List.append_assoc, hback, List.takeWhile_append_dropWhile]
  · exact List.all_eq_true.1 List.all_takeWhile c (List.mem_reverse.1 hc)

theorem trimWhile_append (ha : ∀ c ∈ a, p c) (hb : ∀ c ∈ b, p c) (s : List Char) :
    trimWhile p (a ++ s ++ b) = trimWhile p s := by
  have hnone : (b ++ []).dropWhile p = [] := List.dropWhile_append_of_pos hb
  rw [List.append_nil] at hnone
  have hback (x : List Char) : dropEndWhile p (x ++ b) = dropEndWhile p x := by
    rw [dropEndWhile, List.reverse_append, List.dropWhile_append_of_pos (by simpa using hb),
      dropEndWhile]
  rw [trimWhile, List.append_assoc, List.dropWhile_append_of_pos ha, List.dropWhile_append]
  split
  next hempty => rw [hnone, trimWhile, List.isEmpty_iff.1 hempty]
  next => exact hback _

theorem trimWhile_append_left (ha : ∀ c ∈ a, p c) (s : List Char) :
    trimWhile p (a ++ s) = trimWhile p s := by
  simpa using trimWhile_append (b := []) ha (by simp) s

theorem trimWhile_append_right (hb : ∀ c ∈ b, p c) (s : List Char) :
    trimWhile p (s ++ b) = trimWhile p s :=
  trimWhile_append (a := []) (by simp) hb s

theorem trimWhile_trimWhile (p : Char → Bool) (s : List Char) :
    trimWhile p (trimWhile p s) = trimWhile p s := by
  obtain ⟨a, b, hs, ha, hb⟩ := exists_trimWhile p s
  calc trimWhile p (trimWhile p s)
      = trimWhile p (a ++ trimWhile p s ++ b) := (trimWhile_append ha hb _).symm
    _ = trimWhile p s := by rw [← hs]

theorem mem_of_mem_trimWhile {c : Char} (h : c ∈ trimWhile p s) : c ∈ s := by
  obtain ⟨a, b, hs, -, -⟩ := exists_trimWhile p s
  rw [hs]
  exact List.mem_append_left _ (List.mem_append_right _ h)

/-- Nothing is left exactly where every character may be taken away. -/
theorem trimWhile_eq_nil_iff : trimWhile p s = [] ↔ ∀ c ∈ s, p c := by
  constructor
  · intro hnil c hc
    obtain ⟨a, b, hs, ha, hb⟩ := exists_trimWhile p s
    rw [hs, hnil, List.append_nil] at hc
    exact (List.mem_append.1 hc).elim (ha c) (hb c)
  · intro h
    rw [← List.append_nil s, trimWhile_append_left h]
    rfl

theorem dropWhile_eq_self_iff : s.dropWhile p = s ↔ ∀ c ∈ s.head?, p c = false := by
  cases s with
  | nil => simp
  | cons c s => simp [List.dropWhile_eq_self_iff]

theorem dropEndWhile_eq_self_iff : dropEndWhile p s = s ↔ ∀ c ∈ s.getLast?, p c = false := by
  rw [dropEndWhile, List.reverse_eq_iff, dropWhile_eq_self_iff, List.head?_reverse]

theorem length_dropEndWhile_le : (dropEndWhile p s).length ≤ s.length := by
  have hsuffix : s.reverse.dropWhile p <:+ s.reverse := List.dropWhile_suffix p
  simpa [dropEndWhile] using hsuffix.length_le

/-- Nothing is trimmed exactly where neither end may be. -/
theorem trimWhile_eq_self_iff :
    trimWhile p s = s ↔ (∀ c ∈ s.head?, p c = false) ∧ ∀ c ∈ s.getLast?, p c = false := by
  rw [← dropWhile_eq_self_iff, ← dropEndWhile_eq_self_iff]
  constructor
  · intro h
    have hsuffix : s.dropWhile p <:+ s := List.dropWhile_suffix p
    have hlength : s.length ≤ (s.dropWhile p).length := by
      have hle : (trimWhile p s).length ≤ (s.dropWhile p).length := length_dropEndWhile_le
      rwa [h] at hle
    have hfront := hsuffix.eq_of_length_le hlength
    rw [trimWhile, hfront] at h
    exact ⟨hfront, h⟩
  · rintro ⟨hfront, hback⟩
    rw [trimWhile, hfront, hback]

/-- Nothing is trimmed where no character may be. -/
theorem trimWhile_eq_self (h : ∀ c ∈ s, p c = false) : trimWhile p s = s :=
  trimWhile_eq_self_iff.2 ⟨fun c hc => h c (List.mem_of_mem_head? hc),
    fun c hc => h c (List.mem_of_mem_getLast? hc)⟩

/-! ## Lines -/

theorem lines_break (hs : ∀ c ∈ s, isLineBreak c = false) (rest : List Char) :
    lines (s ++ '\n' :: rest) = s :: lines rest := by
  induction s with
  | nil => rfl
  | cons c s ih =>
    have hc : isLineBreak c = false := hs c (by simp)
    have hreturn : c ≠ '\r' := by
      rintro rfl
      simp [isLineBreak] at hc
    have htail := ih fun d hd => hs d (by simp [hd])
    rw [List.cons_append, lines]
    · simp [hc, htail]
    · exact fun r h _ => hreturn h

/-- No line has a boundary in it. -/
theorem unbroken_of_mem_lines {l : List Char} (h : l ∈ lines s) : ∀ c ∈ l, isLineBreak c = false := by
  induction s using lines.induct generalizing l with
  | case1 => cases h
  | case2 r ih =>
    rw [lines, List.mem_cons] at h
    obtain rfl | h := h
    · simp
    · exact ih h
  | case3 c r hpair hc ih =>
    rw [lines.eq_3 c r hpair, if_pos hc, List.mem_cons] at h
    obtain rfl | h := h
    · simp
    · exact ih h
  | case4 c r hpair hc hnone ih =>
    rw [lines.eq_3 c r hpair, if_neg hc, hnone, List.mem_singleton] at h
    subst h
    simpa using hc
  | case5 c r hpair hc k ks hrest ih =>
    rw [lines.eq_3 c r hpair, if_neg hc, hrest, List.mem_cons] at h
    rw [hrest] at ih
    obtain rfl | h := h
    · simpa [hc] using ih (List.mem_cons_self ..)
    · exact ih (List.mem_cons_of_mem _ h)

/-- Lines that are put together come back, unless the last is empty. -/
theorem lines_intercalate {ls : List (List Char)} (hls : ∀ l ∈ ls, ∀ c ∈ l, isLineBreak c = false)
    (hlast : ls.getLast? ≠ some []) : lines (['\n'].intercalate ls) = ls := by
  induction ls with
  | nil => rfl
  | cons l ls ih =>
    cases ls with
    | nil =>
      rw [List.intercalate_singleton]
      exact lines_of_no_break (hls l (List.mem_cons_self ..)) (by simpa using hlast)
    | cons m ls =>
      have htail := ih (fun k hk => hls k (List.mem_cons_of_mem _ hk)) (by simpa using hlast)
      rw [List.intercalate_cons_cons, List.append_assoc]
      exact (lines_break (hls l (List.mem_cons_self ..)) _).trans (congrArg _ htail)

theorem intercalate_concat {ls : List (List Char)} (hne : ls ≠ []) (l : List Char) :
    ['\n'].intercalate (ls ++ [l]) = ['\n'].intercalate ls ++ '\n' :: l := by
  induction ls with
  | nil => exact absurd rfl hne
  | cons m ls ih =>
    cases ls with
    | nil => simp
    | cons k ls =>
      have hrest := ih (List.cons_ne_nil k ls)
      rw [List.cons_append] at hrest
      simp [hrest]

/-- Of lines that begin with something and end with something, nothing is trimmed. -/
theorem trim_intercalate {ls : List (List Char)} (hne : ls ≠ [])
    (hfirst : ∀ l ∈ ls.head?, ∃ c r, l = c :: r ∧ isBlank c = false)
    (hlast : ∀ l ∈ ls.getLast?, ∃ r c, l = r ++ [c] ∧ isBlank c = false) :
    trim (['\n'].intercalate ls) = ['\n'].intercalate ls := by
  refine trimWhile_eq_self_iff.2 ⟨?_, ?_⟩
  · obtain ⟨l, rest, rfl⟩ := List.exists_cons_of_ne_nil hne
    obtain ⟨c, r, rfl, hc⟩ := hfirst l rfl
    rw [List.intercalate_cons_cons_left]
    simpa using hc
  · obtain rfl | ⟨front, l, rfl⟩ := ls.eq_nil_or_concat
    · exact absurd rfl hne
    · rw [List.concat_eq_append] at *
      obtain ⟨r, c, rfl, hc⟩ := hlast l (by simp)
      obtain rfl | hfront := eq_or_ne front []
      · simpa using hc
      · rw [intercalate_concat hfront, ← List.cons_append, ← List.append_assoc, List.getLast?_concat]
        simpa using hc

end Introspect.Text
