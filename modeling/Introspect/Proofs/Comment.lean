import Introspect.Comment
import Introspect.Proofs.Text.Trim

/-! Comments say the same in every style: the lines of a text come back from all the ways to write
them down, and what is left of any comment is a text without white space around it. -/
namespace Introspect.Comment
open Text

/-! ## Texts in comments -/

/-- A line that a comment can hold: one line without white space around, and no end of a block. -/
structure IsLine (l : String) : Prop where
  unbroken : ∀ c ∈ l.toList, isLineBreak c = false
  trimmed : trimmed l = l
  unclosed : endsWith "*/" l = false

/-- Lines of a text that begins and ends with something. -/
structure IsText (ls : List String) : Prop where
  lines : ∀ l ∈ ls, IsLine l
  nonempty : ls ≠ []
  first : ls.head? ≠ some ""
  last : ls.getLast? ≠ some ""

/-- White space in front of a line. -/
def IsIndent (s : String) : Prop := ∀ c ∈ s.toList, isBlank c = true ∧ isLineBreak c = false

/-- The ways to write a comment over several lines. -/
inductive Style where
  | slashes
  | exclaimed
  | pair
  | block

namespace Style

/-- What stands before each line. -/
def mark : Style → String
  | slashes => "/// "
  | exclaimed => "//! "
  | pair => "// "
  | block => " * "

/-- The lines of a text with their marks, and the ends of a block on lines of their own. -/
def marked (style : Style) (ls : List String) : List String :=
  match style with
  | block => "/**" :: ls.map (style.mark ++ ·) ++ [" */"]
  | _ => ls.map (style.mark ++ ·)

/-- A text as a comment with an indentation. -/
def write (style : Style) (indent : String) (ls : List String) : String :=
  "\n".intercalate ((style.marked ls).map (indent ++ ·))

end Style

/-- A line as a block of its own. -/
def writeLine (indent line : String) : String := indent ++ "/** " ++ line ++ " */"

variable {s l m : List Char}

/-! ## One line -/

theorem isBlank_of_all (h : s.all isBlank) : ∀ c ∈ s, isBlank c = true := List.all_eq_true.1 h

theorem unbroken_of_any (h : s.any isLineBreak = false) : ∀ c ∈ s, isLineBreak c = false := by
  simpa using h

theorem isIndent_of_all {indent : String}
    (h : indent.toList.all fun c => isBlank c && !isLineBreak c) : IsIndent indent := by
  simpa [IsIndent] using h

theorem cleanLine_congr (h : trim s = trim l) : cleanLine s = cleanLine l := by
  rw [cleanLine, cleanLine, h]

theorem cleanLine_indent {indent : List Char} (hindent : ∀ c ∈ indent, isBlank c = true)
    (s : List Char) : cleanLine (indent ++ s) = cleanLine s :=
  cleanLine_congr (trimWhile_append_left hindent s)

/-- A mark that is dropped as a whole when a blank follows, and leaves nothing when nothing does. -/
structure IsMark (m : List Char) : Prop where
  starts : ∃ c r, m = c :: r ∧ isBlank c = false
  drops : ∀ r, dropMark (m ++ ' ' :: r) = ' ' :: r
  vanishes : cleanLine m = []

theorem IsLine.starts {line : String} (h : IsLine line) (hne : line ≠ "") :
    ∃ c r, line.toList = c :: r ∧ isBlank c = false := by
  have htrimmed := congrArg String.toList h.trimmed
  rw [Text.trimmed, String.toList_ofList] at htrimmed
  obtain ⟨c, r, hchars⟩ := List.exists_cons_of_ne_nil (String.toList_eq_nil_iff.not.2 hne)
  exact ⟨c, r, hchars, (trimWhile_eq_self_iff.1 htrimmed).1 c (by simp [hchars])⟩

theorem IsLine.stops {line : String} (h : IsLine line) (hne : line ≠ "") :
    ∃ r c, line.toList = r ++ [c] ∧ isBlank c = false := by
  have htrimmed := congrArg String.toList h.trimmed
  rw [Text.trimmed, String.toList_ofList] at htrimmed
  obtain hnil | ⟨r, c, hchars⟩ := line.toList.eq_nil_or_concat
  · exact absurd (String.toList_eq_nil_iff.1 hnil) hne
  · rw [List.concat_eq_append] at hchars
    exact ⟨r, c, hchars, (trimWhile_eq_self_iff.1 htrimmed).2 c (by simp [hchars])⟩

theorem IsLine.not_suffix {line : String} (h : IsLine line) : ¬ ['*', '/'] <:+ line.toList := by
  rintro ⟨r, hr⟩
  have hline : line = String.ofList r ++ "*/" := String.toList_inj.1 (by simp [← hr])
  have hends : endsWith "*/" line = true := by
    rw [endsWith, beforeSuffix?_eq_some_iff.2 hline, Option.isSome_some]
  rw [h.unclosed] at hends
  cases hends

/-- Behind a blank a line does not come to end a block. -/
theorem IsLine.not_closed {line : String} (h : IsLine line) (m : List Char) :
    dropSuffix? ['*', '/'] (m ++ ' ' :: line.toList) = none := by
  rw [Option.eq_none_iff_forall_ne_some]
  intro r hr
  have hsuffix : ['*', '/'] <:+ m ++ ' ' :: line.toList := ⟨r, (dropSuffix?_eq_some_iff.1 hr).symm⟩
  obtain hclosed | hshort := List.suffix_or_suffix_of_suffix hsuffix (List.suffix_append m _)
  · obtain heq | hclosed := List.suffix_cons_iff.1 hclosed
    · simp at heq
    · exact h.not_suffix hclosed
  · simp [List.suffix_cons_iff] at hshort

/-- Behind a mark and a blank a line stays as it is. -/
theorem cleanLine_mark (hm : IsMark m) {line : String} (hline : IsLine line) :
    cleanLine (m ++ ' ' :: line.toList) = line.toList := by
  obtain ⟨c, r, rfl, hc⟩ := hm.starts
  obtain rfl | hne := eq_or_ne line ""
  · have htrim : trim (c :: r ++ [' ']) = trim (c :: r) :=
      trimWhile_append_right (isBlank_of_all (by decide)) _
    rw [String.toList_empty, cleanLine_congr htrim, hm.vanishes]
  · obtain ⟨front, d, hchars, hd⟩ := hline.stops hne
    have htrim : trim (c :: r ++ ' ' :: line.toList) = c :: r ++ ' ' :: line.toList := by
      refine trimWhile_eq_self_iff.2 ⟨by simpa using hc, ?_⟩
      rw [hchars, ← List.cons_append, ← List.append_assoc, List.getLast?_concat]
      simpa using hd
    have hfront : (c :: r ++ ' ' :: line.toList).dropWhile isBlank = c :: r ++ ' ' :: line.toList :=
      dropWhile_eq_self_iff.2 (by simpa using hc)
    have hback : trimEnd line.toList = line.toList :=
      dropEndWhile_eq_self_iff.2 (by simpa [hchars] using hd)
    have hblank : isBlank ' ' = true := by decide
    simp only [cleanLine, htrim, hline.not_closed, Option.getD_none, hfront, hm.drops, dropBlank,
      hblank, if_true, hback]

/-- Nothing is left of a block on one line but the line. -/
theorem cleanLine_block {line : String} (hline : IsLine line) (hne : line ≠ "") :
    cleanLine ('/' :: '*' :: '*' :: ' ' :: (line.toList ++ [' ', '*', '/'])) = line.toList := by
  obtain ⟨front, d, hchars, hd⟩ := hline.stops hne
  let opened := '/' :: '*' :: '*' :: ' ' :: (line.toList ++ [' '])
  have hwritten : '/' :: '*' :: '*' :: ' ' :: (line.toList ++ [' ', '*', '/']) =
      opened ++ ['*', '/'] := by simp [opened]
  have htrim : trim (opened ++ ['*', '/']) = opened ++ ['*', '/'] := by
    refine trimWhile_eq_self_iff.2 ⟨by simp [opened]; decide, by simp; decide⟩
  have hopened : dropSuffix? ['*', '/'] (opened ++ ['*', '/']) = some opened :=
    dropSuffix?_eq_some_iff.2 rfl
  have hfront : opened.dropWhile isBlank = opened :=
    dropWhile_eq_self_iff.2 (by simp [opened]; decide)
  have hdrop : dropMark opened = ' ' :: (line.toList ++ [' ']) := rfl
  have hback : trimEnd (line.toList ++ [' ']) = line.toList := by
    have hblank : dropEndWhile isBlank (line.toList ++ [' ']) = dropEndWhile isBlank line.toList := by
      simp [dropEndWhile, show isBlank ' ' = true by decide]
    rw [trimEnd, hblank]
    exact dropEndWhile_eq_self_iff.2 (by simpa [hchars] using hd)
  have hblank : isBlank ' ' = true := by decide
  rw [hwritten]
  simp only [cleanLine, htrim, hopened, Option.getD_some, hfront, hdrop, dropBlank, hblank, if_true,
    hback]

/-! ## All lines -/

theorem isMark_slashes : IsMark ['/', '/', '/'] :=
  ⟨⟨'/', _, rfl, by decide⟩, fun _ => rfl, by decide⟩

theorem isMark_exclaimed : IsMark ['/', '/', '!'] :=
  ⟨⟨'/', _, rfl, by decide⟩, fun _ => rfl, by decide⟩

theorem isMark_pair : IsMark ['/', '/'] :=
  ⟨⟨'/', _, rfl, by decide⟩, fun _ => rfl, by decide⟩

theorem isMark_star : IsMark ['*'] :=
  ⟨⟨'*', _, rfl, by decide⟩, fun _ => rfl, by decide⟩

theorem cleanLine_marked (style : Style) {line : String} (hline : IsLine line) :
    cleanLine (style.mark ++ line).toList = line.toList := by
  rw [String.toList_append]
  cases style with
  | slashes => exact cleanLine_mark isMark_slashes hline
  | exclaimed => exact cleanLine_mark isMark_exclaimed hline
  | pair => exact cleanLine_mark isMark_pair hline
  | block =>
    have hindent : [' '].all isBlank := by decide
    exact (cleanLine_indent (isBlank_of_all hindent) _).trans (cleanLine_mark isMark_star hline)

/-- Lines that are written with an indentation are cleaned each for itself. -/
theorem map_cleanLine_lines {indent : List Char} {ws : List (List Char)}
    (hindent : ∀ c ∈ indent, isBlank c = true ∧ isLineBreak c = false) (hne : ws ≠ [])
    (hws : ∀ w ∈ ws, ∀ c ∈ w, isLineBreak c = false)
    (hfirst : ∀ w ∈ ws.head?, ∃ c r, w = c :: r ∧ isBlank c = false)
    (hlast : ∀ w ∈ ws.getLast?, ∃ r c, w = r ++ [c] ∧ isBlank c = false) :
    (lines (trim (['\n'].intercalate (ws.map (indent ++ ·))))).map cleanLine = ws.map cleanLine := by
  obtain ⟨w, rest, rfl⟩ := List.exists_cons_of_ne_nil hne
  have hblank : ∀ c ∈ indent, isBlank c = true := fun c hc => (hindent c hc).1
  -- The indentation of the first line is trimmed with the text, that of the others with their lines.
  let core := w :: rest.map (indent ++ ·)
  have hcore : ['\n'].intercalate ((w :: rest).map (indent ++ ·)) =
      indent ++ ['\n'].intercalate core := by
    cases rest <;> simp [core]
  have hends : ∀ v ∈ core.getLast?, ∃ r c, v = r ++ [c] ∧ isBlank c = false := by
    intro v hv
    obtain rfl | ⟨front, x, rfl⟩ := rest.eq_nil_or_concat
    · exact hlast v hv
    · have hcore : core = (w :: front.map (indent ++ ·)) ++ [indent ++ x] := by simp [core]
      have hx : x ∈ (w :: front.concat x).getLast? := by
        rw [List.concat_eq_append, ← List.cons_append, List.getLast?_concat, Option.mem_some_iff]
      obtain ⟨r, c, rfl, hc⟩ := hlast x hx
      rw [hcore, List.getLast?_concat, Option.mem_some_iff] at hv
      exact ⟨indent ++ r, c, by rw [← hv, List.append_assoc], hc⟩
  have htrim : trim (indent ++ ['\n'].intercalate core) = ['\n'].intercalate core :=
    (trimWhile_append_left hblank _).trans
      (trim_intercalate (by simp [core]) hfirst hends)
  have hlines : lines (['\n'].intercalate core) = core := by
    refine lines_intercalate (fun v hv c hc => ?_) fun hnil => ?_
    · obtain rfl | hv := List.mem_cons.1 hv
      · exact hws v (List.mem_cons_self ..) c hc
      · obtain ⟨x, hx, rfl⟩ := List.mem_map.1 hv
        obtain hc | hc := List.mem_append.1 hc
        · exact (hindent c hc).2
        · exact hws x (List.mem_cons_of_mem _ hx) c hc
    · obtain ⟨r, c, hr, -⟩ := hends [] hnil
      simp at hr
  rw [hcore, htrim, hlines]
  simp [core, cleanLine_indent hblank]

/-! ## Whole comments -/

variable {ls : List String}

/-- Of the lines of a text nothing is trimmed. -/
theorem IsText.trim (h : IsText ls) :
    Text.trim (['\n'].intercalate (ls.map String.toList)) =
      ['\n'].intercalate (ls.map String.toList) := by
  refine trim_intercalate (by simpa using h.nonempty) (fun s hs => ?_) fun s hs => ?_
  · obtain ⟨l, hl, rfl⟩ := Option.map_eq_some_iff.1 (List.head?_map .. ▸ hs)
    exact (h.lines l (List.mem_of_mem_head? hl)).starts fun hempty => h.first (hempty ▸ hl)
  · obtain ⟨l, hl, rfl⟩ := Option.map_eq_some_iff.1 (List.getLast?_map .. ▸ hs)
    exact (h.lines l (List.mem_of_mem_getLast? hl)).stops fun hempty => h.last (hempty ▸ hl)

theorem IsText.intercalate_ne_nil (h : IsText ls) :
    ['\n'].intercalate (ls.map String.toList) ≠ [] := by
  obtain ⟨l, rest, rfl⟩ := List.exists_cons_of_ne_nil h.nonempty
  obtain ⟨c, r, hchars, -⟩ := (h.lines l (List.mem_cons_self ..)).starts fun hempty =>
    h.first (hempty ▸ rfl)
  rw [List.map_cons, hchars, List.intercalate_cons_cons_left]
  exact List.cons_ne_nil c _

/-- A comment is cleaned to a text when its cleaned lines are the text with white space around. -/
theorem clean_of_lines {raw : String} {a b : List Char} (h : IsText ls)
    (ha : ∀ c ∈ a, isBlank c = true) (hb : ∀ c ∈ b, isBlank c = true)
    (hlines : ['\n'].intercalate ((lines (Text.trim raw.toList)).map cleanLine) =
      a ++ ['\n'].intercalate (ls.map String.toList) ++ b) :
    clean raw = some ("\n".intercalate ls) := by
  have htext : Text.trim (['\n'].intercalate ((lines (Text.trim raw.toList)).map cleanLine)) =
      ['\n'].intercalate (ls.map String.toList) := by
    rw [hlines]
    exact (trimWhile_append ha hb _).trans h.trim
  have hwritten : String.ofList (['\n'].intercalate (ls.map String.toList)) = "\n".intercalate ls :=
    String.toList_inj.1 (by rw [String.toList_ofList, String.toList_intercalate]; rfl)
  simp only [clean, htext, List.isEmpty_iff, h.intercalate_ne_nil, if_false, hwritten]

theorem toList_indented (indent : String) (ws : List String) :
    ("\n".intercalate (ws.map (indent ++ ·))).toList =
      ['\n'].intercalate ((ws.map String.toList).map (indent.toList ++ ·)) := by
  rw [String.toList_intercalate, List.map_map, List.map_map]
  congr 1
  exact List.map_congr_left fun w _ => String.toList_append

/-- The lines of a comment start and end with a mark or with a line of the text. -/
theorem Style.starts (style : Style) (h : IsText ls) :
    ∀ w ∈ (style.marked ls).head?, ∃ c r, w.toList = c :: r ∧ isBlank c = false := by
  obtain ⟨l, rest, rfl⟩ := List.exists_cons_of_ne_nil h.nonempty
  intro w hw
  cases style <;> obtain rfl := Option.some_inj.1 hw
  case block => exact ⟨'/', _, rfl, by decide⟩
  all_goals exact ⟨'/', _, String.toList_append, by decide⟩

theorem Style.stops (style : Style) (h : IsText ls) :
    ∀ w ∈ (style.marked ls).getLast?, ∃ r c, w.toList = r ++ [c] ∧ isBlank c = false := by
  -- The last line of the text is not empty, so that no blank of its mark stands last.
  have hmarked (m : String) :
      ∀ w ∈ (ls.map (m ++ ·)).getLast?, ∃ r c, w.toList = r ++ [c] ∧ isBlank c = false := by
    intro w hw
    obtain ⟨l, hl, rfl⟩ := Option.map_eq_some_iff.1 (List.getLast?_map .. ▸ hw)
    obtain ⟨r, c, hchars, hc⟩ :=
      (h.lines l (List.mem_of_mem_getLast? hl)).stops fun hempty => h.last (hempty ▸ hl)
    exact ⟨m.toList ++ r, c, by rw [String.toList_append, hchars, List.append_assoc], hc⟩
  cases style with
  | block =>
    intro w hw
    rw [marked, List.getLast?_concat, Option.mem_some_iff] at hw
    exact ⟨[' ', '*'], '/', by rw [← hw]; rfl, by decide⟩
  | slashes => exact hmarked _
  | exclaimed => exact hmarked _
  | pair => exact hmarked _

theorem Style.unbroken (style : Style) (h : IsText ls) :
    ∀ w ∈ style.marked ls, ∀ c ∈ w.toList, isLineBreak c = false := by
  have hmarked (m : String) (hm : m.toList.any isLineBreak = false) :
      ∀ w ∈ ls.map (m ++ ·), ∀ c ∈ w.toList, isLineBreak c = false := by
    intro w hw c hc
    obtain ⟨l, hl, rfl⟩ := List.mem_map.1 hw
    rw [String.toList_append, List.mem_append] at hc
    exact hc.elim (unbroken_of_any hm c) ((h.lines l hl).unbroken c)
  cases style with
  | block =>
    intro w hw
    obtain hw | hw := List.mem_append.1 hw
    · obtain rfl | hw := List.mem_cons.1 hw
      · exact unbroken_of_any (by decide)
      · exact hmarked _ (by decide) w hw
    · rw [List.mem_singleton.1 hw]
      exact unbroken_of_any (by decide)
  | slashes => exact hmarked _ (by decide)
  | exclaimed => exact hmarked _ (by decide)
  | pair => exact hmarked _ (by decide)

/-- The marked lines are cleaned to the lines of the text, and the ends of a block to nothing. -/
theorem Style.exists_cleaned (style : Style) (h : IsText ls) : ∃ a b,
    ['\n'].intercalate (((style.marked ls).map String.toList).map cleanLine) =
      a ++ ['\n'].intercalate (ls.map String.toList) ++ b ∧
    (∀ c ∈ a, isBlank c = true) ∧ ∀ c ∈ b, isBlank c = true := by
  have hmarked : ((ls.map (style.mark ++ ·)).map String.toList).map cleanLine =
      ls.map String.toList := by
    rw [List.map_map, List.map_map, List.map_inj_left]
    intro l hl
    rw [Function.comp_apply, Function.comp_apply]
    exact cleanLine_marked style (h.lines l hl)
  have hplain : ['\n'].intercalate (((ls.map (style.mark ++ ·)).map String.toList).map cleanLine) =
      [] ++ ['\n'].intercalate (ls.map String.toList) ++ [] := by
    rw [hmarked, List.nil_append, List.append_nil]
  cases style with
  | block =>
    have hbreak : ∀ c ∈ ['\n'], isBlank c = true := isBlank_of_all (by decide)
    refine ⟨['\n'], ['\n'], ?_, hbreak, hbreak⟩
    obtain ⟨l, rest, rfl⟩ := List.exists_cons_of_ne_nil h.nonempty
    have hstart : cleanLine "/**".toList = [] := by decide
    have hstop : cleanLine " */".toList = [] := by decide
    rw [marked, List.map_append, List.map_append, List.map_cons, List.map_cons, hmarked, hstart,
      List.map_singleton, List.map_singleton, hstop, intercalate_concat (by simp)]
    simp
  | slashes => exact ⟨[], [], hplain, by simp, by simp⟩
  | exclaimed => exact ⟨[], [], hplain, by simp, by simp⟩
  | pair => exact ⟨[], [], hplain, by simp, by simp⟩

theorem clean_write_of_isText {indent : String} (style : Style) (hindent : IsIndent indent)
    (h : IsText ls) : clean (style.write indent ls) = some ("\n".intercalate ls) := by
  obtain ⟨a, b, hcleaned, ha, hb⟩ := style.exists_cleaned h
  refine clean_of_lines h ha hb ?_
  rw [Style.write, toList_indented, map_cleanLine_lines hindent, hcleaned]
  · cases style <;> simp [Style.marked, h.nonempty]
  · simpa using style.unbroken h
  · intro w hw
    obtain ⟨v, hv, rfl⟩ := Option.map_eq_some_iff.1 (List.head?_map .. ▸ hw)
    exact style.starts h v hv
  · intro w hw
    obtain ⟨v, hv, rfl⟩ := Option.map_eq_some_iff.1 (List.getLast?_map .. ▸ hw)
    exact style.stops h v hv

theorem clean_writeLine {indent l : String} (hindent : IsIndent indent) (h : IsText [l]) :
    clean (writeLine indent l) = some l := by
  have hline : IsLine l := h.lines l (List.mem_singleton_self l)
  have hne : l ≠ "" := fun hempty => h.first (hempty ▸ rfl)
  let w := ['/', '*', '*', ' '] ++ (l.toList ++ [' ', '*', '/'])
  have hwritten : (writeLine indent l).toList =
      ['\n'].intercalate ([w].map (indent.toList ++ ·)) := by
    simp [writeLine, w]
  have hunbroken : ∀ c ∈ w, isLineBreak c = false := by
    simp only [w, List.forall_mem_append]
    exact ⟨unbroken_of_any (by decide), hline.unbroken, unbroken_of_any (by decide)⟩
  have hone : clean (writeLine indent l) = some ("\n".intercalate [l]) := by
    refine clean_of_lines (a := []) (b := []) h (by simp) (by simp) ?_
    rw [hwritten, map_cleanLine_lines hindent (by simp) (by simpa using hunbroken)]
    · simp [w, cleanLine_block hline hne]
    · exact fun v hv => ⟨'/', _, (Option.some_inj.1 hv).symm, by decide⟩
    · rintro v hv
      obtain rfl : w = v := Option.some_inj.1 hv
      exact ⟨['/', '*', '*', ' '] ++ (l.toList ++ [' ', '*']), '/', by simp [w], by decide⟩
  simpa using hone

/-- What is left of a comment has neither nothing in it nor white space around it. -/
theorem trimmed_of_clean {raw t : String} (h : clean raw = some t) : t ≠ "" ∧ Text.trimmed t = t := by
  simp only [clean, Option.ite_none_left_eq_some, Option.some.injEq, List.isEmpty_iff] at h
  obtain ⟨hne, rfl⟩ := h
  refine ⟨fun hempty => hne ?_, ?_⟩
  · simpa using congrArg String.toList hempty
  · rw [Text.trimmed, String.toList_ofList, Text.trim, Text.trim, trimWhile_trimWhile]

/-- A text comes back from a comment in every style and with every indentation, and what comes from
any comment is a text without white space around it. -/
theorem clean_write :
    (∀ style indent ls, IsIndent indent → IsText ls →
      clean (Style.write style indent ls) = some ("\n".intercalate ls)) ∧
    (∀ indent l, IsIndent indent → IsText [l] → clean (writeLine indent l) = some l) ∧
    ∀ raw : Option String, ∀ t ∈ raw.bind clean, t ≠ "" ∧ Text.trimmed t = t :=
  ⟨fun style _ _ hindent h => clean_write_of_isText style hindent h,
    fun _ _ hindent h => clean_writeLine hindent h,
    fun _ _ ht => have ⟨_, _, h⟩ := Option.bind_eq_some_iff.1 ht; trimmed_of_clean h⟩

/-- A text with an empty line and with a line that looks like a mark itself. -/
theorem clean_write_health :
    clean "  /**\n   * Player health.\n   * \n   * * Clamped to zero.\n   */" =
      some "Player health.\n\n* Clamped to zero." ∧
    clean "  /// Player health.\n  /// \n  /// * Clamped to zero." =
      some "Player health.\n\n* Clamped to zero." ∧
    clean "\t/** Speed in m/s. */" = some "Speed in m/s." ∧
    "Speed in m/s." ≠ "" ∧ Text.trimmed "Speed in m/s." = "Speed in m/s." := by
  have hhealth : IsText ["Player health.", "", "* Clamped to zero."] := by
    refine ⟨?_, by simp, by decide, by decide⟩
    simp only [List.forall_mem_cons]
    exact ⟨⟨unbroken_of_any (by decide), by decide, by decide⟩,
      ⟨unbroken_of_any (by decide), by decide, by decide⟩,
      ⟨unbroken_of_any (by decide), by decide, by decide⟩, by simp⟩
  have hspeed : IsText ["Speed in m/s."] := by
    refine ⟨?_, by simp, by decide, by decide⟩
    simp only [List.forall_mem_singleton]
    exact ⟨unbroken_of_any (by decide), by decide, by decide⟩
  have htab : IsIndent "\t" := isIndent_of_all (by decide)
  have hindent : IsIndent "  " := isIndent_of_all (by decide)
  have hline := clean_write.2.1 "\t" "Speed in m/s." htab hspeed
  have hblock : Style.block.write "  " ["Player health.", "", "* Clamped to zero."] =
      "  /**\n   * Player health.\n   * \n   * * Clamped to zero.\n   */" := by decide
  have hslashes : Style.slashes.write "  " ["Player health.", "", "* Clamped to zero."] =
      "  /// Player health.\n  /// \n  /// * Clamped to zero." := by decide
  have htext : "\n".intercalate ["Player health.", "", "* Clamped to zero."] =
      "Player health.\n\n* Clamped to zero." := by decide
  have hbrief : writeLine "\t" "Speed in m/s." = "\t/** Speed in m/s. */" := by decide
  have hmem : "Speed in m/s." ∈ (some (writeLine "\t" "Speed in m/s.")).bind clean := by
    rw [Option.bind_some, hline, Option.mem_some_iff]
  rw [← hblock, ← hslashes, ← htext, ← hbrief]
  exact ⟨clean_write.1 .block "  " _ hindent hhealth, clean_write.1 .slashes "  " _ hindent hhealth,
    hline, clean_write.2.2 _ _ hmem⟩

end Introspect.Comment
