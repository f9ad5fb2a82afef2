import Introspect.Proofs.Emission.Layout
import Introspect.Proofs.Text.Trim

/-! The lines that code comes to, and that its text has just these lines. -/
namespace Introspect
open Text

namespace Emission

/-- A line with the suffix behind it. A blank one is the suffix alone. -/
def ended (suffix text : String) : String :=
  if text.isEmpty then trimmed suffix else text ++ suffix

@[simp] theorem ended_empty (text : String) : ended "" text = text := by
  unfold ended
  cases hempty : text.isEmpty with
  | true =>
    rw [String.isEmpty_iff.1 hempty]
    rfl
  | false => simp

namespace Code

mutual
/-- The lines of a piece of code from the left margin on, as they were given to the writer. -/
def lines (suffix : String) : Code → List String
  | .line text => [ended suffix text]
  | .indented _ body => linesAll suffix body
  | .block opener openText closeText body =>
    ended suffix opener :: ended suffix openText ::
      (linesAll suffix body ++ [ended suffix closeText])
  | .postfixed suffix body => linesAll suffix body
def linesAll (suffix : String) : List Code → List String
  | [] => []
  | c :: cs => lines suffix c ++ linesAll suffix cs
end

variable {suffix : String}

@[simp] theorem lines_line (text : String) : (line text).lines suffix = [ended suffix text] := rfl

@[simp] theorem lines_blank : blank.lines "" = [""] := by decide

@[simp] theorem linesAll_nil : linesAll suffix [] = [] := rfl

@[simp] theorem linesAll_cons (c : Code) (cs : List Code) :
    linesAll suffix (c :: cs) = c.lines suffix ++ linesAll suffix cs := rfl

@[simp] theorem linesAll_append (a b : List Code) :
    linesAll suffix (a ++ b) = linesAll suffix a ++ linesAll suffix b := by
  induction a with
  | nil => rfl
  | cons c a ih => simp [ih]

theorem mem_linesAll {l : String} {cs : List Code} :
    l ∈ linesAll suffix cs ↔ ∃ c ∈ cs, l ∈ c.lines suffix := by
  induction cs with
  | nil => simp
  | cons c cs ih => simp [ih]

theorem linesAll_flatMap {α : Type} (l : List α) (f : α → List Code) :
    linesAll suffix (l.flatMap f) = l.flatMap fun a => linesAll suffix (f a) := by
  induction l with
  | nil => rfl
  | cons a l ih => rw [List.flatMap_cons, List.flatMap_cons, linesAll_append, ih]

@[simp] theorem linesAll_map_line (l : List String) :
    linesAll suffix (l.map fun t => .line t) = l.map (ended suffix) := by
  induction l with
  | nil => rfl
  | cons t l ih => rw [List.map_cons, List.map_cons, linesAll_cons, ih]; rfl

/-- All lines of the code have a property. -/
def AllLines (P : String → Prop) (code : List Code) : Prop := ∀ l ∈ linesAll "" code, P l

variable {P : String → Prop} {a b body : List Code}

theorem AllLines.nil : AllLines P [] := by simp [AllLines]

theorem AllLines.append (ha : AllLines P a) (hb : AllLines P b) : AllLines P (a ++ b) := by
  intro l hl
  rw [linesAll_append, List.mem_append] at hl
  exact hl.elim (ha l) (hb l)

theorem AllLines.line_cons {text : String} (htext : P text) (h : AllLines P body) :
    AllLines P (.line text :: body) := by
  intro l hl
  obtain rfl | hl := List.mem_cons.1 hl
  · rwa [ended_empty]
  · exact h l hl

theorem AllLines.scope {name : String} (hname : P ("namespace " ++ name)) (hopen : P "\x7b")
    (hclose : P "\x7d") (h : AllLines P body) : AllLines P [Code.scope name body] := by
  intro l hl
  rw [linesAll_cons, linesAll_nil, List.append_nil, Code.scope] at hl
  split at hl
  · exact h l hl
  · simp only [braced, lines, ended_empty, List.mem_cons, List.mem_append, List.not_mem_nil,
      or_false] at hl
    obtain rfl | rfl | hl | rfl := hl
    · exact hname
    · exact hopen
    · exact h l hl
    · exact hclose

theorem AllLines.ite {p : Prop} [Decidable p] (ha : AllLines P a) (hb : AllLines P b) :
    AllLines P (if p then a else b) := by
  split
  · exact ha
  · exact hb

theorem AllLines.flatMap {α : Type} {l : List α} {f : α → List Code}
    (h : ∀ a ∈ l, AllLines P (f a)) : AllLines P (l.flatMap f) := by
  intro k hk
  rw [linesAll_flatMap, List.mem_flatMap] at hk
  obtain ⟨a, ha, hk⟩ := hk
  exact h a ha k hk

end Code

/-- The line is no several lines. -/
def Unbroken (l : String) : Prop := ∀ c ∈ l.toList, isLineBreak c = false

instance (l : String) : Decidable (Unbroken l) := List.decidableBAll _ l.toList

/-- The line without the tabulators in front. -/
def unindent (l : String) : String := String.ofList (l.toList.dropWhile (· == '\t'))

/-! ## Lines and texts -/

theorem head?_toList_append {s : String} {c : Char} (h : s.toList.head? = some c) (rest : String) :
    (s ++ rest).toList.head? = some c := by
  rw [String.toList_append, List.head?_append, h, Option.some_or]

theorem getLast?_toList_append (front : String) {s : String} {c : Char}
    (h : s.toList.getLast? = some c) : (front ++ s).toList.getLast? = some c := by
  rw [String.toList_append, List.getLast?_append, h, Option.some_or]

/-- Of two ways to put a text together, one begins with all that the other begins with. -/
theorem append_eq_append_iff {s s' t t' : String} : s ++ t = s' ++ t' ↔
    (∃ a, s' = s ++ a ∧ t = a ++ t') ∨ ∃ a, s = s' ++ a ∧ t' = a ++ t := by
  constructor
  · intro h
    have hlists : s.toList ++ t.toList = s'.toList ++ t'.toList := by
      rw [← String.toList_append, h, String.toList_append]
    obtain ⟨a, hs, ht⟩ | ⟨a, hs, ht⟩ := List.append_eq_append_iff.1 hlists
    · exact .inl ⟨String.ofList a, String.toList_inj.1 (by simp [hs]),
        String.toList_inj.1 (by simp [ht])⟩
    · exact .inr ⟨String.ofList a, String.toList_inj.1 (by simp [hs]),
        String.toList_inj.1 (by simp [ht])⟩
  · rintro (⟨a, rfl, rfl⟩ | ⟨a, rfl, rfl⟩) <;> simp [String.append_assoc]

/-- A text that ends every line has these lines. -/
theorem linesOf_intercalate {ls : List String} (hls : ∀ l ∈ ls, Unbroken l) (hne : ls ≠ []) :
    linesOf ("\n".intercalate ls ++ "\n") = ls := by
  induction ls with
  | nil => exact absurd rfl hne
  | cons l ls ih =>
    have hl := lines_break (hls l (by simp))
    cases ls with
    | nil =>
      rw [linesOf, String.intercalate_singleton, String.toList_append]
      have hline : Text.lines (l.toList ++ "\n".toList) = [l.toList] := hl []
      rw [hline]
      simp
    | cons m ls =>
      have htail := ih (fun k hk => hls k (by simp [hk])) (by simp)
      rw [linesOf] at htail ⊢
      rw [String.intercalate_cons_cons, String.append_assoc, String.append_assoc,
        String.toList_append, String.toList_append]
      have hline : Text.lines (l.toList ++ ("\n".toList ++
          ("\n".intercalate (m :: ls) ++ "\n").toList)) =
            l.toList :: Text.lines ("\n".intercalate (m :: ls) ++ "\n").toList := hl _
      rw [hline, List.map_cons, htail, String.ofList_toList]

@[simp] theorem unbroken_append {s t : String} : Unbroken (s ++ t) ↔ Unbroken s ∧ Unbroken t := by
  simp only [Unbroken, String.toList_append, List.mem_append]
  exact ⟨fun h => ⟨fun c hc => h c (.inl hc), fun c hc => h c (.inr hc)⟩,
    fun h c hc => hc.elim (h.1 c) (h.2 c)⟩

theorem linesOf_unbroken {s : String} (h : Unbroken s) (hs : s ≠ "") : linesOf s = [s] := by
  have hne : s.toList ≠ [] := fun hnil => hs (String.toList_inj.1 hnil)
  rw [linesOf, lines_of_no_break h hne, List.map_singleton, String.ofList_toList]

theorem lines_ne_nil {s : List Char} (hs : s ≠ []) : Text.lines s ≠ [] := by
  cases s using Text.lines.fun_cases_unfolding <;> simp_all

/-- A text that goes on behind a line boundary has more than one line. -/
theorem two_le_length_lines {s : List Char} {d : Char} (hs : ∃ c ∈ s, isLineBreak c)
    (hlast : s.getLast? = some d) (hd : isLineBreak d = false) : 2 ≤ (Text.lines s).length := by
  have hmore {r : List Char} (hr : r ≠ []) : 1 ≤ (Text.lines r).length :=
    List.length_pos_iff.2 (lines_ne_nil hr)
  induction s using Text.lines.induct with
  | case1 => simp at hs
  | case2 r ih =>
    have hr : r ≠ [] := by
      rintro rfl
      cases hlast
      cases hd
    rw [Text.lines, List.length_cons]
    exact Nat.succ_le_succ (hmore hr)
  | case3 c r hpair hc ih =>
    have hr : r ≠ [] := by
      rintro rfl
      obtain rfl : c = d := Option.some.inj hlast
      rw [hc] at hd
      cases hd
    rw [Text.lines.eq_3 c r hpair, if_pos hc, List.length_cons]
    exact Nat.succ_le_succ (hmore hr)
  | case4 c r hpair hc hnone ih =>
    obtain rfl : r = [] := Decidable.byContradiction fun hr => lines_ne_nil hr hnone
    obtain ⟨e, he, hbreak⟩ := hs
    obtain rfl := List.mem_singleton.1 he
    exact absurd hbreak hc
  | case5 c r hpair hc l ls hrest ih =>
    have hr : r ≠ [] := by
      rintro rfl
      cases hrest
    have hin : ∃ e ∈ r, isLineBreak e := by
      obtain ⟨e, he, hbreak⟩ := hs
      obtain rfl | he := List.mem_cons.1 he
      · exact absurd hbreak hc
      · exact ⟨e, he, hbreak⟩
    rw [List.getLast?_cons_of_ne_nil hr] at hlast
    have htail := ih hin hlast
    rw [Text.lines.eq_3 c r hpair, if_neg hc, hrest]
    rwa [hrest] at htail

/-- A text that ends no line has just one if it is unbroken. -/
theorem unbroken_of_length_linesOf {text : String} {d : Char} (hlast : text.toList.getLast? = some d)
    (hd : isLineBreak d = false) (h : (linesOf text).length = 1) : Unbroken text := by
  intro c hc
  refine eq_false_of_ne_true fun hbreak => ?_
  have htwo := two_le_length_lines ⟨c, hc, hbreak⟩ hlast hd
  rw [linesOf, List.length_map] at h
  omega

theorem length_linesOf_pos {text : String} (h : text ≠ "") : 0 < (linesOf text).length := by
  rw [linesOf, List.length_map]
  exact List.length_pos_iff.2 (lines_ne_nil fun hnil => h (String.toList_inj.1 hnil))

theorem unbroken_of_mem_linesOf {text l : String} (h : l ∈ linesOf text) : Unbroken l := by
  obtain ⟨cs, hcs, rfl⟩ := List.mem_map.1 h
  simpa [Unbroken] using unbroken_of_mem_lines hcs

theorem unbroken_trimmed {s : String} (h : Unbroken s) : Unbroken (trimmed s) := by
  intro c hc
  rw [trimmed, String.toList_ofList] at hc
  exact h c (mem_of_mem_trimWhile hc)

private theorem unindent_append {tabs l : String} (h : ∀ c ∈ tabs.toList, c = '\t') :
    unindent (tabs ++ l) = unindent l := by
  rw [unindent, String.toList_append, List.dropWhile_append_of_pos (by simpa using h), unindent]

/-! ## Lines in their places -/

private theorem mem_margin {n : Nat} {indent : String} {c : Char}
    (h : c ∈ (String.join (List.replicate n indent)).toList) : c ∈ indent.toList := by
  rw [String.toList_join] at h
  obtain ⟨one, hone, hc⟩ := List.mem_flatMap.1 h
  rwa [List.eq_of_mem_replicate hone] at hc

/-- The places hold these lines, apart from the tabulators in front, and none that is broken. -/
structure Fits (rows : List Row) (ls : List String) : Prop where
  lines : rows.map (fun row => unindent (row.shown "\t")) = ls.map unindent
  unbroken : ∀ row ∈ rows, Unbroken (row.shown "\t")

private theorem Fits.append {rows rows' : List Row} {ls ls' : List String} (h : Fits rows ls)
    (h' : Fits rows' ls') : Fits (rows ++ rows') (ls ++ ls') where
  lines := by rw [List.map_append, h.lines, h'.lines, List.map_append]
  unbroken row hrow := (List.mem_append.1 hrow).elim (h.unbroken row) (h'.unbroken row)

private theorem fits_rowsOf {suffix text : String} (h : Unbroken (ended suffix text))
    (depth : Int) : Fits (rowsOf depth suffix text) [ended suffix text] := by
  unfold ended at h ⊢
  unfold rowsOf
  cases hempty : text.isEmpty with
  | true =>
    rw [hempty, if_pos rfl] at h
    exact ⟨rfl, by simpa [Row.shown] using h⟩
  | false =>
    rw [hempty, if_neg (by simp), unbroken_append] at h
    have hline : linesOf text = [text] := linesOf_unbroken h.1 (by rintro rfl; simp at hempty)
    have htabs : ∀ c ∈ (String.join (List.replicate depth.toNat "\t")).toList, c = '\t' :=
      fun c hc => List.mem_singleton.1 (mem_margin hc)
    simp only [Bool.false_eq_true, if_false, hline]
    refine ⟨?_, ?_⟩
    · simp only [List.map_cons, List.map_nil, Row.shown, String.append_assoc,
        unindent_append htabs]
    · simp only [List.map_cons, List.map_nil, List.mem_singleton, forall_eq, Row.shown]
      refine unbroken_append.2 ⟨unbroken_append.2 ⟨fun c hc => ?_, h.1⟩, h.2⟩
      rw [htabs c hc]
      rfl

mutual
private theorem fits_rows (c : Code) {suffix : String} (h : ∀ l ∈ c.lines suffix, Unbroken l)
    (depth : Int) : Fits (c.rows depth suffix) (c.lines suffix) := by
  match c with
  | .line text => exact fits_rowsOf (h _ (by simp)) depth
  | .indented levels body => exact fits_rowsAll body h (depth + levels)
  | .block opener openText closeText body =>
    simp only [Code.lines, List.mem_cons, List.mem_append, forall_eq_or_imp, List.not_mem_nil,
      or_false] at h
    obtain ⟨hopener, hopen, hrest⟩ := h
    have hbody := fits_rowsAll body (fun l hl => hrest l (.inl hl)) (depth + 1)
    have hclose := fits_rowsOf (hrest _ (.inr rfl)) depth
    have hfront := (fits_rowsOf hopener depth).append (fits_rowsOf hopen depth)
    have hall := (hfront.append hbody).append hclose
    rwa [List.append_assoc _ _ [_]] at hall
  | .postfixed suffix body => exact fits_rowsAll body h depth
private theorem fits_rowsAll (cs : List Code) {suffix : String}
    (h : ∀ l ∈ Code.linesAll suffix cs, Unbroken l) (depth : Int) :
    Fits (Code.rowsAll depth suffix cs) (Code.linesAll suffix cs) := by
  match cs with
  | [] => exact ⟨rfl, by simp⟩
  | c :: cs =>
    exact (fits_rows c (fun l hl => h l (List.mem_append_left _ hl)) depth).append
      (fits_rowsAll cs (fun l hl => h l (List.mem_append_right _ hl)) depth)
end

/-! ## The writer -/

namespace Writer
variable {w : Writer}

/-- What was written stays. -/
theorem prefix_writeAll (w : Writer) (cs : List Code) : w.lines <+: (w.writeAll cs).lines := by
  rw [writeAll_eq]
  exact List.prefix_append ..

private theorem writeAll_append (w : Writer) (a b : List Code) :
    w.writeAll (a ++ b) = (w.writeAll a).writeAll b := by
  induction a generalizing w with
  | nil => rfl
  | cons c a ih => exact ih (w.write c)

/-- Lines are written one after another, each broken where its text is. -/
theorem lines_writeAll (w : Writer) {texts : List String} (h : ∀ t ∈ texts, t ≠ "") :
    (w.writeAll (texts.map fun t => .line t)).lines =
      w.lines ++ texts.flatMap fun t => (linesOf t).map fun l => w.margin ++ l ++ w.suffix := by
  rw [writeAll_eq, lines_written]
  congr 1
  induction texts with
  | nil => rfl
  | cons t texts ih =>
    have ht : t.isEmpty = false := by simpa using h t (List.mem_cons_self ..)
    have hrest := ih fun u hu => h u (List.mem_cons_of_mem _ hu)
    rw [List.map_cons, Code.rowsAll_cons, List.map_append, hrest, List.flatMap_cons, Code.rows,
      rowsOf, ht]
    simp [Row.shown, margin, Function.comp_def]

/-- Text that is not empty has the lines that were written. -/
theorem linesOf_text (hne : w.text ≠ "") (h : ∀ l ∈ w.lines, Unbroken l) :
    linesOf w.text = w.lines := by
  have hseen : w.isEmpty = false := eq_false_of_ne_true fun hempty => hne (if_pos hempty)
  have hlines : w.lines ≠ [] := by
    intro hnil
    rw [isEmpty, hnil] at hseen
    cases hseen
  rw [text, hseen, if_neg (by simp), linesOf_intercalate h hlines]

/-- There is no text exactly where all lines are blank. -/
theorem text_eq_empty_iff : w.text = "" ↔ ∀ l ∈ w.lines, ∀ c ∈ l.toList, isBlank c := by
  have hempty : w.isEmpty = true ↔ ∀ l ∈ w.lines, ∀ c ∈ l.toList, isBlank c := by
    simp only [isEmpty, List.all_eq_true, List.isEmpty_iff, trim, trimWhile_eq_nil_iff]
  rw [← hempty, text]
  split
  · simpa
  · next hseen => simp [hseen]

end Writer

/-- Code with a line that can be seen has text. -/
theorem render_ne_empty {code : List Code} {t : String} (ht : .line t ∈ code)
    (hone : linesOf t = [t]) {c : Char} (hc : c ∈ t.toList) (hblank : isBlank c = false) :
    render code ≠ "" := by
  obtain ⟨a, b, rfl⟩ := List.append_of_mem ht
  let w := (Writer.start "\t").writeAll a
  have hne : t.isEmpty = false := by
    refine eq_false_of_ne_true fun hempty => ?_
    rw [String.isEmpty_iff] at hempty
    simp [hempty] at hc
  have hl : w.margin ++ t ++ w.suffix ∈ (w.writeLine t).lines := by
    simp [Writer.writeLine, hne, hone]
  have hstays := (Writer.prefix_writeAll (w.writeLine t) b).subset hl
  rw [render, Writer.writeAll_append, Ne, Writer.text_eq_empty_iff]
  intro hall
  rw [hall _ hstays c (by simp [hc])] at hblank
  cases hblank

/-- Text that is not empty has the lines that were written, as long as none of them is broken. -/
theorem linesOf_render {code : List Code} (hne : render code ≠ "")
    (h : ∀ l ∈ Code.linesAll "" code, Unbroken l) :
    (linesOf (render code)).map unindent = (Code.linesAll "" code).map unindent := by
  have hfits := fits_rowsAll code h 0
  have hlines : ((Writer.start "\t").writeAll code).lines =
      (Code.rowsAll 0 "" code).map (Row.shown "\t") := by
    rw [Writer.writeAll_eq]
    rfl
  have htext := Writer.linesOf_text hne (by simpa [hlines] using hfits.unbroken)
  rw [render, htext, hlines, List.map_map]
  exact hfits.lines

/-! ## The layout of what is written -/

/-- A line that ends as its place says: behind an unbroken piece stands the whole suffix, and a
blank line is the suffix without white space around it. -/
def Row.Ends (row : Row) (l : String) : Prop :=
  match row.piece with
  | none => l = trimmed row.suffix
  | some piece => Unbroken piece ∧ ∃ front, l = front ++ piece ++ row.suffix

private theorem ends_of_mem_rowsOf {depth : Int} {suffix text : String} {row : Row}
    (h : row ∈ rowsOf depth suffix text) (indent : String) : row.Ends (row.shown indent) := by
  unfold rowsOf at h
  split at h
  · rw [List.mem_singleton.1 h]
    rfl
  · obtain ⟨l, hl, rfl⟩ := List.mem_map.1 h
    exact ⟨unbroken_of_mem_linesOf hl, _, rfl⟩

private theorem suffix_of_mem_rowsOf {depth : Int} {suffix text : String} {row : Row}
    (h : row ∈ rowsOf depth suffix text) : row.suffix = suffix := by
  unfold rowsOf at h
  split at h
  · rw [List.mem_singleton.1 h]
  · obtain ⟨l, -, rfl⟩ := List.mem_map.1 h
    rfl

theorem Row.unbroken_shown {row : Row} {indent : String} (hindent : Unbroken indent)
    (hsuffix : Unbroken row.suffix) (h : row.Ends (row.shown indent)) :
    Unbroken (row.shown indent) := by
  obtain ⟨depth, suffix, piece⟩ := row
  cases piece with
  | none => exact unbroken_trimmed hsuffix
  | some piece =>
    refine unbroken_append.2 ⟨unbroken_append.2 ⟨fun c hc => ?_, h.1⟩, hsuffix⟩
    exact hindent c (mem_margin hc)

namespace Writer
variable {w : Writer} {code : List Code}

/-- A writer lays code out: a scope's lines stand between its opener and its closer, each piece of a
broken text on a line of its own, with the suffix of the innermost scope behind it. Depth and suffix
are afterwards what they were, and the lines of the text are those written, unless all are blank. -/
theorem writeAll_laysOut (hindent : Unbroken w.indent)
    (hsuffix : ∀ s ∈ w.suffix :: Code.suffixesAll code, Unbroken s)
    (hlines : ∀ l ∈ w.lines, Unbroken l) :
    (w.writeAll code).lines =
      w.lines ++ (Code.rowsAll w.depth w.suffix code).map (Row.shown w.indent) ∧
    (w.writeAll code).depth = w.depth ∧ (w.writeAll code).suffix = w.suffix ∧
    (∀ body, w.write (.scope "" body) = w.writeAll body) ∧
    (∀ row ∈ Code.rowsAll w.depth w.suffix code, row.Ends (row.shown w.indent)) ∧
    ((w.writeAll code).text = "" ↔ ∀ l ∈ (w.writeAll code).lines, ∀ c ∈ l.toList, isBlank c) ∧
    ((w.writeAll code).text ≠ "" →
      linesOf (w.writeAll code).text = (w.writeAll code).lines) := by
  have hends : ∀ row ∈ Code.rowsAll w.depth w.suffix code, row.Ends (row.shown w.indent) := by
    intro row hrow
    obtain ⟨d, s, text, -, htext⟩ := Code.exists_of_mem_rowsAll code hrow
    exact ends_of_mem_rowsOf htext w.indent
  have hunbroken : ∀ l ∈ (w.writeAll code).lines, Unbroken l := by
    intro l hl
    rw [writeAll_eq, lines_written, List.mem_append, List.mem_map] at hl
    obtain hl | ⟨row, hrow, rfl⟩ := hl
    · exact hlines l hl
    · obtain ⟨d, s, text, hs, htext⟩ := Code.exists_of_mem_rowsAll code hrow
      refine row.unbroken_shown hindent ?_ (hends row hrow)
      rw [suffix_of_mem_rowsOf htext]
      exact hsuffix s (List.mem_cons.2 hs)
  refine ⟨by rw [writeAll_eq, lines_written], by rw [writeAll_eq]; rfl, by rw [writeAll_eq]; rfl,
    write_scope_empty w, hends, text_eq_empty_iff, fun hne => linesOf_text hne hunbroken⟩

/-- A function in a namespace and a macro whose lines go on, one of them broken in two. -/
def macroCode : List Code :=
  [.scope "game" [.braced "void Run()" [.line "return;"]],
    .postfixed " \\" [.line "#define X\u2028  Y", .blank,
      .indented (-3) [.postfixed " //" [.line "Z"], .line "W"]],
    .scope "" [.line "int x;"]]

theorem writeAll_laysOut_macro :
    Unbroken (start "  ").indent ∧
    (∀ s ∈ (start "  ").suffix :: Code.suffixesAll macroCode, Unbroken s) ∧
    (∀ l ∈ (start "  ").lines, Unbroken l) ∧
    linesOf ((start "  ").writeAll macroCode).text =
      ["namespace game", "\x7b", "  void Run()", "  \x7b", "    return;", "  \x7d", "\x7d",
        "#define X \\", "  Y \\", "\\", "Z //", "W \\", "int x;"] := by
  have hindent : Unbroken (start "  ").indent := by decide
  have hsuffix : ∀ s ∈ (start "  ").suffix :: Code.suffixesAll macroCode, Unbroken s := by decide
  have hlines : ∀ l ∈ (start "  ").lines, Unbroken l := by decide
  obtain ⟨hwritten, -, -, -, -, hempty, htext⟩ := writeAll_laysOut hindent hsuffix hlines
  refine ⟨hindent, hsuffix, hlines, ?_⟩
  rw [htext, hwritten]
  · decide
  · rw [Ne, hempty, hwritten]
    intro hblank
    exact absurd (hblank "int x;" (by decide) 'x' (by decide)) (by decide)

end Writer

end Emission
end Introspect
