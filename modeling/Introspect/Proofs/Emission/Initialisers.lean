import Introspect.Proofs.Emission.Arrays
import Introspect.Proofs.Emission.NumericLiterals

/-! What the initialisers of tags and attributes come to when they are read as C++, and for which
texts that is what the metadata say. -/
namespace Introspect
open Cpp

/-! ## Elements -/

namespace Cpp
variable {α : Type} {out : α → List Char} {expected : α → List Token} {Good : α → Prop}

/-- The tokens of an initialiser with some elements. -/
def initialiser (elements : List (List Token)) : List Token :=
  .mark '\x7b' :: ([.mark ','].intercalate elements ++ [.mark '\x7d', .mark ';'])

private theorem tokensAt_elements_iff {l : List α} (hl : l ≠ [])
    (h : ∀ a ∈ l, ReadsIff (out a) (expected a) (Good a)) :
    tokensAt .outside ([','].intercalate (l.map out) ++ ['\x7d', ';']) =
      some ([.mark ','].intercalate (l.map expected) ++ [.mark '\x7d', .mark ';']) ↔
        ∀ a ∈ l, Good a := by
  induction l with
  | nil => exact absurd rfl hl
  | cons a l ih =>
    have ha := h a (by simp)
    cases l with
    | nil =>
      have hend : tokensAt .outside [';'] = some [.mark ';'] := by decide
      simpa [hend] using ha '\x7d' (by decide) (by decide) [';'] [.mark ';']
    | cons b l =>
      have hrest := ih (by simp) fun a ha => h a (by simp [ha])
      rw [List.map_cons, List.map_cons, List.map_cons, List.map_cons, List.intercalate_cons_cons,
        List.intercalate_cons_cons, ← List.map_cons, ← List.map_cons]
      have hfirst := ha ',' (by decide) (by decide)
        ([','].intercalate ((b :: l).map out) ++ ['\x7d', ';'])
        ([.mark ','].intercalate ((b :: l).map expected) ++ [.mark '\x7d', .mark ';'])
      rw [hrest] at hfirst
      simpa using hfirst

/-- An initialiser is read element by element. -/
theorem tokens_initialiser_iff {l : List α} (hl : l ≠ [])
    (h : ∀ a ∈ l, ReadsIff (out a) (expected a) (Good a)) :
    tokens (" \x7b".toList ++ ([','].intercalate (l.map out) ++ ['\x7d', ';'])) =
      some (initialiser (l.map expected)) ↔ ∀ a ∈ l, Good a := by
  have hopen : stepAll .outside " \x7b".toList = some ([.mark '\x7b'], .outside) := by decide
  exact (tokensAt_fixed hopen).trans (tokensAt_elements_iff hl h)

example : tokens " \x7b\"new\\name\",-1.5e+3\x7d;".toList = some (initialiser
    [[.text (utf8 "new\name".toList)], [.mark '-', .number "1.5e+3".toList]]) := by decide

end Cpp

namespace Emission

/-- The token of a text that is told without the quotes around it. -/
def textToken (s : String) : Token := .text (utf8 (stripQuotes s).toList)

/-- A number with the sign in front of it. -/
def numberTokens : List Char → List Token
  | '+' :: r => [.mark '+', .number r]
  | '-' :: r => [.mark '-', .number r]
  | r => [.number r]

/-- The value of an attribute: a number if it is a numeral, a text otherwise. -/
def valueTokens (s : String) : List Token :=
  if Text.isNumeral s.toList then numberTokens s.toList else [textToken s]

def tagTokens (t : Note) : List Token := [textToken t.value.text]

/-- A name of a namespace, and the parenthesis of a call. -/
def callTokens (scope name : String) : List Token :=
  [.word scope.toList, .mark ':', .mark ':', .word name.toList, .mark '(']

def attributeTokens (e : String × Note) : List Token :=
  callTokens "std" "make_pair" ++ textToken e.1 :: .mark ',' ::
    (callTokens runtimeNamespace "MetadataAttributeValue" ++ valueTokens e.2.value.text ++
      [.mark ')', .mark ')'])

/-! ## Reading what is written -/

def tagItem (t : Note) : String := literal (stripQuotes t.value.text)

def attributeItem (e : String × Note) : String :=
  "std::make_pair(" ++ literal e.1 ++ ", " ++ runtime "MetadataAttributeValue(" ++
    attributeLiteral e.2.value.text ++ "))"

private theorem toList_literal (x : String) : (literal x).toList = '"' :: (x.toList ++ ['"']) := by
  simp [literal]

private theorem verbatim_of_literal {x : String} :
    (∃ u, Verbatim u ∧ (literal x).toList = '"' :: (u ++ ['"'])) ↔ Verbatim x.toList := by
  rw [toList_literal]
  constructor
  · rintro ⟨u, hu, heq⟩
    rwa [List.append_cancel_right (List.cons.inj heq).2]
  · exact fun hx => ⟨x.toList, hx, rfl⟩

private theorem readsIff_quoted {e : List Char} {s : String} (he : e.head? = some '"')
    (htrim : Text.trimWhile (· == '"') e = Text.trimWhile (· == '"') s.toList) :
    ReadsIff e [textToken s] (∃ u, Verbatim u ∧ e = '"' :: (u ++ ['"'])) := by
  have htoken : textToken s = .text (utf8 (Text.trimWhile (· == '"') e)) := by
    rw [textToken, stripQuotes, String.toList_ofList, htrim]
  rw [htoken]
  exact readsIff_text he

private theorem trimWhile_literal (x : String) : Text.trimWhile (· == '"') (literal x).toList =
    Text.trimWhile (· == '"') x.toList := by
  rw [toList_literal]
  exact Text.trimWhile_append (a := ['"']) (b := ['"']) (by simp) (by simp) x.toList

private theorem readsIff_literal {x s : String}
    (htrim : Text.trimWhile (· == '"') x.toList = Text.trimWhile (· == '"') s.toList) :
    ReadsIff (literal x).toList [textToken s] (Verbatim x.toList) := by
  have hread := readsIff_quoted (e := (literal x).toList) (by simp [toList_literal])
    ((trimWhile_literal x).trans htrim)
  rwa [verbatim_of_literal] at hread

theorem readsIff_tag (t : Note) :
    ReadsIff (tagItem t).toList (tagTokens t) (Verbatim (stripQuotes t.value.text).toList) := by
  refine readsIff_literal ?_
  rw [stripQuotes, String.toList_ofList, Text.trimWhile_trimWhile]

private theorem readsIff_number {s : List Char} (h : IsNumericLiteral (Text.dropSign s)) :
    ReadsIff s (numberTokens s) True := by
  have hsigned {sign : Char} (hsign : stepAll .outside [sign] = some ([.mark sign], .outside))
      {s : List Char} (h : IsNumericLiteral s) :
      ReadsIff (sign :: s) [.mark sign, .number s] True := fun c hc hquote rest ts =>
    (tokensAt_fixed hsign).trans (readsIff_numericLiteral h c hc hquote rest ts)
  unfold Text.dropSign at h
  split at h
  · exact hsigned (by decide) h
  · exact hsigned (by decide) h
  next hplus hminus =>
    rw [numberTokens.eq_3 s hplus hminus]
    exact readsIff_numericLiteral h

/-- What is written for a value is read as the value, provided that what is written for a number is
a number: if that is a number, or a literal of the text without anything of its own meaning in it. -/
private theorem readsIff_value {v : String}
    (hnumeral : Text.isNumeral v.toList → IsNumericLiteral (Text.dropSign v.toList)) :
    ReadsIff (attributeLiteral v).toList (valueTokens v) (Text.isNumeral v.toList ∨
      ∃ u, Verbatim u ∧ (attributeLiteral v).toList = '"' :: (u ++ ['"'])) := by
  unfold valueTokens
  split
  next h =>
    have hbare : attributeLiteral v = v := by simp [attributeLiteral, h]
    have hgood : (Text.isNumeral v.toList = true ∨
        ∃ u, Verbatim u ∧ (attributeLiteral v).toList = '"' :: (u ++ ['"'])) ↔ True := by simp [h]
    rw [hgood, hbare]
    exact readsIff_number (hnumeral h)
  next h =>
    have hgood : (Text.isNumeral v.toList = true ∨
        ∃ u, Verbatim u ∧ (attributeLiteral v).toList = '"' :: (u ++ ['"'])) ↔
        ∃ u, Verbatim u ∧ (attributeLiteral v).toList = '"' :: (u ++ ['"']) := by simp [h]
    rw [hgood]
    by_cases hquote : v.toList.head? = some '"'
    · have hbare : attributeLiteral v = v := by simp [attributeLiteral, hquote]
      rw [hbare]
      exact readsIff_quoted hquote rfl
    · have hliteral : attributeLiteral v = literal v := by simp [attributeLiteral, hquote, h]
      rw [hliteral]
      exact readsIff_quoted (by simp [toList_literal]) (trimWhile_literal v)

theorem readsIff_attribute {e : String × Note} (hnumeral : Text.isNumeral e.2.value.text.toList →
      IsNumericLiteral (Text.dropSign e.2.value.text.toList)) :
    ReadsIff (attributeItem e).toList (attributeTokens e) (Verbatim e.1.toList ∧
      (Text.isNumeral e.2.value.text.toList ∨ ∃ u, Verbatim u ∧
        (attributeLiteral e.2.value.text).toList = '"' :: (u ++ ['"']))) := by
  intro c hc hquote rest ts
  have hpair : stepAll .outside "std::make_pair(".toList =
      some (callTokens "std" "make_pair", .outside) := by decide
  have hvalue : stepAll .outside " cpprefl::MetadataAttributeValue(".toList =
      some (callTokens runtimeNamespace "MetadataAttributeValue", .outside) := by decide
  have hclose : stepAll .outside [')', c] = some ([.mark ')', .mark c], .outside) := by
    have hmark {c : Char} (hc : c ∈ closers) (hquote : c ≠ '"') :
        step .outside c = some ([.mark c], .outside) := (step_mark hc hquote).1
    simp [stepAll, hmark hc hquote, hmark (show ')' ∈ closers by decide) (by decide)]
  have hjoined : ", ".toList ++ (runtime "MetadataAttributeValue(").toList =
      ',' :: " cpprefl::MetadataAttributeValue(".toList := by decide
  have htext : (attributeItem e).toList ++ c :: rest = "std::make_pair(".toList ++
      ((literal e.1).toList ++ ',' :: (" cpprefl::MetadataAttributeValue(".toList ++
        ((attributeLiteral e.2.value.text).toList ++ ')' :: ([')', c] ++ rest)))) := by
    unfold attributeItem
    rw [← List.cons_append, ← hjoined]
    simp only [String.toList_append, List.append_assoc]
    rfl
  have htokens : attributeTokens e ++ .mark c :: ts = callTokens "std" "make_pair" ++
      ([textToken e.1] ++ .mark ',' :: (callTokens runtimeNamespace "MetadataAttributeValue" ++
        (valueTokens e.2.value.text ++ .mark ')' :: ([.mark ')', .mark c] ++ ts)))) := by
    simp [attributeTokens]
  rw [htext, htokens, tokensAt_fixed hpair, readsIff_literal rfl ',' (by decide) (by decide),
    tokensAt_fixed hvalue, readsIff_value hnumeral ')' (by decide) (by decide),
    tokensAt_fixed hclose, and_assoc]

/-- An array of tags or attributes: its definition up to the initialiser, the elements as they are
written, and the tokens of the elements that the metadata have. -/
structure NoteArray where
  head : String
  items : List String
  elements : List (List Token)

def NoteArray.init (a : NoteArray) : String := " \x7b" ++ ",".intercalate a.items ++ "\x7d;"

def NoteArray.text (a : NoteArray) : String := a.head ++ a.init

/-- The arrays for metadata: none for tags where there are none, and none for attributes. -/
def notesOf (name : String) (m : Metadata) : List NoteArray :=
  (if m.runtimeTags.isEmpty then [] else
    [⟨arrayHead (runtime "MetadataTag") m.runtimeTags.length (name ++ "Tags"),
      m.runtimeTags.map tagItem, m.runtimeTags.map tagTokens⟩]) ++
  if m.runtimeAttributes.isEmpty then [] else
    [⟨arrayHead (runtime "MetadataAttribute") m.runtimeAttributes.length (name ++ "Attributes"),
      m.runtimeAttributes.map attributeItem, m.runtimeAttributes.map attributeTokens⟩]

theorem code_metadataCode (name : String) (m : Metadata) :
    (metadataCode name m).code = (notesOf name m).map fun a => .line a.text := by
  unfold metadataCode notesOf
  simp only [List.isEmpty_map, arrayLine_eq, List.length_map, List.map_append]
  congr 1 <;> split <;> rfl

/-- The line defines the array, and its initialiser reads as the elements that the metadata have. -/
def Holds (w : Writer) (a : NoteArray) (line : String) : Prop :=
  ∃ init, line = w.margin ++ (a.head ++ init) ++ w.suffix ∧
    tokens init.toList = some (initialiser a.elements)

/-- The metadata survive in the code that a writer gets for them: every array is one line with the
elements that the metadata have, and what is not put in quotes is a signed numeric literal. -/
structure Survives (w : Writer) (name : String) (m : Metadata) : Prop where
  written : ∃ ls, (w.writeAll (metadataCode name m).code).lines = w.lines ++ ls ∧
    List.Forall₂ (Holds w) (notesOf name m) ls
  unquoted : ∀ e ∈ m.runtimeAttributes,
    (attributeLiteral e.2.value.text).toList.head? ≠ some '"' →
      IsNumericLiteral (Text.dropSign e.2.value.text.toList)

/-- No character of the text has a meaning of its own in quotes, and none ends a line. -/
def Clean (s : String) : Prop :=
  ∀ c ∈ s.toList, c ≠ '"' ∧ c ≠ '\\' ∧ Text.isLineBreak c = false

instance (s : String) : Decidable (Clean s) := List.decidableBAll _ s.toList

/-- The value of an attribute is told as it is: a numeral that is a numeric literal of C++, a text
that is clean, or such a text in quotes. -/
def Told (s : String) : Prop :=
  if Text.isNumeral s.toList then IsNumericLiteral (Text.dropSign s.toList)
  else Clean s ∨ ∃ u, Clean u ∧ s = literal u

/-! ## Lines -/

private theorem length_eq_one {α β : Type} {l : List α} {g : α → List β}
    (hpos : ∀ a ∈ l, 0 < (g a).length) (h : (l.flatMap g).length = l.length) :
    ∀ a ∈ l, (g a).length = 1 := by
  have hle {l : List α} (hpos : ∀ a ∈ l, 0 < (g a).length) : l.length ≤ (l.flatMap g).length := by
    induction l with
    | nil => exact Nat.le_refl _
    | cons a l ih =>
      have ha := hpos a (by simp)
      have hrest := ih fun b hb => hpos b (by simp [hb])
      rw [List.flatMap_cons, List.length_append, List.length_cons]
      omega
  induction l with
  | nil => simp
  | cons a l ih =>
    have ha := hpos a (by simp)
    have hrest := hle fun b hb => hpos b (List.mem_cons_of_mem a hb)
    rw [List.flatMap_cons, List.length_append, List.length_cons] at h
    have htail := ih (fun b hb => hpos b (by simp [hb])) (by omega)
    intro b hb
    obtain rfl | hb := List.mem_cons.1 hb
    · omega
    · exact htail b hb

private theorem last_text (a : NoteArray) : a.text.toList.getLast? = some ';' := by
  rw [NoteArray.text, NoteArray.init]
  exact getLast?_toList_append _ (getLast?_toList_append _ (by decide))

private theorem text_ne (a : NoteArray) : a.text ≠ "" := by
  intro h
  have hlast := last_text a
  rw [h] at hlast
  cases hlast

private theorem holds_iff {w : Writer} {a : NoteArray} :
    Holds w a (w.margin ++ a.text ++ w.suffix) ↔
      tokens a.init.toList = some (initialiser a.elements) := by
  constructor
  · rintro ⟨init, hline, htokens⟩
    rw [String.append_left_inj, String.append_right_inj, NoteArray.text,
      String.append_right_inj] at hline
    rwa [hline]
  · exact fun htokens => ⟨a.init, rfl, htokens⟩

/-- Arrays are written as they should be read if each is one line and its own initialiser reads as
it should. -/
theorem written_iff {w : Writer} {arrays : List NoteArray} :
    (∃ ls, (w.writeAll (arrays.map fun a => .line a.text)).lines = w.lines ++ ls ∧
      List.Forall₂ (Holds w) arrays ls) ↔
    ∀ a ∈ arrays, Unbroken a.text ∧ tokens a.init.toList = some (initialiser a.elements) := by
  let written (a : NoteArray) : List String :=
    (Text.linesOf a.text).map fun l => w.margin ++ l ++ w.suffix
  have hwritten : (w.writeAll (arrays.map fun a => .line a.text)).lines =
      w.lines ++ arrays.flatMap written := by
    have htexts : ∀ t ∈ arrays.map NoteArray.text, t ≠ "" := by simp [text_ne]
    have hlines := Writer.lines_writeAll w htexts
    rwa [List.map_map, List.flatMap_map] at hlines
  have hone (h : ∀ a ∈ arrays, Unbroken a.text) :
      arrays.flatMap written = arrays.map fun a => w.margin ++ a.text ++ w.suffix := by
    rw [List.map_eq_flatMap]
    refine List.flatMap_congr fun a ha => ?_
    simp only [written, linesOf_unbroken (h a ha) (text_ne a), List.map_singleton]
  rw [hwritten]
  constructor
  · rintro ⟨ls, hls, hall⟩
    obtain rfl := List.append_cancel_left hls
    have hunbroken : ∀ a ∈ arrays, Unbroken a.text := by
      intro a ha
      have hlength := length_eq_one (g := written)
        (fun a _ => by simpa [written] using length_linesOf_pos (text_ne a)) hall.length_eq.symm a ha
      exact unbroken_of_length_linesOf (last_text a) (by decide) (by simpa [written] using hlength)
    rw [hone hunbroken, List.forall₂_map_right_iff, List.forall₂_same] at hall
    exact fun a ha => ⟨hunbroken a ha, holds_iff.1 (hall a ha)⟩
  · intro h
    refine ⟨_, rfl, ?_⟩
    rw [hone fun a ha => (h a ha).1, List.forall₂_map_right_iff, List.forall₂_same]
    exact fun a ha => holds_iff.2 (h a ha).2

private theorem unbroken_intercalate {items : List String} :
    Unbroken (",".intercalate items) ↔ ∀ i ∈ items, Unbroken i := by
  have hcomma : Unbroken "," := by decide
  induction items with
  | nil => simp [Unbroken]
  | cons i items ih =>
    cases items with
    | nil => simp
    | cons j items =>
      simp only [String.intercalate_cons_cons, unbroken_append, ih, hcomma, and_true,
        List.forall_mem_cons]

/-- An array is one line that reads as it should if this is so of each of its items. -/
private theorem array_iff {α : Type} {l : List α} (hl : l ≠ []) {head : String}
    (hhead : Unbroken head) {item : α → String} {expected : α → List Token} {Good : α → Prop}
    (h : ∀ a ∈ l, ReadsIff (item a).toList (expected a) (Good a)) :
    let a : NoteArray := ⟨head, l.map item, l.map expected⟩
    (Unbroken a.text ∧ tokens a.init.toList = some (initialiser a.elements)) ↔
      ∀ a ∈ l, Unbroken (item a) ∧ Good a := by
  intro a
  have hinit : a.init.toList =
      " \x7b".toList ++ ([','].intercalate (l.map fun a => (item a).toList) ++ ['\x7d', ';']) := by
    simp [a, NoteArray.init, String.toList_intercalate, Function.comp_def]
  have hopen : Unbroken " \x7b" := by decide
  have hclose : Unbroken "\x7d;" := by decide
  rw [hinit, tokens_initialiser_iff hl h, NoteArray.text, unbroken_append, and_iff_right hhead,
    NoteArray.init, unbroken_append, unbroken_append, and_iff_left hclose, and_iff_right hopen,
    unbroken_intercalate, List.forall_mem_map]
  exact ⟨fun hall a ha => ⟨hall.1 a ha, hall.2 a ha⟩,
    fun hall => ⟨fun a ha => (hall a ha).1, fun a ha => (hall a ha).2⟩⟩

/-- Where there is nothing to tell, there is no array. -/
private theorem optional_array_iff {α : Type} {l : List α} {head : String} (hhead : Unbroken head)
    {item : α → String} {expected : α → List Token} {Good : α → Prop}
    (h : ∀ a ∈ l, ReadsIff (item a).toList (expected a) (Good a)) :
    (∀ a ∈ (if l.isEmpty then [] else [(⟨head, l.map item, l.map expected⟩ : NoteArray)]),
      Unbroken a.text ∧ tokens a.init.toList = some (initialiser a.elements)) ↔
      ∀ a ∈ l, Unbroken (item a) ∧ Good a := by
  split
  next hempty => simp [List.isEmpty_iff.1 hempty]
  next hempty =>
    rw [List.forall_mem_singleton]
    exact array_iff (fun hnil => hempty (List.isEmpty_iff.2 hnil)) hhead h

theorem clean_iff {s : String} : Clean s ↔ Unbroken s ∧ Verbatim s.toList := by
  constructor
  · refine fun h => ⟨fun c hc => (h c hc).2.2, fun c hc => ⟨(h c hc).1, (h c hc).2.1, ?_, ?_⟩⟩ <;>
      rintro rfl <;> exact absurd (h _ hc).2.2 (by decide)
  · exact fun h c hc => ⟨(h.2 c hc).1, (h.2 c hc).2.1, h.1 c hc⟩

private theorem unbroken_literal {x : String} : Unbroken (literal x) ↔ Unbroken x := by
  have hquote : Unbroken "\"" := by decide
  rw [literal, unbroken_append, unbroken_append, and_iff_left hquote, and_iff_right hquote]

private theorem quoted_iff {x : String} :
    (Unbroken x ∧ ∃ u, Verbatim u ∧ x.toList = '"' :: (u ++ ['"'])) ↔
      ∃ u, Clean u ∧ x = literal u := by
  constructor
  · rintro ⟨hx, u, hu, heq⟩
    obtain rfl : x = literal (String.ofList u) :=
      String.toList_inj.1 (by rw [heq, toList_literal, String.toList_ofList])
    exact ⟨_, clean_iff.2 ⟨unbroken_literal.1 hx, by rwa [String.toList_ofList]⟩, rfl⟩
  · rintro ⟨u, hu, rfl⟩
    have hclean := clean_iff.1 hu
    exact ⟨unbroken_literal.2 hclean.1, verbatim_of_literal.2 hclean.2⟩

/-- No numeral begins with a quote. -/
theorem head?_of_isNumeral {s : List Char} (h : Text.isNumeral s) : s.head? ≠ some '"' := by
  intro hquote
  obtain ⟨r, rfl⟩ := List.head?_eq_some_iff.1 hquote
  obtain ⟨r', hr'⟩ : ∃ r', Text.trimWhile Text.isNumeralMargin ('"' :: r) = '"' :: r' := by
    have hmargin : Text.isNumeralMargin '"' = false := by decide
    refine ⟨(r.reverse.dropWhile Text.isNumeralMargin).reverse, ?_⟩
    rw [Text.trimWhile, List.dropWhile_cons_of_neg (by simp [hmargin]), Text.dropEndWhile,
      List.reverse_cons, List.dropWhile_append]
    split
    next hempty => simp [List.isEmpty_iff.1 hempty, hmargin]
    next => simp
  have hdigit : Text.isDigit '"' = false := by decide
  simp [Text.isNumeral, hr', Text.dropSign, Text.isDecimal, Text.isNamedFloat, hdigit] at h

private theorem toList_dropSign (s : List Char) :
    s = Text.dropSign s ∨ ∃ sign ∈ ['+', '-'], s = sign :: Text.dropSign s := by
  unfold Text.dropSign
  split
  · exact .inr ⟨'+', by decide, rfl⟩
  · exact .inr ⟨'-', by decide, rfl⟩
  · exact .inl rfl

/-- What is told of a value and written for it. -/
theorem told_iff {v : String} : Told v ↔
    (Text.isNumeral v.toList → IsNumericLiteral (Text.dropSign v.toList)) ∧
      Unbroken (attributeLiteral v) ∧ (Text.isNumeral v.toList ∨ ∃ u, Verbatim u ∧
        (attributeLiteral v).toList = '"' :: (u ++ ['"'])) := by
  unfold Told
  split
  next h =>
    have hbare : attributeLiteral v = v := by simp [attributeLiteral, h]
    rw [hbare]
    refine ⟨fun hliteral => ⟨fun _ => hliteral, fun c hc => ?_, .inl h⟩, fun hall => hall.1 h⟩
    have hunbroken := (begins_numericLiteral hliteral).unbroken
    obtain heq | ⟨sign, hsign, heq⟩ := toList_dropSign v.toList
    · exact hunbroken c (heq ▸ hc)
    · rw [heq] at hc
      obtain rfl | hc := List.mem_cons.1 hc
      · obtain rfl | rfl : c = '+' ∨ c = '-' := by simpa using hsign
        all_goals decide
      · exact hunbroken c hc
  next h =>
    have hright : ((Text.isNumeral v.toList → IsNumericLiteral (Text.dropSign v.toList)) ∧
        Unbroken (attributeLiteral v) ∧ (Text.isNumeral v.toList ∨ ∃ u, Verbatim u ∧
          (attributeLiteral v).toList = '"' :: (u ++ ['"']))) ↔
        ∃ u, Clean u ∧ attributeLiteral v = literal u := by
      rw [← quoted_iff]
      simp [h]
    rw [hright]
    by_cases hquote : v.toList.head? = some '"'
    · have hbare : attributeLiteral v = v := by simp [attributeLiteral, hquote]
      rw [hbare]
      exact or_iff_right fun hclean => (hclean _ (List.mem_of_head? hquote)).1 rfl
    · have hliteral : attributeLiteral v = literal v := by simp [attributeLiteral, hquote, h]
      rw [hliteral]
      constructor
      · rintro (hclean | ⟨u, -, rfl⟩)
        · exact ⟨v, hclean, rfl⟩
        · exact absurd (by simp [toList_literal]) hquote
      · rintro ⟨u, hclean, heq⟩
        rw [literal, literal, String.append_left_inj, String.append_right_inj] at heq
        exact .inl (heq ▸ hclean)

/-- What is written without quotes is a numeral. -/
private theorem unquoted_iff {v : String} :
    (attributeLiteral v).toList.head? ≠ some '"' ↔ Text.isNumeral v.toList := by
  constructor
  · intro h
    refine of_not_not fun hnumeral => h ?_
    by_cases hquote : v.toList.head? = some '"'
    · simp [attributeLiteral, hquote]
    · simp [attributeLiteral, hquote, hnumeral, toList_literal]
  · intro h
    have hbare : attributeLiteral v = v := by simp [attributeLiteral, h]
    rw [hbare]
    exact head?_of_isNumeral h

private theorem unbroken_arrayHead {element name suffix : String}
    (helement : Unbroken (runtime element)) (hname : Unbroken name) (hsuffix : Unbroken suffix)
    (count : Nat) : Unbroken (arrayHead (runtime element) count (name ++ suffix)) := by
  have hcount : Unbroken (toString count) := by
    intro c hc
    have hdigit : c.isDigit := Nat.isDigit_of_mem_toDigits (by decide) (by decide)
      (Nat.toList_repr ▸ hc)
    exact (begins_digit hdigit).unbroken c (by simp)
  have hfixed : Unbroken "static const std::array<" ∧ Unbroken ", " ∧ Unbroken "> " ∧
      Unbroken " =" := by decide
  unfold arrayHead
  simp only [unbroken_append, helement, hname, hsuffix, hcount, hfixed, and_self]

private theorem unbroken_attributeItem {e : String × Note} : Unbroken (attributeItem e) ↔
    Unbroken e.1 ∧ Unbroken (attributeLiteral e.2.value.text) := by
  have hfixed : Unbroken "std::make_pair(" ∧ Unbroken ", " ∧
      Unbroken (runtime "MetadataAttributeValue(") ∧ Unbroken "))" := by decide
  unfold attributeItem
  simp only [unbroken_append, unbroken_literal, hfixed, true_and, and_true]

/-- The metadata of a declaration survive if none of their texts ends a line or has a quote or a
backslash in it, and every numeral among them is a numeric literal. -/
theorem survives_iff {w : Writer} {name : String} (hname : Unbroken name) (m : Metadata) :
    Survives w name m ↔ (∀ t ∈ m.runtimeTags, Clean (stripQuotes t.value.text)) ∧
      ∀ e ∈ m.runtimeAttributes, Clean e.1 ∧ Told e.2.value.text := by
  have htags : ∀ t : Note, (Unbroken (tagItem t) ∧ Verbatim (stripQuotes t.value.text).toList) ↔
      Clean (stripQuotes t.value.text) := fun t => by
    rw [clean_iff, tagItem, unbroken_literal]
  have hread (hnumerals : ∀ e ∈ m.runtimeAttributes, Text.isNumeral e.2.value.text.toList →
      IsNumericLiteral (Text.dropSign e.2.value.text.toList)) :
      (∃ ls, (w.writeAll (metadataCode name m).code).lines = w.lines ++ ls ∧
        List.Forall₂ (Holds w) (notesOf name m) ls) ↔
      (∀ t ∈ m.runtimeTags, Clean (stripQuotes t.value.text)) ∧
        ∀ e ∈ m.runtimeAttributes, Clean e.1 ∧ Told e.2.value.text := by
    rw [code_metadataCode, written_iff, notesOf, List.forall_mem_append,
      optional_array_iff (unbroken_arrayHead (by decide) hname (by decide) _)
        fun t _ => readsIff_tag t,
      optional_array_iff (unbroken_arrayHead (by decide) hname (by decide) _)
        fun e he => readsIff_attribute (hnumerals e he)]
    refine and_congr (forall₂_congr fun t _ => htags t) (forall₂_congr fun e he => ?_)
    rw [unbroken_attributeItem, clean_iff, told_iff, and_iff_right (hnumerals e he)]
    exact and_and_and_comm
  constructor
  · intro h
    exact (hread fun e he hnumeral => h.unquoted e he (unquoted_iff.2 hnumeral)).1 h.written
  · intro h
    have hnumerals : ∀ e ∈ m.runtimeAttributes, Text.isNumeral e.2.value.text.toList →
        IsNumericLiteral (Text.dropSign e.2.value.text.toList) := fun e he =>
      (told_iff.1 (h.2 e he).2).1
    exact ⟨(hread hnumerals).2 h, fun e he hbare => hnumerals e he (unquoted_iff.1 hbare)⟩

/-- Metadata of something that is marked for reflection, with a tag and attributes for run time. -/
private def noted (tag : String) (attributes : List (String × String)) : Metadata :=
  { Metadata.bare (.ofString "/module/Ruler.h") 3 with
    reflected := true, tags := [⟨tag, .runtime⟩],
    attributes := .ofList (attributes.map fun e => (e.1, ⟨e.2, .runtime⟩)) }

/-- A tag, and attributes of which one is a signed number and one has its quotes already. -/
def ruler : Metadata := noted "Wide" [("Offset", "-1.5"), ("Unit", "\"cm\"")]

/-- The notes of the ruler survive. -/
theorem survives_ruler : Unbroken "Class" ∧ Survives (.start "\t") "Class" ruler := by
  have hname : Unbroken "Class" := by decide
  have hoffset : Told "-1.5" := by
    have hmantissa : IsMantissa Char.isDigit true (['1'] ++ '.' :: ['5']) :=
      .pointed (by decide) (.inr (by decide))
    have hliteral : IsNumericLiteral (['1'] ++ '.' :: ['5'] ++ []) :=
      .floating (.pointed hmantissa) (by decide)
    unfold Told
    rw [if_pos (by decide)]
    exact hliteral
  have hunit : Told "\"cm\"" := by
    unfold Told
    rw [if_neg (by decide)]
    exact .inr ⟨"cm", by decide, by decide⟩
  have htags : ∀ t ∈ ruler.runtimeTags, Clean (stripQuotes t.value.text) := by decide
  have hattributes : ruler.runtimeAttributes =
      [("Offset", ⟨"-1.5", .runtime⟩), ("Unit", ⟨"\"cm\"", .runtime⟩)] := by decide
  refine ⟨hname, (survives_iff hname ruler).2 ⟨htags, ?_⟩⟩
  rw [hattributes, List.forall_mem_cons, List.forall_mem_singleton]
  exact ⟨⟨by decide, hoffset⟩, by decide, hunit⟩

/-- A tag does not survive with quotes in it, with a backslash that makes its literal denote another
text, or with a page break that ends the line. A value that is a numeral and no number of C++ goes
without quotes. -/
theorem not_survives_noted :
    (∀ tag ∈ ["the \"wide\" one", "new\\name", "Wide\x0cLow"],
      ¬ Survives (.start "\t") "Class" (noted tag [])) ∧
    ∀ value ∈ ["nan", "-Infinity", " 1"],
      ¬ Survives (.start "\t") "Class" (noted "Wide" [("Offset", value)]) := by
  constructor
  · intro tag htag h
    have hwritten := h.written
    rw [code_metadataCode, written_iff] at hwritten
    have hfixed : ∀ tag ∈ ["the \"wide\" one", "new\\name", "Wide\x0cLow"],
        ¬ ∀ a ∈ notesOf "Class" (noted tag []), Unbroken a.text ∧
          tokens a.init.toList = some (initialiser a.elements) := by decide +kernel
    exact hfixed tag htag hwritten
  · intro value hvalue h
    have hfixed : ∀ value ∈ ["nan", "-Infinity", " 1"],
        (∃ e ∈ (noted "Wide" [("Offset", value)]).runtimeAttributes, e.2.value.text = value) ∧
          (attributeLiteral value).toList.head? ≠ some '"' ∧
          tokensAt .outside (Text.dropSign value.toList ++ []) ≠
            tokensAt (.number (Text.dropSign value.toList)) [] := by decide +kernel
    obtain ⟨⟨e, he, htext⟩, hbare, hreads⟩ := hfixed value hvalue
    have hliteral := h.unquoted e he (htext ▸ hbare)
    rw [htext] at hliteral
    exact hreads ((begins_numericLiteral hliteral).reads [])

end Emission
end Introspect
