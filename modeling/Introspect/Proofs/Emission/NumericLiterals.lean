import Introspect.Proofs.Emission.Tokens
import Introspect.Text.Lines
import Introspect.Text.Numeral

/-! Numeric literals of C++20. Each is one token. -/
namespace Introspect.Cpp
variable {s t : List Char} {c : Char}

/-! ## The grammar -/

/-- Digits with single quotes between them, one at a time. -/
def digitsBy (p : Char → Bool) : List Char → Bool
  | [] => false
  | [c] => p c
  | c :: '\x27' :: r => p c && digitsBy p r
  | c :: d :: r => p c && digitsBy p (d :: r)

def isOctal (c : Char) : Bool := (octalValue? c).isSome

def isHex (c : Char) : Bool := (Json.hexValue? c).isSome

def isBinary (c : Char) : Bool := c == '0' || c == '1'

/-- Whole numbers without a suffix. A zero in front makes a number octal. -/
inductive IsWhole : List Char → Prop
  | decimal {s : List Char} (hs : digitsBy Char.isDigit s) (hfirst : s.head? ≠ some '0') : IsWhole s
  | octal {s : List Char} (hs : digitsBy isOctal s) (hfirst : s.head? = some '0') : IsWhole s
  | hex {x : Char} {s : List Char} (hx : x ∈ ['x', 'X']) (hs : digitsBy isHex s) :
    IsWhole ('0' :: x :: s)
  | binary {x : Char} {s : List Char} (hx : x ∈ ['b', 'B']) (hs : digitsBy isBinary s) :
    IsWhole ('0' :: x :: s)

/-- Digits with a point among or around them, or without one. -/
inductive IsMantissa (p : Char → Bool) : Bool → List Char → Prop
  | whole {s : List Char} (hs : digitsBy p s) : IsMantissa p false s
  | pointed {s t : List Char} (hs : digitsBy p s) (ht : t = [] ∨ digitsBy p t) :
    IsMantissa p true (s ++ '.' :: t)
  | fraction {t : List Char} (ht : digitsBy p t) : IsMantissa p true ('.' :: t)

/-- A mark with a signed number of decimal digits behind it. -/
def IsExponent (marks s : List Char) : Prop :=
  ∃ m ∈ marks, ∃ r, s = m :: r ∧ digitsBy Char.isDigit (Text.dropSign r)

/-- Floating point numbers without a suffix. Without a point they need an exponent, and so do
hexadecimal ones. -/
inductive IsFloating : List Char → Prop
  | pointed {m : List Char} (hm : IsMantissa Char.isDigit true m) : IsFloating m
  | scaled {point : Bool} {m e : List Char} (hm : IsMantissa Char.isDigit point m)
    (he : IsExponent ['e', 'E'] e) : IsFloating (m ++ e)
  | hex {x : Char} {point : Bool} {m e : List Char} (hx : x ∈ ['x', 'X'])
    (hm : IsMantissa isHex point m) (he : IsExponent ['p', 'P'] e) : IsFloating ('0' :: x :: (m ++ e))

def wholeSuffixes : List (List Char) :=
  ["", "u", "U", "l", "L", "ll", "LL", "ul", "uL", "Ul", "UL", "ull", "uLL", "Ull", "ULL", "lu", "lU",
    "Lu", "LU", "llu", "llU", "LLu", "LLU"].map String.toList

def floatingSuffixes : List (List Char) := ["", "f", "F", "l", "L"].map String.toList

/-- The text is a numeric literal, without a sign. -/
inductive IsNumericLiteral : List Char → Prop
  | whole {s suffix : List Char} (hs : IsWhole s) (hsuffix : suffix ∈ wholeSuffixes) :
    IsNumericLiteral (s ++ suffix)
  | floating {s suffix : List Char} (hs : IsFloating s) (hsuffix : suffix ∈ floatingSuffixes) :
    IsNumericLiteral (s ++ suffix)

/-! ## Literals as tokens -/

/-- However a number began, it goes on with all of these characters. -/
structure GoesOn (s : List Char) : Prop where
  reads : ∀ before rest,
    tokensAt (.number before) (s ++ rest) = tokensAt (.number (before ++ s)) rest
  unbroken : ∀ c ∈ s, Text.isLineBreak c = false

/-- A number begins with these characters. -/
structure Begins (s : List Char) : Prop where
  reads : ∀ rest, tokensAt .outside (s ++ rest) = tokensAt (.number s) rest
  unbroken : ∀ c ∈ s, Text.isLineBreak c = false

theorem GoesOn.append (hs : GoesOn s) (ht : GoesOn t) : GoesOn (s ++ t) where
  reads before rest := by
    rw [List.append_assoc, hs.reads, ht.reads, List.append_assoc]
  unbroken c hc := (List.mem_append.1 hc).elim (hs.unbroken c) (ht.unbroken c)

theorem Begins.append (hs : Begins s) (ht : GoesOn t) : Begins (s ++ t) where
  reads rest := by rw [List.append_assoc, hs.reads, ht.reads]
  unbroken c hc := (List.mem_append.1 hc).elim (hs.unbroken c) (ht.unbroken c)

/-- A character that numbers have wherever they go on. -/
def isNumeric (c : Char) : Bool := c.isAlphanum || c == '.' || c == '\x27'

private theorem tokensAt_continues {before : List Char} (h : continuesNumber before c)
    (rest : List Char) :
    tokensAt (.number before) (c :: rest) = tokensAt (.number (before ++ [c])) rest := by
  have hstep : step (.number before) c = some ([], .number (before ++ [c])) := if_pos h
  rw [tokensAt, hstep]
  simp

private theorem isNumeric_iff : isNumeric c ↔
    (((c.isUpper ∨ c.isLower) ∨ c.isDigit) ∨ c = '.') ∨ c = '\x27' := by
  change (c.isUpper || c.isLower || c.isDigit || c == '.' || c == '\x27') = true ↔ _
  simp only [Bool.or_eq_true, beq_iff_eq]

private theorem isUpper_iff : c.isUpper ↔ 65 ≤ c.toNat ∧ c.toNat ≤ 90 := decide_eq_true_iff

private theorem isLower_iff : c.isLower ↔ 97 ≤ c.toNat ∧ c.toNat ≤ 122 := by
  delta Char.isLower
  rw [Bool.and_eq_true, decide_eq_true_eq, decide_eq_true_eq]
  exact Iff.rfl

private theorem isDigit_iff : c.isDigit ↔ 48 ≤ c.toNat ∧ c.toNat ≤ 57 := by
  delta Char.isDigit
  rw [Bool.and_eq_true, decide_eq_true_eq, decide_eq_true_eq]
  exact Iff.rfl

private theorem toNat_of_isNumeric (h : isNumeric c) : 39 ≤ c.toNat ∧ c.toNat < 123 := by
  rw [isNumeric_iff, isUpper_iff, isLower_iff, isDigit_iff] at h
  rcases h with (((h | h) | h) | rfl) | rfl
  · omega
  · omega
  · omega
  · decide
  · decide

private theorem isLineBreak_of_range (h : 39 ≤ c.toNat ∧ c.toNat < 123) :
    Text.isLineBreak c = false := by
  simp only [Text.isLineBreak, Bool.or_eq_false_iff, Bool.and_eq_false_iff, decide_eq_false_iff_not,
    beq_eq_false_iff_ne]
  omega

theorem goesOn_of_all (h : s.all isNumeric) : GoesOn s where
  unbroken c hc := isLineBreak_of_range (toNat_of_isNumeric (List.all_eq_true.1 h c hc))
  reads before rest := by
    induction s generalizing before with
    | nil => simp
    | cons c s ih =>
      rw [List.all_cons, Bool.and_eq_true] at h
      have hc : continuesNumber before c := by
        have hnumeric := h.1
        simp only [isNumeric, Char.isAlphanum, Bool.or_eq_true] at hnumeric
        simp only [continuesNumber, isNumberChar, isWordChar, isWordStart, Bool.or_eq_true]
        rcases hnumeric with ((hc | hc) | hc) | hc <;> simp [hc]
      rw [List.cons_append, tokensAt_continues hc, ih h.2]
      simp

/-- The mark of an exponent, or that of a base. -/
private theorem goesOn_letter (h : c ∈ ['e', 'E', 'p', 'P'] ++ ['x', 'X', 'b', 'B']) :
    GoesOn [c] := by
  have hall : (['e', 'E', 'p', 'P'] ++ ['x', 'X', 'b', 'B']).all isNumeric := by decide
  exact goesOn_of_all (by simpa using List.all_eq_true.1 hall c h)

/-- A sign behind the mark of an exponent. -/
private theorem goesOn_sign {m sign : Char} (hm : m ∈ ['e', 'E', 'p', 'P'])
    (hsign : sign ∈ ['+', '-']) : GoesOn [m, sign] where
  unbroken c hc := by
    obtain rfl | hc := List.mem_cons.1 hc
    · exact (goesOn_letter (List.mem_append_left _ hm)).unbroken c (by simp)
    · obtain rfl := List.mem_singleton.1 hc
      obtain rfl | rfl : c = '+' ∨ c = '-' := by simpa using hsign
      all_goals decide
  reads before rest := by
    have hmark : GoesOn [m] := goesOn_letter (List.mem_append_left _ hm)
    have hsigned : continuesNumber (before ++ [m]) sign := by
      have heither : sign = '+' ∨ sign = '-' := by simpa using hsign
      have hcontains : ['e', 'E', 'p', 'P'].contains m := List.contains_iff_mem.2 hm
      simp only [continuesNumber, List.getLast?_concat, Option.any_some, hcontains,
        Bool.and_true, Bool.or_eq_true, beq_iff_eq, heither, or_true]
    have hall := hmark.reads before (sign :: rest)
    rw [tokensAt_continues hsigned, List.append_assoc] at hall
    exact hall

theorem begins_digit (hc : c.isDigit) : Begins [c] where
  unbroken d hd := by
    obtain rfl := List.mem_singleton.1 hd
    exact isLineBreak_of_range (toNat_of_isNumeric (isNumeric_iff.2 (by simp [hc])))
  reads rest := by
    have hspace : isSpace c = false := by
      refine eq_false_of_ne_true fun h => ?_
      simp only [isSpace, Bool.or_eq_true, beq_iff_eq] at h
      rcases h with ((rfl | rfl) | rfl) | rfl <;> revert hc <;> decide
    have hquote : c ≠ '"' := by
      rintro rfl
      revert hc
      decide
    have hstep : step .outside c = some ([], .number [c]) := by
      simp [step, outsideStep, hspace, hquote, hc]
    rw [List.singleton_append, tokensAt, hstep]
    simp

/-- A point and a digit. -/
theorem begins_point (hc : c.isDigit) : Begins ['.', c] where
  unbroken d hd := by
    obtain rfl | hd := List.mem_cons.1 hd
    · decide
    · exact (begins_digit hc).unbroken d hd
  reads rest := by
    have hpoint : step .outside '.' = some ([], .point) := by decide
    have hstep : step .point c = some ([], .number ['.', c]) := if_pos hc
    change tokensAt .outside ('.' :: c :: rest) = _
    simp only [tokensAt, hpoint, hstep]
    simp

/-! ## Parts of literals -/

theorem digitsBy_cons {p : Char → Bool} (h : digitsBy p s) :
    ∃ c r, s = c :: r ∧ p c ∧ ∀ d ∈ r, p d ∨ d = '\x27' := by
  induction s using digitsBy.induct with
  | case1 => cases h
  | case2 c => exact ⟨c, [], rfl, h, by simp⟩
  | case3 c r ih =>
    rw [digitsBy, Bool.and_eq_true] at h
    obtain ⟨d, r, rfl, hd, hr⟩ := ih h.2
    exact ⟨c, _, rfl, h.1, by simpa [hd] using hr⟩
  | case4 c d r hquote ih =>
    rw [digitsBy.eq_4 p c d r hquote, Bool.and_eq_true] at h
    obtain ⟨d, r, heq, hd, hr⟩ := ih h.2
    obtain ⟨rfl, rfl⟩ := List.cons.inj heq
    exact ⟨c, _, rfl, h.1, by simpa [hd] using hr⟩

section digits
variable {p : Char → Bool} (hp : ∀ c, p c → isNumeric c)
include hp

theorem goesOn_digits (h : digitsBy p s) : GoesOn s := by
  obtain ⟨c, r, rfl, hc, hr⟩ := digitsBy_cons h
  refine goesOn_of_all (List.all_eq_true.2 fun d hd => ?_)
  obtain rfl | hd := List.mem_cons.1 hd
  · exact hp d hc
  · obtain hd | rfl := hr d hd
    · exact hp d hd
    · decide

theorem goesOn_mantissa {point : Bool} (h : IsMantissa p point s) : GoesOn s := by
  have hpoint : GoesOn ['.'] := goesOn_of_all (by decide)
  cases h with
  | whole hs => exact goesOn_digits hp hs
  | pointed hs ht =>
    obtain rfl | ht := ht
    · exact (goesOn_digits hp hs).append hpoint
    · exact (goesOn_digits hp hs).append (hpoint.append (goesOn_digits hp ht))
  | fraction ht => exact hpoint.append (goesOn_digits hp ht)

end digits

private theorem isNumeric_of_isDigit (h : c.isDigit) : isNumeric c := by
  simp [isNumeric_iff, h]

/-- Digits behind what a number may begin with. -/
private theorem digits_append {p : Char → Bool} (hp : ∀ c, p c → c.isDigit) (h : digitsBy p s) :
    ∃ c r, s = c :: r ∧ c.isDigit ∧ GoesOn r := by
  obtain ⟨c, r, rfl, hc, hr⟩ := digitsBy_cons h
  refine ⟨c, r, rfl, hp c hc, goesOn_of_all (List.all_eq_true.2 fun d hd => ?_)⟩
  obtain hd | rfl := hr d hd
  · exact isNumeric_of_isDigit (hp d hd)
  · decide

theorem begins_digits {p : Char → Bool} (hp : ∀ c, p c → c.isDigit) (h : digitsBy p s) :
    Begins s := by
  obtain ⟨c, r, rfl, hc, hr⟩ := digits_append hp h
  exact (begins_digit hc).append hr

theorem begins_mantissa {point : Bool} (h : IsMantissa Char.isDigit point s) : Begins s := by
  have hpoint : GoesOn ['.'] := goesOn_of_all (by decide)
  cases h with
  | whole hs => exact begins_digits (fun _ hc => hc) hs
  | pointed hs ht =>
    refine (begins_digits (fun _ hc => hc) hs).append ?_
    obtain rfl | ht := ht
    · exact hpoint
    · exact hpoint.append (goesOn_digits (fun _ => isNumeric_of_isDigit) ht)
  | fraction ht =>
    obtain ⟨c, r, rfl, hc, hr⟩ := digits_append (fun _ hc => hc) ht
    exact (begins_point hc).append hr

theorem goesOn_exponent {marks : List Char} (hmarks : marks ⊆ ['e', 'E', 'p', 'P'])
    (h : IsExponent marks s) : GoesOn s := by
  obtain ⟨m, hm, r, rfl, hr⟩ := h
  have hdigits {r : List Char} (hr : digitsBy Char.isDigit r) : GoesOn r :=
    goesOn_digits (fun _ => isNumeric_of_isDigit) hr
  have hmark : GoesOn [m] := goesOn_letter (List.mem_append_left _ (hmarks hm))
  unfold Text.dropSign at hr
  split at hr
  · exact (goesOn_sign (hmarks hm) (by decide)).append (hdigits hr)
  · exact (goesOn_sign (hmarks hm) (by decide)).append (hdigits hr)
  · exact hmark.append (hdigits hr)

private theorem isDigit_of_isOctal (h : isOctal c) : c.isDigit := by
  unfold isOctal octalValue? at h
  split at h
  next hc =>
    have hseven : '7'.toNat ≤ '9'.toNat := by decide
    exact isDigit_iff.2 ⟨hc.1, Nat.le_trans hc.2 hseven⟩
  · cases h

private theorem isNumeric_of_isHex (h : isHex c) : isNumeric c := by
  unfold isHex Json.hexValue? at h
  split at h
  next hc => exact isNumeric_of_isDigit (isDigit_iff.2 hc)
  split at h
  next hc =>
    have hf : 'f'.toNat ≤ 'z'.toNat := by decide
    have hlower : c.isLower := isLower_iff.2 ⟨hc.1, Nat.le_trans hc.2 hf⟩
    simp [isNumeric_iff, hlower]
  split at h
  next hc =>
    have hf : 'F'.toNat ≤ 'Z'.toNat := by decide
    have hupper : c.isUpper := isUpper_iff.2 ⟨hc.1, Nat.le_trans hc.2 hf⟩
    simp [isNumeric_iff, hupper]
  · cases h

private theorem isNumeric_of_isBinary (h : isBinary c) : isNumeric c := by
  rw [isBinary, Bool.or_eq_true, beq_iff_eq, beq_iff_eq] at h
  obtain rfl | rfl := h <;> decide

/-- A zero and a letter in front of digits. -/
private theorem begins_radix {x : Char} (hx : x ∈ ['x', 'X', 'b', 'B']) (hs : GoesOn s) :
    Begins ('0' :: x :: s) := by
  have hletter : GoesOn [x] := goesOn_letter (List.mem_append_right _ hx)
  exact (begins_digit (c := '0') (by decide)).append (hletter.append hs)

theorem begins_whole (h : IsWhole s) : Begins s := by
  cases h with
  | decimal hs => exact begins_digits (fun _ hc => hc) hs
  | octal hs => exact begins_digits (fun _ => isDigit_of_isOctal) hs
  | hex hx hs =>
    exact begins_radix (List.mem_append_left ['b', 'B'] hx)
      (goesOn_digits (fun _ => isNumeric_of_isHex) hs)
  | binary hx hs =>
    exact begins_radix (List.mem_append_right ['x', 'X'] hx)
      (goesOn_digits (fun _ => isNumeric_of_isBinary) hs)

theorem begins_floating (h : IsFloating s) : Begins s := by
  cases h with
  | pointed hm => exact begins_mantissa hm
  | scaled hm he => exact (begins_mantissa hm).append (goesOn_exponent (by decide) he)
  | hex hx hm he =>
    exact begins_radix (List.mem_append_left ['b', 'B'] hx)
      ((goesOn_mantissa (fun _ => isNumeric_of_isHex) hm).append (goesOn_exponent (by decide) he))

theorem begins_numericLiteral (h : IsNumericLiteral s) : Begins s := by
  have hwhole : ∀ suffix ∈ wholeSuffixes, suffix.all isNumeric := by decide
  have hfloating : ∀ suffix ∈ floatingSuffixes, suffix.all isNumeric := by decide
  cases h with
  | whole hs hsuffix => exact (begins_whole hs).append (goesOn_of_all (hwhole _ hsuffix))
  | floating hs hsuffix => exact (begins_floating hs).append (goesOn_of_all (hfloating _ hsuffix))

theorem readsIff_numericLiteral (h : IsNumericLiteral s) : ReadsIff s [.number s] True := by
  intro c hc hquote rest ts
  have hends : continuesNumber s c = false := by
    have hfixed : isNumberChar c = false ∧ (c == '+' || c == '-') = false := by
      obtain rfl | rfl | rfl | rfl := mem_closers.1 hc <;> decide
    rw [continuesNumber, hfixed.1, hfixed.2]
    rfl
  have houtside : outsideStep c = some ([.mark c], .outside) := (step_mark hc hquote).1
  have hstep : step (.number s) c = some ([.number s, .mark c], .outside) := by
    rw [step, hends, if_neg (by decide), houtside]
    rfl
  have hall : stepAll (.number s) [c] = some ([.number s, .mark c], .outside) := by
    simp [stepAll, hstep]
  rw [(begins_numericLiteral h).reads, true_and]
  exact tokensAt_fixed hall

end Introspect.Cpp
