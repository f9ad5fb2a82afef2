import Introspect.Json.Printer
import Introspect.Json.Token

/-! Texts and whole numbers are read back from their JSON text, whatever characters the texts
hold. -/
namespace Introspect.Json

/-- A text that does not go on with a character of a number or a name. -/
def Ends (r : List Char) : Prop := ∀ c ∈ r.head?, isWordChar c = false

@[simp] theorem ends_nil : Ends [] := by simp [Ends]

@[simp] theorem ends_cons {c : Char} {r : List Char} : Ends (c :: r) ↔ isWordChar c = false := by
  simp [Ends]

/-! ## Words without quotes -/

private theorem tokensAt_word_of_ends {b r : List Char} (hr : Ends r) :
    tokensAt (.word b) r = wordOf b.reverse :: tokensAt .outside r := by
  cases r with
  | nil => rfl
  | cons c r =>
    have hc : isWordChar c = false := ends_cons.1 hr
    simp [tokensAt, hc]

private theorem tokensAt_word_append {w b r : List Char} (hw : ∀ c ∈ w, isWordChar c = true)
    (hr : Ends r) :
    tokensAt (.word b) (w ++ r) = wordOf (b.reverse ++ w) :: tokensAt .outside r := by
  induction w generalizing b with
  | nil => simpa using tokensAt_word_of_ends hr
  | cons c w ih =>
    have hc := hw c (by simp)
    rw [List.cons_append, tokensAt, if_pos hc, ih fun d hd => hw d (by simp [hd])]
    simp

private theorem isWordChar_cases {c : Char} (h : isWordChar c = true) :
    isSpace c = false ∧ c ≠ '"' := by
  constructor
  · cases hs : isSpace c with
    | false => rfl
    | true =>
      simp only [isSpace, Bool.or_eq_true, beq_iff_eq] at hs
      obtain ((rfl | rfl) | rfl) | rfl := hs <;> revert h <;> decide
  · rintro rfl
    revert h
    decide

theorem tokensAt_word {w r : List Char} (hne : w ≠ []) (hw : ∀ c ∈ w, isWordChar c = true)
    (hr : Ends r) : tokensAt .outside (w ++ r) = wordOf w :: tokensAt .outside r := by
  cases w with
  | nil => exact absurd rfl hne
  | cons c w =>
    have hc := hw c (by simp)
    obtain ⟨hs, hq⟩ := isWordChar_cases hc
    rw [List.cons_append, tokensAt, if_neg (by simp [hs]), if_neg hq, if_pos hc,
      tokensAt_word_append (fun d hd => hw d (by simp [hd])) hr]
    simp

/-! ## Whole numbers -/

theorem natOfDigits_toDigits (n : Nat) : Decimal.natOfDigits (Nat.toDigits 10 n) = n := by
  have h := Nat.ofDigitChars_ten_toDigits (n := n)
  rw [Nat.ofDigitChars_eq_foldl] at h
  exact h

/-- Only zero is written with a leading zero. -/
private theorem head?_toDigits {n : Nat} (hn : n ≠ 0) : (Nat.toDigits 10 n).head? ≠ some '0' := by
  induction n using Nat.strongRecOn with
  | ind n ih =>
    rw [Nat.toDigits_eq_if (by decide)]
    split
    · simpa using hn
    · next h =>
      have hd : n / 10 ≠ 0 := by omega
      cases hq : Nat.toDigits 10 (n / 10) with
      | nil => exact absurd hq Nat.toDigits_ne_nil
      | cons c r => simpa [hq] using ih (n / 10) (by omega) hd

private theorem wholeDigits_toDigits (n : Nat) :
    wholeDigits (Nat.toDigits 10 n) = (Nat.toDigits 10 n, []) := by
  by_cases hn : n = 0
  · subst hn
    rfl
  · have hd : ∀ c ∈ Nat.toDigits 10 n, c.isDigit = true := fun c hc =>
      Nat.isDigit_of_mem_toDigits (by decide) (by decide) hc
    have hh := head?_toDigits hn
    have htake : (Nat.toDigits 10 n ++ []).takeWhile Char.isDigit = Nat.toDigits 10 n ++ [] :=
      List.takeWhile_append_of_pos hd
    have hdrop : (Nat.toDigits 10 n ++ []).dropWhile Char.isDigit = [] :=
      List.dropWhile_append_of_pos hd
    unfold wholeDigits
    split
    · next r hr => simp [hr] at hh
    · rw [List.append_nil] at htake hdrop
      simp [htake, hdrop]

private theorem unsigned_toDigits (negative : Bool) (n : Nat) :
    unsigned negative (Nat.toDigits 10 n) =
      if (Nat.toDigits 10 n).length ≤ Text.longestWhole then
        .leaf (.int (if negative then -(n : Int) else n))
      else .long (Nat.toDigits 10 n).length := by
  have hfraction : startsFraction [] = false := rfl
  simp only [unsigned, wholeDigits_toDigits, List.isEmpty_iff, Nat.toDigits_ne_nil, hfraction,
    natOfDigits_toDigits]
  by_cases hn : (Nat.toDigits 10 n).length ≤ Text.longestWhole
  · have hlong : ¬ Text.longestWhole < (Nat.toDigits 10 n).length := by omega
    simp [hn, hlong]
  · have hlong : Text.longestWhole < (Nat.toDigits 10 n).length := by omega
    simp [hn, hlong]

/-- The decimal digits of a whole number, without its sign. -/
def digitsOf (n : Int) : List Char := Nat.toDigits 10 n.natAbs

private theorem toList_toString (n : Int) :
    (toString n).toList = if 0 ≤ n then digitsOf n else '-' :: digitsOf n := by
  rw [Int.toString_eq_repr, Int.repr_eq_if]
  split
  · next h =>
    have hn : n.toNat = n.natAbs := by omega
    rw [Nat.toList_repr, hn, digitsOf]
  · next h =>
    have hn : (-n).toNat = n.natAbs := by omega
    rw [String.toList_append, Nat.toList_repr, hn, digitsOf]
    rfl

private theorem isDigit_digitsOf {n : Int} {c : Char} (hc : c ∈ digitsOf n) : c.isDigit = true :=
  Nat.isDigit_of_mem_toDigits (by decide) (by decide) hc

theorem isWordChar_toString {n : Int} {c : Char} (hc : c ∈ (toString n).toList) :
    isWordChar c = true := by
  rw [toList_toString] at hc
  have hor : c = '-' ∨ c ∈ digitsOf n := by
    split at hc
    · exact .inr hc
    · simpa using hc
  obtain rfl | hd := hor
  · decide
  · simp [isWordChar, Char.isAlphanum, isDigit_digitsOf hd]

private theorem wordOf_digit {c : Char} (ds : List Char) (hc : c.isDigit = true) :
    wordOf (c :: ds) = unsigned false (c :: ds) := by
  have hname : ∀ w : String, w.toList.head?.any Char.isDigit = false →
      String.ofList (c :: ds) ≠ w := by
    rintro w h rfl
    simp [hc] at h
  have hminus : c ≠ '-' := by
    rintro rfl
    exact absurd hc (by decide)
  unfold wordOf
  split
  case h_7 => simp [hminus]
  all_goals
    next h => exact absurd h (hname _ (by decide))

private theorem wordOf_minus {c : Char} (ds : List Char) (hc : c.isDigit = true) :
    wordOf ('-' :: c :: ds) = unsigned true (c :: ds) := by
  have hname : ∀ w : String, w.toList.tail.head?.any Char.isDigit = false →
      String.ofList ('-' :: c :: ds) ≠ w := by
    rintro w h rfl
    simp [hc] at h
  unfold wordOf
  split
  case h_7 => rfl
  all_goals
    next h => exact absurd h (hname _ (by decide))

/-- The word of a whole number, which is not read when it is too long. -/
def numberWord (n : Int) : Token :=
  if (digitsOf n).length ≤ Text.longestWhole then .leaf (.int n) else .long (digitsOf n).length

theorem wordOf_toString (n : Int) : wordOf (toString n).toList = numberWord n := by
  rw [toList_toString]
  cases hd : digitsOf n with
  | nil => exact absurd hd Nat.toDigits_ne_nil
  | cons c ds =>
    have hc : c.isDigit = true := isDigit_digitsOf (n := n) (by simp [hd])
    split
    · next h =>
      have hsize : (n.natAbs : Int) = n := by omega
      rw [wordOf_digit ds hc, ← hd, digitsOf, unsigned_toDigits, numberWord, digitsOf]
      simp only [Bool.false_eq_true, ↓reduceIte, hsize]
    · next h =>
      have hsize : -(n.natAbs : Int) = n := by omega
      rw [wordOf_minus ds hc, ← hd, digitsOf, unsigned_toDigits, numberWord, digitsOf]
      simp only [↓reduceIte, hsize]

theorem tokensAt_toString (n : Int) {r : List Char} (hr : Ends r) :
    tokensAt .outside ((toString n).toList ++ r) = numberWord n :: tokensAt .outside r := by
  have hne : (toString n).toList ≠ [] := by
    rw [toList_toString]
    split <;> simp [digitsOf]
  rw [tokensAt_word hne (fun c hc => isWordChar_toString hc) hr, wordOf_toString]

/-! ## Texts in quotes -/

private theorem hexValue?_hexDigit : ∀ d < 16, hexValue? (Text.hexDigit d) = some d := by decide

private theorem tokensAt_unitEscape (p : Draft) {n : Nat} (hn : n < 0x10000) (r : List Char) :
    tokensAt (.quoted p) (unitEscape n ++ r) = tokensAt (.quoted (p.pushUnit n)) r := by
  have hvalue : 16 * (16 * (16 * (n / 16 / 16 / 16 % 16) + n / 16 / 16 % 16) + n / 16 % 16) +
      n % 16 = n := by omega
  have hd : ∀ m, hexValue? (Text.hexDigit (m % 16)) = some (m % 16) := fun m =>
    hexValue?_hexDigit _ (Nat.mod_lt _ (by decide))
  simp [unitEscape, Text.hexDigits, tokensAt, hd, hvalue]

/-- A character beyond 16 bits is the character of its two surrogates. -/
private theorem pushUnit_surrogates (b : List Char) (c : Char) (hc : 0x10000 ≤ c.toNat) :
    ((Draft.mk b none).pushUnit (0xD800 + (c.toNat - 0x10000) / 0x400)).pushUnit
      (0xDC00 + (c.toNat - 0x10000) % 0x400) = ⟨c :: b, none⟩ := by
  have hmax : c.toNat < 0x110000 := by
    rcases c.valid with h | h
    · exact Nat.lt_trans h (by decide)
    · exact h.2
  have hhigh : (c.toNat - 0x10000) / 0x400 < 0x400 := by omega
  have hlow : (c.toNat - 0x10000) % 0x400 < 0x400 := Nat.mod_lt _ (by decide)
  have hback : 0x10000 + (c.toNat - 0x10000) / 0x400 * 0x400 + (c.toNat - 0x10000) % 0x400 =
      c.toNat := by omega
  have hfirst : (Draft.mk b none).pushUnit (0xD800 + (c.toNat - 0x10000) / 0x400) =
      ⟨b, some (0xD800 + (c.toNat - 0x10000) / 0x400)⟩ := by
    rw [Draft.pushUnit, if_pos (by omega)]
    rfl
  rw [hfirst, Draft.pushUnit, if_neg (by omega), if_pos (by omega)]
  simp [hback, Char.ofNat_toNat]

private theorem pushUnit_of_lt (b : List Char) (c : Char) (hc : c.toNat < 0x10000) :
    (Draft.mk b none).pushUnit c.toNat = ⟨c :: b, none⟩ := by
  have hvalid : c.toNat < 0xD800 ∨ 0xDFFF < c.toNat := by
    rcases c.valid with h | h
    · exact .inl h
    · exact .inr h.1
  rw [Draft.pushUnit, if_neg (by omega), if_neg (by omega)]
  simp [Draft.push, Draft.settled, Char.ofNat_toNat]

private theorem tokensAt_escapeChar (b : List Char) (c : Char) (r : List Char) :
    tokensAt (.quoted ⟨b, none⟩) (escapeChar c ++ r) = tokensAt (.quoted ⟨c :: b, none⟩) r := by
  have hpush : ∀ d, (Draft.mk b none).push d = ⟨d :: b, none⟩ := fun d => rfl
  unfold escapeChar
  split
  · next h => subst h; simp [tokensAt, escaped?, hpush]
  split
  · next h => subst h; simp [tokensAt, escaped?, hpush]
  split
  · next h => subst h; simp [tokensAt, escaped?, hpush]
  split
  · next h => subst h; simp [tokensAt, escaped?, hpush]
  split
  · next h => subst h; simp [tokensAt, escaped?, hpush]
  split
  · next h => subst h; simp [tokensAt, escaped?, hpush]
  split
  · next h => subst h; simp [tokensAt, escaped?, hpush]
  split
  · next hq hb _ _ _ _ _ h =>
    simp only [Bool.and_eq_true, decide_eq_true_eq] at h
    have hprintable : ¬ c.toNat < 0x20 := by omega
    simp [tokensAt, hq, hb, hprintable, hpush]
  split
  · next h => rw [tokensAt_unitEscape _ h, pushUnit_of_lt b c h]
  · next h =>
    have hc : 0x10000 ≤ c.toNat := by omega
    have hmax : c.toNat < 0x110000 := by
      rcases c.valid with h | h
      · exact Nat.lt_trans h (by decide)
      · exact h.2
    simp only
    rw [List.append_assoc, tokensAt_unitEscape _ (by omega), tokensAt_unitEscape _ (by omega),
      pushUnit_surrogates b c hc]

private theorem tokensAt_escapes (b s r : List Char) :
    tokensAt (.quoted ⟨b, none⟩) (s.flatMap escapeChar ++ '"' :: r) =
      .text (String.ofList (b.reverse ++ s)) :: tokensAt .outside r := by
  induction s generalizing b with
  | nil => simp [tokensAt, Draft.finish, Draft.settled]
  | cons c s ih =>
    rw [List.flatMap_cons, List.append_assoc, tokensAt_escapeChar, ih]
    simp

/-- A text in quotes is read back whatever follows it. -/
theorem tokensAt_quotedText (s : String) (r : List Char) :
    tokensAt .outside (quotedText s ++ r) = .text s :: tokensAt .outside r := by
  have hquote : isSpace '"' = false := by decide
  have h := tokensAt_escapes [] s.toList r
  simp only [List.reverse_nil, List.nil_append, String.ofList_toList] at h
  simp only [quotedText, List.cons_append, List.append_assoc, List.nil_append, tokensAt, hquote,
    Bool.false_eq_true, ↓reduceIte]
  exact h

end Introspect.Json
