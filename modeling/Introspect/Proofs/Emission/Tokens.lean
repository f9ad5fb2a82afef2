import Introspect.Json.Token
import Introspect.Proofs.Text.Trim

/-! Tokens of C++20, as far as the initialisers of arrays need them, and which string literals
denote the very text between their quotes. -/
namespace Introspect.Cpp

/-- A token. A string literal is given by the bytes that it denotes in UTF-8, a number or a word by
its characters. Operators are taken character by character. -/
inductive Token where
  | text (bytes : List UInt8)
  | number (spelling : List Char)
  | word (spelling : List Char)
  | mark (c : Char)
deriving DecidableEq

/-- Where in a token the reading of characters stands, with what has been read of it. `behind` is
the place right behind a string literal. -/
inductive Place where
  | outside
  | behind
  | word (before : List Char)
  | number (before : List Char)
  | point
  | quoted (bytes : List UInt8)
  | escape (bytes : List UInt8)
  | octal (bytes : List UInt8) (left value : Nat)
  | hex (bytes : List UInt8) (value : Option Nat)
  | universal (bytes : List UInt8) (left value : Nat)
deriving DecidableEq

def utf8 (s : List Char) : List UInt8 := s.flatMap String.utf8EncodeChar

/-- White space. The end of a line is not counted, since the code of an initialiser is one line. -/
def isSpace (c : Char) : Bool := c == ' ' || c == '\t' || c == '\x0b' || c == '\x0c'

/-- A character that a word begins with. Those beyond ASCII are taken for letters. -/
def isWordStart (c : Char) : Bool := c.isAlpha || c == '_' || 0x80 ≤ c.toNat

def isWordChar (c : Char) : Bool := isWordStart c || c.isDigit

/-- A character that a number goes on with. -/
def isNumberChar (c : Char) : Bool := isWordChar c || c == '.' || c == '\x27'

/-- A sign goes on with a number where that has the mark of an exponent. -/
def continuesNumber (before : List Char) (c : Char) : Bool :=
  isNumberChar c ||
    (c == '+' || c == '-') && before.getLast?.any fun e => ['e', 'E', 'p', 'P'].contains e

/-- The words that are part of the string literal behind them. -/
def literalPrefixes : List (List Char) :=
  ["u8", "u", "U", "L", "R", "u8R", "uR", "UR", "LR"].map String.toList

/-- Brackets and operators. There are no comments among the tokens. -/
def marks : List Char := ['\x7b', '\x7d', '(', ')', ',', ';', ':', '+', '-']

/-- The byte that a simple escape stands for. -/
def simpleEscape? : Char → Option UInt8
  | '"' => some 0x22
  | '\x27' => some 0x27
  | '?' => some 0x3F
  | '\\' => some 0x5C
  | 'a' => some 0x07
  | 'b' => some 0x08
  | 'f' => some 0x0C
  | 'n' => some 0x0A
  | 'r' => some 0x0D
  | 't' => some 0x09
  | 'v' => some 0x0B
  | _ => none

def octalValue? (c : Char) : Option Nat :=
  if '0' ≤ c ∧ c ≤ '7' then some (c.toNat - 48) else none

/-- One more character where no token is under way. -/
def outsideStep (c : Char) : Option (List Token × Place) :=
  if isSpace c then some ([], .outside)
  else if c = '"' then some ([], .quoted [])
  else if c.isDigit then some ([], .number [c])
  else if c = '.' then some ([], .point)
  else if isWordStart c then some ([], .word [c])
  else if marks.contains c then some ([.mark c], .outside)
  else none

/-- One more character in a string literal. Lines do not end there. -/
def quotedStep (bytes : List UInt8) (c : Char) : Option (List Token × Place) :=
  if c = '"' then some ([.text bytes], .behind)
  else if c = '\\' then some ([], .escape bytes)
  else if c = '\n' ∨ c = '\r' then none
  else some ([], .quoted (bytes ++ String.utf8EncodeChar c))

/-- The character behind a backslash. -/
def escapeStep (bytes : List UInt8) (c : Char) : Option Place :=
  match simpleEscape? c, octalValue? c with
  | some b, _ => some (.quoted (bytes ++ [b]))
  | none, some d => some (.octal bytes 2 d)
  | none, none =>
    if c = 'x' then some (.hex bytes none)
    else if c = 'u' then some (.universal bytes 4 0)
    else if c = 'U' then some (.universal bytes 8 0)
    else none

/-- The first character behind the digits of a byte. -/
def byteStep (bytes : List UInt8) (value : Nat) (c : Char) : Option (List Token × Place) :=
  if value < 256 then quotedStep (bytes ++ [UInt8.ofNat value]) c else none

/-- One more character behind an octal digit, of which there are at most three. -/
def octalStep (bytes : List UInt8) (left value : Nat) (c : Char) : Option (List Token × Place) :=
  match left, octalValue? c with
  | left + 1, some d => some ([], .octal bytes left (8 * value + d))
  | _, _ => byteStep bytes value c

/-- One more character of a hexadecimal number, which has at least one digit. -/
def hexStep (bytes : List UInt8) (value? : Option Nat) (c : Char) : Option (List Token × Place) :=
  match Json.hexValue? c, value? with
  | some d, value? => some ([], .hex bytes (some (16 * value?.getD 0 + d)))
  | none, some value => byteStep bytes value c
  | none, none => none

/-- One more digit of the number of a character. -/
def universalStep (bytes : List UInt8) (left value : Nat) (c : Char) : Option Place :=
  match Json.hexValue? c with
  | none => none
  | some d =>
    let n := 16 * value + d
    if 1 < left then some (.universal bytes (left - 1) n)
    else if n.isValidChar then some (.quoted (bytes ++ String.utf8EncodeChar (Char.ofNat n)))
    else none

/-- One more character: the tokens that end before it or with it, and the place behind it. A word
right behind a string literal would be a suffix of that. -/
def step : Place → Char → Option (List Token × Place)
  | .outside, c => outsideStep c
  | .behind, c => if isWordStart c then none else outsideStep c
  | .word before, c =>
    if isWordChar c then some ([], .word (before ++ [c]))
    else if c = '"' && literalPrefixes.contains before then none
    else (outsideStep c).map fun x => (.word before :: x.1, x.2)
  | .number before, c =>
    if continuesNumber before c then some ([], .number (before ++ [c]))
    else (outsideStep c).map fun x => (.number before :: x.1, x.2)
  | .point, c => if c.isDigit then some ([], .number ['.', c]) else none
  | .quoted bytes, c => quotedStep bytes c
  | .escape bytes, c => (escapeStep bytes c).map fun p => ([], p)
  | .octal bytes left value, c => octalStep bytes left value c
  | .hex bytes value?, c => hexStep bytes value? c
  | .universal bytes left value, c => (universalStep bytes left value c).map fun p => ([], p)

/-- What is under way where a text ends. No literal may be open. -/
def finish : Place → Option (List Token)
  | .outside => some []
  | .behind => some []
  | .word before => some [.word before]
  | .number before => some [.number before]
  | _ => none

/-- The tokens of a text from a place on. -/
def tokensAt : Place → List Char → Option (List Token)
  | p, [] => finish p
  | p, c :: r =>
    match step p c with
    | none => none
    | some (ts, q) => (tokensAt q r).map (ts ++ ·)

/-- The tokens of a text, if it can be read. -/
def tokens (s : List Char) : Option (List Token) := tokensAt .outside s

/-- The tokens that end in a text, and the place behind it. -/
def stepAll : Place → List Char → Option (List Token × Place)
  | p, [] => some ([], p)
  | p, c :: r =>
    match step p c with
    | none => none
    | some (ts, q) => (stepAll q r).map fun x => (ts ++ x.1, x.2)

theorem tokensAt_append {p q : Place} {s : List Char} {ts : List Token}
    (h : stepAll p s = some (ts, q)) (rest : List Char) :
    tokensAt p (s ++ rest) = (tokensAt q rest).map (ts ++ ·) := by
  induction s generalizing p ts with
  | nil =>
    obtain ⟨rfl, rfl⟩ := Prod.mk.inj (Option.some.inj h)
    simp
  | cons c s ih =>
    rw [stepAll] at h
    split at h
    · cases h
    next ts₁ p₁ hstep =>
    obtain ⟨x, hx, heq⟩ := Option.map_eq_some_iff.1 h
    obtain ⟨rfl, rfl⟩ := Prod.mk.inj heq
    rw [List.cons_append, tokensAt, hstep]
    dsimp only
    rw [ih hx, Option.map_map]
    refine congrArg (Option.map · _) (funext fun us => ?_)
    simp

/-- Fixed code is read as its own tokens. -/
theorem tokensAt_fixed {p q : Place} {fixed rest : List Char} {ts us : List Token}
    (h : stepAll p fixed = some (ts, q)) :
    tokensAt p (fixed ++ rest) = some (ts ++ us) ↔ tokensAt q rest = some us := by
  rw [tokensAt_append h]
  constructor
  · intro hsome
    obtain ⟨vs, hvs, heq⟩ := Option.map_eq_some_iff.1 hsome
    rw [hvs, List.append_cancel_left heq]
  · rintro hus
    rw [hus]
    rfl

/-! ## Bytes of characters -/

@[simp] theorem utf8_nil : utf8 [] = [] := rfl

@[simp] theorem utf8_append (s t : List Char) : utf8 (s ++ t) = utf8 s ++ utf8 t :=
  List.flatMap_append

theorem utf8_singleton (c : Char) : utf8 [c] = String.utf8EncodeChar c := List.append_nil _

theorem length_utf8_singleton_pos (c : Char) : 0 < (utf8 [c]).length := by
  rw [utf8_singleton]
  exact List.length_pos_iff.2 String.utf8EncodeChar_ne_nil

theorem utf8_eq_nil_iff {s : List Char} : utf8 s = [] ↔ s = [] := by
  cases s with
  | nil => simp
  | cons c s => simp [utf8, String.utf8EncodeChar_ne_nil]

theorem length_utf8EncodeChar_le (c : Char) : (String.utf8EncodeChar c).length ≤ 4 := by
  rw [String.length_utf8EncodeChar]
  exact c.utf8Size_le_four

/-- A byte below 128 only comes from the character that it is. -/
private theorem toNat_of_mem_utf8EncodeChar {c : Char} {b : UInt8} (hb : b.toNat < 128)
    (h : b ∈ String.utf8EncodeChar c) : c.toNat = b.toNat := by
  have hlarge : ∀ n k, 128 ≤ k → n + k < 256 → b ≠ UInt8.ofNat (n + k) := by
    rintro n k hk hn rfl
    rw [UInt8.toNat_ofNat', Nat.mod_eq_of_lt hn] at hb
    omega
  rw [String.utf8EncodeChar] at h
  split at h
  · obtain rfl := List.mem_singleton.1 h
    rw [UInt8.toNat_ofNat', Nat.mod_eq_of_lt (by omega)]
    rfl
  split at h
  · simp only [List.mem_cons, List.not_mem_nil, or_false] at h
    rcases h with h | h <;> exact absurd h (hlarge _ _ (by omega) (by omega))
  split at h
  · simp only [List.mem_cons, List.not_mem_nil, or_false] at h
    rcases h with h | h | h <;> exact absurd h (hlarge _ _ (by omega) (by omega))
  · simp only [List.mem_cons, List.not_mem_nil, or_false] at h
    rcases h with h | h | h | h <;> exact absurd h (hlarge _ _ (by omega) (by omega))

/-- The characters that a literal is expected to end with, or that are expected behind it. -/
def closers : List Char := ['"', ')', ',', '\x7d']

theorem mem_closers {c : Char} : c ∈ closers ↔ c = '"' ∨ c = ')' ∨ c = ',' ∨ c = '\x7d' := by
  simp [closers]

section closer
variable {c₀ c : Char} {s u z : List Char} {bytes : List UInt8} {ts : List Token}

/-- The byte of a character of ASCII. -/
def byte (c : Char) : UInt8 := UInt8.ofNat c.toNat

private theorem byte_closer (hc₀ : c₀ ∈ closers) :
    (byte c₀).toNat < 128 ∧ (byte c₀).toNat = c₀.toNat := by
  obtain rfl | rfl | rfl | rfl := mem_closers.1 hc₀ <;> decide

theorem utf8EncodeChar_closer (hc₀ : c₀ ∈ closers) : String.utf8EncodeChar c₀ = [byte c₀] := by
  obtain rfl | rfl | rfl | rfl := mem_closers.1 hc₀ <;> decide

theorem count_utf8EncodeChar (hc₀ : c₀ ∈ closers) (c : Char) :
    (String.utf8EncodeChar c).count (byte c₀) = [c].count c₀ := by
  by_cases h : c = c₀
  · rw [h, utf8EncodeChar_closer hc₀]
    simp
  · obtain ⟨hsmall, hbyte⟩ := byte_closer hc₀
    rw [List.count_eq_zero.2 fun hmem => h ?_, List.count_singleton, if_neg (by simpa using h)]
    exact Char.toNat_inj.1 ((toNat_of_mem_utf8EncodeChar hsmall hmem).trans hbyte)

theorem count_utf8 (hc₀ : c₀ ∈ closers) (s : List Char) :
    (utf8 s).count (byte c₀) = s.count c₀ := by
  induction s with
  | nil => rfl
  | cons c s ih =>
    have hcons : utf8 (c :: s) = String.utf8EncodeChar c ++ utf8 s := rfl
    rw [hcons, List.count_append, count_utf8EncodeChar hc₀, ih, ← List.count_append,
      List.singleton_append]

/-! ## Reading a string literal -/

/-- No character of the text has a meaning of its own inside quotes. -/
def Verbatim (s : List Char) : Prop := ∀ c ∈ s, c ≠ '"' ∧ c ≠ '\\' ∧ c ≠ '\n' ∧ c ≠ '\r'

/-- Characters came to these bytes and are ahead of them by some more. As often as the closer is
among the characters, it is among the bytes. -/
structure Ahead (c₀ : Char) (s : List Char) (bytes : List UInt8) (lag : Nat) : Prop where
  size : bytes.length + lag ≤ (utf8 s).length
  count : s.count c₀ ≤ bytes.count (byte c₀)

/-- What holds at the place that characters of a literal have led to. Only characters that stand for
themselves come to as many bytes as they have. -/
def Held (c₀ : Char) (s : List Char) : Place → Prop
  | .quoted bytes =>
    Ahead c₀ s bytes 0 ∧ ((utf8 s).length ≤ bytes.length → bytes = utf8 s ∧ Verbatim s)
  | .escape bytes => Ahead c₀ s bytes 1
  | .octal bytes _ _ => Ahead c₀ s bytes 2
  | .hex bytes _ => Ahead c₀ s bytes 2
  | .universal bytes left _ => ∃ lag, Ahead c₀ s bytes lag ∧ 6 ≤ lag + left
  | _ => False

/-- What one more character does to a literal: it goes on, or the character is the quote at its
end. -/
inductive Outcome (c₀ : Char) (s : List Char) (c : Char) : List Token × Place → Prop
  | goesOn {q : Place} (hq : Held c₀ (s ++ [c]) q) : Outcome c₀ s c ([], q)
  | closes {bytes : List UInt8} (hc : c = '"') (hbytes : Held c₀ s (.quoted bytes)) :
    Outcome c₀ s c ([.text bytes], .behind)

theorem Ahead.snoc {lag lag' : Nat} {new : List UInt8} (h : Ahead c₀ s bytes lag)
    (hcount : [c].count c₀ ≤ new.count (byte c₀)) (hsize : new.length + lag' ≤ lag + 1) :
    Ahead c₀ (s ++ [c]) (bytes ++ new) lag' := by
  have hlength := length_utf8_singleton_pos c
  refine ⟨?_, ?_⟩
  · have := h.size
    rw [utf8_append, List.length_append, List.length_append]
    omega
  · have := h.count
    rw [List.count_append, List.count_append]
    omega

/-- A character that comes to no byte yet. -/
theorem Ahead.keep {lag lag' : Nat} (h : Ahead c₀ s bytes lag) (hc : c ≠ c₀)
    (hlag : lag' ≤ lag + 1) : Ahead c₀ (s ++ [c]) bytes lag' := by
  have hcount : [c].count c₀ ≤ ([] : List UInt8).count (byte c₀) := by
    simp [hc]
  have hahead : Ahead c₀ (s ++ [c]) (bytes ++ []) lag' := h.snoc hcount (by simpa using hlag)
  simpa using hahead

/-- Where fewer bytes are added than the characters are ahead, some characters did not stand for
themselves. -/
theorem Ahead.held {lag : Nat} (h : Ahead c₀ s bytes lag) {new : List UInt8}
    (hnew : new.length < lag) : Held c₀ s (.quoted (bytes ++ new)) := by
  have hsize := h.size
  refine ⟨⟨?_, ?_⟩, fun hle => ?_⟩
  · rw [List.length_append]
    omega
  · rw [List.count_append]
    exact Nat.le_trans h.count (Nat.le_add_right _ _)
  · rw [List.length_append] at hle
    omega

theorem quotedStep_outcome (hc₀ : c₀ ∈ closers) (h : Held c₀ s (.quoted bytes))
    {x : List Token × Place} (hx : quotedStep bytes c = some x) : Outcome c₀ s c x := by
  unfold quotedStep at hx
  split at hx
  next hquote =>
    obtain rfl := Option.some.inj hx
    exact .closes hquote h
  next hquote =>
  split at hx
  next hbackslash =>
    obtain rfl := Option.some.inj hx
    have hne : c ≠ c₀ := by
      rintro rfl
      rw [hbackslash] at hc₀
      revert hc₀
      decide
    exact .goesOn (h.1.keep hne (by decide))
  next hbackslash =>
  split at hx
  · cases hx
  next hbreak =>
  obtain rfl := Option.some.inj hx
  rw [not_or] at hbreak
  refine .goesOn ⟨⟨?_, ?_⟩, fun hle => ?_⟩
  · have := h.1.size
    simp only [utf8_append, utf8_singleton, List.length_append]
    omega
  · rw [List.count_append, List.count_append, count_utf8EncodeChar hc₀]
    exact Nat.add_le_add_right h.1.count _
  · simp only [utf8_append, utf8_singleton, List.length_append, Nat.add_le_add_iff_right] at hle
    obtain ⟨hbytes, hverbatim⟩ := h.2 hle
    refine ⟨by rw [hbytes, utf8_append, utf8_singleton], fun d hd => ?_⟩
    obtain hd | hd := List.mem_append.1 hd
    · exact hverbatim d hd
    · obtain rfl := List.mem_singleton.1 hd
      exact ⟨hquote, hbackslash, hbreak.1, hbreak.2⟩

/-- No closer is a digit or the letter of an escape, and the quote stands for itself there. -/
private theorem closer_escape (hc₀ : c₀ ∈ closers) :
    octalValue? c₀ = none ∧ Json.hexValue? c₀ = none ∧ c₀ ≠ 'x' ∧ c₀ ≠ 'u' ∧ c₀ ≠ 'U' ∧
      (simpleEscape? c₀ = none ∨ simpleEscape? c₀ = some (byte c₀)) := by
  obtain rfl | rfl | rfl | rfl := mem_closers.1 hc₀ <;> decide

private theorem escapeStep_held (hc₀ : c₀ ∈ closers) (h : Ahead c₀ s bytes 1) {q : Place}
    (hq : escapeStep bytes c = some q) : Held c₀ (s ++ [c]) q := by
  obtain ⟨hoctal, -, hx, hu, hU, hsimple⟩ := closer_escape hc₀
  unfold escapeStep at hq
  split at hq
  next b hb =>
    obtain rfl := Option.some.inj hq
    have hcount : [c].count c₀ ≤ [b].count (byte c₀) := by
      by_cases hc : c = c₀
      · subst hc
        obtain hnone | hsome := hsimple
        · cases hnone.symm.trans hb
        · simp [Option.some.inj (hb.symm.trans hsome)]
      · simp [List.count_singleton, hc]
    have hahead : Ahead c₀ (s ++ [c]) (bytes ++ [b]) 1 := h.snoc hcount (by simp)
    have hheld : Held c₀ (s ++ [c]) (.quoted (bytes ++ [b] ++ [])) := hahead.held (by simp)
    simpa using hheld
  next d hd =>
    obtain rfl := Option.some.inj hq
    refine h.keep ?_ (by decide)
    rintro rfl
    rw [hoctal] at hd
    cases hd
  next =>
    split at hq
    next hc =>
      obtain rfl := Option.some.inj hq
      exact h.keep (hc ▸ hx.symm) (by decide)
    split at hq
    next hc =>
      obtain rfl := Option.some.inj hq
      exact ⟨2, h.keep (hc ▸ hu.symm) (by decide), by omega⟩
    split at hq
    next hc =>
      obtain rfl := Option.some.inj hq
      exact ⟨2, h.keep (hc ▸ hU.symm) (by decide), by omega⟩
    · cases hq

private theorem byteStep_outcome (hc₀ : c₀ ∈ closers) (h : Ahead c₀ s bytes 2) {value : Nat}
    {x : List Token × Place} (hx : byteStep bytes value c = some x) : Outcome c₀ s c x := by
  unfold byteStep at hx
  split at hx
  · exact quotedStep_outcome hc₀ (h.held (by simp)) hx
  · cases hx

private theorem octalStep_outcome (hc₀ : c₀ ∈ closers) (h : Ahead c₀ s bytes 2) {left value : Nat}
    {x : List Token × Place} (hx : octalStep bytes left value c = some x) :
    Outcome c₀ s c x := by
  unfold octalStep at hx
  split at hx
  next d hd =>
    obtain rfl := Option.some.inj hx
    have hne : c ≠ c₀ := by
      rintro rfl
      rw [(closer_escape hc₀).1] at hd
      cases hd
    exact .goesOn (h.keep hne (by decide))
  next => exact byteStep_outcome hc₀ h hx

private theorem hexStep_outcome (hc₀ : c₀ ∈ closers) (h : Ahead c₀ s bytes 2)
    {value? : Option Nat} {x : List Token × Place} (hx : hexStep bytes value? c = some x) :
    Outcome c₀ s c x := by
  unfold hexStep at hx
  split at hx
  next d hd =>
    obtain rfl := Option.some.inj hx
    have hne : c ≠ c₀ := by
      rintro rfl
      rw [(closer_escape hc₀).2.1] at hd
      cases hd
    exact .goesOn (h.keep hne (by decide))
  next => exact byteStep_outcome hc₀ h hx
  next => cases hx

private theorem universalStep_held (hc₀ : c₀ ∈ closers) {left value lag : Nat}
    (h : Ahead c₀ s bytes lag) (hlag : 6 ≤ lag + left) {q : Place}
    (hq : universalStep bytes left value c = some q) : Held c₀ (s ++ [c]) q := by
  unfold universalStep at hq
  split at hq
  · cases hq
  next d hd =>
  have hne : c ≠ c₀ := by
    rintro rfl
    rw [(closer_escape hc₀).2.1] at hd
    cases hd
  have hkept := h.keep hne (Nat.le_refl _)
  dsimp only at hq
  split at hq
  · obtain rfl := Option.some.inj hq
    exact ⟨lag + 1, hkept, by omega⟩
  split at hq
  · obtain rfl := Option.some.inj hq
    refine hkept.held (Nat.lt_of_le_of_lt (length_utf8EncodeChar_le _) ?_)
    omega
  · cases hq

/-- One step of a literal. -/
theorem step_outcome (hc₀ : c₀ ∈ closers) {p : Place} (h : Held c₀ s p) {x : List Token × Place}
    (hx : step p c = some x) : Outcome c₀ s c x := by
  cases p with
  | quoted bytes => exact quotedStep_outcome hc₀ h hx
  | escape bytes =>
    obtain ⟨q, hq, rfl⟩ := Option.map_eq_some_iff.1 hx
    exact .goesOn (escapeStep_held hc₀ h hq)
  | octal bytes left value => exact octalStep_outcome hc₀ h hx
  | hex bytes value? => exact hexStep_outcome hc₀ h hx
  | universal bytes left value =>
    obtain ⟨q, hq, rfl⟩ := Option.map_eq_some_iff.1 hx
    obtain ⟨lag, hahead, hlag⟩ := h
    exact .goesOn (universalStep_held hc₀ hahead hlag hq)
  | _ => exact h.elim

/-- A literal that is read ends at a quote, and its token is the first. -/
theorem tokensAt_held (hc₀ : c₀ ∈ closers) {p : Place} (h : Held c₀ s p) {input : List Char}
    (hts : tokensAt p input = some ts) : ∃ a rest bytes ts', input = a ++ '"' :: rest ∧
      ts = .text bytes :: ts' ∧ Held c₀ (s ++ a) (.quoted bytes) ∧
      tokensAt .behind rest = some ts' := by
  induction input generalizing s p ts with
  | nil => cases p <;> first | exact h.elim | cases hts
  | cons c input ih =>
    rw [tokensAt] at hts
    split at hts
    · cases hts
    next ts₁ q hx =>
    obtain ⟨ts₂, hts₂, rfl⟩ := Option.map_eq_some_iff.1 hts
    cases step_outcome hc₀ h hx with
    | goesOn hq =>
      obtain ⟨a, rest, bytes, ts', rfl, rfl, hbytes, hrest⟩ := ih hq hts₂
      exact ⟨c :: a, rest, bytes, ts', rfl, rfl, by simpa using hbytes, hrest⟩
    | closes hc hbytes =>
      exact ⟨[], input, _, ts₂, by simp [hc], rfl, by simpa using hbytes, hts₂⟩

/-- Characters without a meaning of their own are read into the literal as they are. -/
theorem tokensAt_quoted_append (hu : Verbatim u) (bytes : List UInt8) (rest : List Char) :
    tokensAt (.quoted bytes) (u ++ rest) = tokensAt (.quoted (bytes ++ utf8 u)) rest := by
  induction u generalizing bytes with
  | nil => simp
  | cons c u ih =>
    obtain ⟨hquote, hbackslash, hfeed, hreturn⟩ := hu c (by simp)
    have hstep : step (.quoted bytes) c =
        some ([], .quoted (bytes ++ String.utf8EncodeChar c)) := by
      simp [step, quotedStep, hquote, hbackslash, hfeed, hreturn]
    have hutf8 : utf8 (c :: u) = String.utf8EncodeChar c ++ utf8 u := rfl
    rw [List.cons_append, tokensAt, hstep, hutf8, ← List.append_assoc]
    simpa using ih (fun d hd => hu d (by simp [hd])) (bytes ++ String.utf8EncodeChar c)

theorem tokensAt_quoted_close (bytes : List UInt8) (rest : List Char) :
    tokensAt (.quoted bytes) ('"' :: rest) = (tokensAt .behind rest).map (.text bytes :: ·) := rfl

/-- A literal that begins with a text denotes just that text if it ends there and nothing in the
text has a meaning of its own: escapes have more characters than they denote, and a literal that goes
beyond the text denotes one closer too many. -/
theorem tokensAt_quoted_iff (hc₀ : c₀ ∈ closers) :
    tokensAt (.quoted []) (u ++ c₀ :: z) = some (.text (utf8 u) :: ts) ↔
      c₀ = '"' ∧ Verbatim u ∧ tokensAt .behind z = some ts := by
  constructor
  · intro h
    have hstart : Held c₀ [] (.quoted []) :=
      ⟨⟨Nat.le_refl _, Nat.le_refl _⟩, fun _ => ⟨rfl, by simp [Verbatim]⟩⟩
    obtain ⟨a, rest, bytes, ts', hinput, hts, ⟨hahead, hexact⟩, hrest⟩ := tokensAt_held hc₀ hstart h
    obtain ⟨hbytes, rfl⟩ := List.cons.inj hts
    obtain rfl := Token.text.inj hbytes
    rw [List.nil_append] at hahead hexact
    have hsize := hahead.size
    obtain ⟨x, ha, hx⟩ | ⟨x, hu, hx⟩ := List.append_eq_append_iff.1 hinput
    · cases x with
      | nil =>
        obtain ⟨rfl, rfl⟩ := List.cons.inj hx
        rw [List.append_nil] at ha
        subst ha
        exact ⟨rfl, (hexact (Nat.le_refl _)).2, hrest⟩
      | cons d x =>
        obtain ⟨rfl, -⟩ := List.cons.inj hx
        have hcount := hahead.count
        rw [count_utf8 hc₀, ha, List.count_append, List.count_cons_self] at hcount
        omega
    · cases x with
      | nil =>
        obtain ⟨rfl, rfl⟩ := List.cons.inj hx
        rw [List.append_nil] at hu
        subst hu
        exact ⟨rfl, (hexact (Nat.le_refl _)).2, hrest⟩
      | cons d x =>
        have hlonger := length_utf8_singleton_pos d
        have hutf8 : utf8 (d :: x) = utf8 [d] ++ utf8 x := utf8_append [d] x
        rw [hu, utf8_append, hutf8, List.length_append, List.length_append] at hsize
        omega
  · rintro ⟨rfl, hu, hts⟩
    rw [tokensAt_quoted_append hu, tokensAt_quoted_close, hts]
    rfl

/-! ## Quotes that are dropped -/

theorem step_mark (hc : c ∈ closers) (hquote : c ≠ '"') :
    step .outside c = some ([.mark c], .outside) ∧ step .behind c = some ([.mark c], .outside) := by
  obtain rfl | rfl | rfl | rfl := mem_closers.1 hc
  · exact absurd rfl hquote
  all_goals decide

theorem tokensAt_quote {p : Place} (hp : p = .outside ∨ p = .behind) (rest : List Char) :
    tokensAt p ('"' :: rest) = tokensAt (.quoted []) rest := by
  have hnone : (tokensAt (.quoted []) rest).map ([] ++ ·) = tokensAt (.quoted []) rest := by simp
  obtain rfl | rfl := hp <;> exact hnone

/-- Between a literal and a closer there is no quote, since that would open another literal. -/
private theorem tokensAt_quotes_iff (hc : c ∈ closers) (hquote : c ≠ '"') {x : List Char}
    (hx : ∀ d ∈ x, d = '"') : tokensAt .behind (x ++ c :: z) = some (.mark c :: ts) ↔
      x = [] ∧ tokensAt .outside z = some ts := by
  cases x with
  | nil =>
    have hstep : stepAll .behind [c] = some ([.mark c], .outside) := by
      simp [stepAll, (step_mark hc hquote).2]
    rw [and_iff_right rfl]
    exact tokensAt_fixed hstep
  | cons d x =>
    refine ⟨fun h => ?_, fun h => nomatch h.1⟩
    have hstart : Held '"' [] (.quoted []) :=
      ⟨⟨Nat.le_refl _, Nat.le_refl _⟩, fun _ => ⟨rfl, by simp [Verbatim]⟩⟩
    rw [hx d (by simp), List.cons_append, tokensAt_quote (.inr rfl)] at h
    obtain ⟨_, _, _, _, -, hts, -⟩ := tokensAt_held (by decide) hstart h
    cases hts

/-- In front of a closer a piece of code is read as the expected tokens just if it is good. -/
def ReadsIff (code : List Char) (expected : List Token) (good : Prop) : Prop :=
  ∀ c ∈ closers, c ≠ '"' → ∀ rest ts,
    tokensAt .outside (code ++ c :: rest) = some (expected ++ .mark c :: ts) ↔
      good ∧ tokensAt .outside rest = some ts

/-- What begins with a quote is one literal, and denotes the text without the quotes around it, if
it is that text between two quotes and nothing in the text has a meaning of its own. -/
theorem readsIff_text {e : List Char} (he : e.head? = some '"') :
    ReadsIff e [.text (utf8 (Text.trimWhile (· == '"') e))]
      (∃ u, Verbatim u ∧ e = '"' :: (u ++ ['"'])) := by
  intro c hc hquote z ts
  have hcloser : '"' ∈ closers := by decide
  rw [List.singleton_append]
  constructor
  · intro h
    obtain ⟨y, rfl⟩ := List.head?_eq_some_iff.1 he
    have htrim : Text.trimWhile (· == '"') ('"' :: y) = Text.trimWhile (· == '"') y := rfl
    obtain ⟨a, b, hy, ha, hb⟩ := Text.exists_trimWhile (· == '"') y
    rw [htrim, List.cons_append, tokensAt_quote (.inl rfl)] at h
    generalize Text.trimWhile (· == '"') y = u at h hy
    subst hy
    simp only [beq_iff_eq] at ha hb
    -- The quotes that trimming takes off after the first one decide where the first literal ends.
    cases a with
    | nil =>
      cases b with
      | nil =>
        rw [List.nil_append, List.append_nil] at h
        exact absurd ((tokensAt_quoted_iff hc).1 h).1 hquote
      | cons d b =>
        obtain rfl := hb d (by simp)
        rw [List.nil_append, List.append_assoc, List.cons_append] at h
        obtain ⟨-, hu, hrest⟩ := (tokensAt_quoted_iff hcloser).1 h
        obtain ⟨rfl, hz⟩ := (tokensAt_quotes_iff hc hquote fun d hd => hb d (by simp [hd])).1 hrest
        exact ⟨⟨u, hu, rfl⟩, hz⟩
    | cons d a =>
      -- The first literal is empty, and so is the text.
      obtain rfl := ha d (by simp)
      rw [List.cons_append, List.cons_append, List.cons_append, tokensAt_quoted_close] at h
      obtain ⟨ts', hrest, heq⟩ := Option.map_eq_some_iff.1 h
      obtain ⟨hempty, rfl⟩ := List.cons.inj heq
      obtain rfl := utf8_eq_nil_iff.1 (Token.text.inj hempty).symm
      rw [List.append_nil] at hrest
      have hquotes : ∀ d ∈ a ++ b, d = '"' := fun d hd =>
        (List.mem_append.1 hd).elim (fun hd => ha d (by simp [hd])) (hb d)
      obtain ⟨hnone, hz⟩ := (tokensAt_quotes_iff hc hquote hquotes).1 hrest
      obtain ⟨rfl, rfl⟩ := List.append_eq_nil_iff.1 hnone
      exact ⟨⟨[], by simp [Verbatim], rfl⟩, hz⟩
  · rintro ⟨⟨u, hu, rfl⟩, hz⟩
    have htrim : Text.trimWhile (· == '"') ('"' :: (u ++ ['"'])) = u :=
      (Text.trimWhile_append (a := ['"']) (b := ['"']) (by simp) (by simp) u).trans
        (Text.trimWhile_eq_self fun d hd => by simpa using (hu d hd).1)
    rw [htrim, List.cons_append, tokensAt_quote (.inl rfl), List.append_assoc]
    refine (tokensAt_quoted_iff hcloser).2 ⟨rfl, hu, ?_⟩
    exact (tokensAt_quotes_iff hc hquote (by simp)).2 ⟨rfl, hz⟩

end closer

end Introspect.Cpp
