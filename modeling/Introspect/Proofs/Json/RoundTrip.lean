import Introspect.Json.Reader
import Introspect.Proofs.Catalog
import Introspect.Proofs.Json.Leaf

/-! A JSON value is read back from its text, on one line or indented by blanks. -/
namespace Introspect.Json

mutual
/-- The value can be read back from its text: its whole numbers are not too long, no number has a
fraction or an exponent, and no object holds a name twice. -/
def Exact : Json → Prop
  | .real _ => False
  | .int n => (digitsOf n).length ≤ Text.longestWhole
  | .array items => ItemsExact items
  | .object members => (members.map Prod.fst).Nodup ∧ MembersExact members
  | _ => True
/-- All items can be read back. -/
def ItemsExact : List Json → Prop
  | [] => True
  | x :: xs => Exact x ∧ ItemsExact xs
/-- The values of all members can be read back. -/
def MembersExact : List (String × Json) → Prop
  | [] => True
  | (_, x) :: xs => Exact x ∧ MembersExact xs
end

theorem itemsExact_iff {xs : List Json} : ItemsExact xs ↔ ∀ x ∈ xs, Exact x := by
  induction xs with
  | nil => simp [ItemsExact]
  | cons x xs ih => simp [ItemsExact, ih]

theorem membersExact_iff {ms : List (String × Json)} :
    MembersExact ms ↔ ∀ m ∈ ms, Exact m.2 := by
  induction ms with
  | nil => simp [MembersExact]
  | cons m ms ih => simp [MembersExact, ih]

mutual
/-- The words of a value. -/
def words : Json → List Token
  | .array [] => [.openArray, .closeArray]
  | .array (x :: xs) => .openArray :: (words x ++ (itemWords xs ++ [.closeArray]))
  | .object [] => [.openObject, .closeObject]
  | .object ((k, x) :: xs) =>
    .openObject :: .text k :: .colon :: (words x ++ (memberWords xs ++ [.closeObject]))
  | .text s => [.text s]
  | j => [.leaf j]
/-- The words of the items after the first one. -/
def itemWords : List Json → List Token
  | [] => []
  | x :: xs => .comma :: (words x ++ itemWords xs)
/-- The words of the members after the first one. -/
def memberWords : List (String × Json) → List Token
  | [] => []
  | (k, x) :: xs => .comma :: .text k :: .colon :: (words x ++ memberWords xs)
end

/-! ## The words of the text of a value -/

section printed
variable {indent : Option String}

/-- The indentation is of white space. -/
def IsBlank (indent : Option String) : Prop := ∀ u ∈ indent, ∀ c ∈ u.toList, isSpace c = true

theorem isBlank_blanks (indent : Option Nat) : IsBlank (indent.map blanks) := by
  rintro u hu c hc
  obtain ⟨n, -, rfl⟩ := Option.map_eq_some_iff.1 hu
  rw [blanks, String.toList_ofList] at hc
  rw [List.eq_of_mem_replicate hc]
  decide

private theorem tokensAt_space {c : Char} (hc : isSpace c = true) (r : List Char) :
    tokensAt .outside (c :: r) = tokensAt .outside r := by
  rw [tokensAt, if_pos hc]

private theorem tokensAt_spaces {w : List Char} (hw : ∀ c ∈ w, isSpace c = true) (r : List Char) :
    tokensAt .outside (w ++ r) = tokensAt .outside r := by
  induction w with
  | nil => rfl
  | cons c w ih =>
    rw [List.cons_append, tokensAt_space (hw c (by simp))]
    exact ih fun d hd => hw d (by simp [hd])

private theorem tokensAt_lineStart (hi : IsBlank indent) (depth : Nat) (r : List Char) :
    tokensAt .outside (lineStart indent depth ++ r) = tokensAt .outside r := by
  apply tokensAt_spaces
  cases indent with
  | none => simp [lineStart]
  | some u =>
    intro c hc
    simp only [lineStart, List.mem_cons, List.mem_flatten, List.mem_replicate] at hc
    obtain rfl | ⟨_, ⟨-, rfl⟩, hc⟩ := hc
    · decide
    · exact hi u rfl c hc

private theorem tokensAt_punctuation {c : Char} {t : Token} (h : punctuation? c = some t)
    (r : List Char) : tokensAt .outside (c :: r) = t :: tokensAt .outside r := by
  have hc : isSpace c = false ∧ c ≠ '"' ∧ isWordChar c = false := by
    unfold punctuation? at h
    split at h <;> first | decide | cases h
  rw [tokensAt, if_neg (by simp [hc.1]), if_neg hc.2.1, if_neg (by simp [hc.2.2]), h]

private theorem tokensAt_separator (hi : IsBlank indent) (depth : Nat) (r : List Char) :
    tokensAt .outside (separator indent depth ++ r) = .comma :: tokensAt .outside r := by
  cases indent with
  | none =>
    change tokensAt .outside (',' :: ' ' :: r) = _
    rw [tokensAt_punctuation rfl, tokensAt_space rfl]
  | some u =>
    change tokensAt .outside (',' :: (lineStart (some u) depth ++ r)) = _
    rw [tokensAt_punctuation rfl, tokensAt_lineStart hi]

private theorem tokensAt_colon (r : List Char) :
    tokensAt .outside (':' :: ' ' :: r) = .colon :: tokensAt .outside r := by
  rw [tokensAt_punctuation rfl, tokensAt_space rfl]

private theorem ends_lineStart {depth : Nat} {r : List Char} (hr : Ends r) :
    Ends (lineStart indent depth ++ r) := by
  cases indent with
  | none => exact hr
  | some u => exact ends_cons.2 (by decide)

private theorem ends_separator {depth : Nat} {r : List Char} :
    Ends (separator indent depth ++ r) := by
  cases indent <;> exact ends_cons.2 (by decide)

private theorem ends_itemChars {depth : Nat} {xs : List Json} {r : List Char} (hr : Ends r) :
    Ends (itemChars indent depth xs ++ r) := by
  cases xs with
  | nil => exact hr
  | cons x xs => simpa [itemChars] using ends_separator

private theorem ends_memberChars {depth : Nat} {ms : List (String × Json)} {r : List Char}
    (hr : Ends r) : Ends (memberChars indent depth ms ++ r) := by
  cases ms with
  | nil => exact hr
  | cons m ms => simpa [memberChars] using ends_separator

private theorem tokensAt_name (name : String) {j : Json}
    (hw : name.toList ≠ [] ∧ name.toList.all isWordChar = true)
    (hj : wordOf name.toList = .leaf j) {r : List Char} (hr : Ends r) :
    tokensAt .outside (name.toList ++ r) = .leaf j :: tokensAt .outside r := by
  rw [tokensAt_word hw.1 (List.all_eq_true.1 hw.2) hr, hj]

mutual
/-- The text of a value, before any end of a word, has the words of the value. -/
theorem tokensAt_chars (hi : IsBlank indent) (depth : Nat) :
    ∀ j : Json, j.Exact → ∀ r, Ends r →
      tokensAt .outside (chars indent depth j ++ r) = words j ++ tokensAt .outside r
  | .null, _, _, hr => tokensAt_name "null" (by decide) rfl hr
  | .bool true, _, _, hr => tokensAt_name "true" (by decide) rfl hr
  | .bool false, _, _, hr => tokensAt_name "false" (by decide) rfl hr
  | .infinite true, _, _, hr => tokensAt_name "-Infinity" (by decide) rfl hr
  | .infinite false, _, _, hr => tokensAt_name "Infinity" (by decide) rfl hr
  | .undefined, _, _, hr => tokensAt_name "NaN" (by decide) rfl hr
  | .int n, h, _, hr => by
    have hword : numberWord n = .leaf (.int n) := if_pos h
    have htokens := tokensAt_toString n hr
    rw [hword] at htokens
    exact htokens
  | .real _, h, _, _ => by simp [Exact] at h
  | .text s, _, r, _ => tokensAt_quotedText s r
  | .array [], _, r, _ => by
    change tokensAt .outside ('[' :: ']' :: r) = _
    rw [tokensAt_punctuation rfl, tokensAt_punctuation rfl]
    rfl
  | .array (x :: xs), h, r, _ => by
    rw [Exact, ItemsExact] at h
    have hclose : Ends (lineStart indent depth ++ ']' :: r) :=
      ends_lineStart (ends_cons.2 (by decide))
    simp only [chars, words, List.cons_append, List.append_assoc, List.nil_append]
    rw [tokensAt_punctuation rfl, tokensAt_lineStart hi,
      tokensAt_chars hi (depth + 1) x h.1 _ (ends_itemChars hclose),
      tokensAt_itemChars hi (depth + 1) xs h.2 _ hclose, tokensAt_lineStart hi,
      tokensAt_punctuation rfl]
  | .object [], _, r, _ => by
    change tokensAt .outside ('\x7b' :: '\x7d' :: r) = _
    rw [tokensAt_punctuation rfl, tokensAt_punctuation rfl]
    rfl
  | .object ((k, x) :: ms), h, r, _ => by
    rw [Exact, MembersExact] at h
    have hclose : Ends (lineStart indent depth ++ '\x7d' :: r) :=
      ends_lineStart (ends_cons.2 (by decide))
    simp only [chars, words, List.cons_append, List.append_assoc, List.nil_append]
    rw [tokensAt_punctuation rfl, tokensAt_lineStart hi, tokensAt_quotedText, tokensAt_colon,
      tokensAt_chars hi (depth + 1) x h.2.1 _ (ends_memberChars hclose),
      tokensAt_memberChars hi (depth + 1) ms h.2.2 _ hclose, tokensAt_lineStart hi,
      tokensAt_punctuation rfl]
/-- The text of further items. -/
theorem tokensAt_itemChars (hi : IsBlank indent) (depth : Nat) :
    ∀ xs : List Json, ItemsExact xs → ∀ r, Ends r →
      tokensAt .outside (itemChars indent depth xs ++ r) = itemWords xs ++ tokensAt .outside r
  | [], _, _, _ => rfl
  | x :: xs, h, r, hr => by
    rw [ItemsExact] at h
    simp only [itemChars, itemWords, List.cons_append, List.append_assoc]
    rw [tokensAt_separator hi, tokensAt_chars hi depth x h.1 _ (ends_itemChars hr),
      tokensAt_itemChars hi depth xs h.2 r hr]
/-- The text of further members. -/
theorem tokensAt_memberChars (hi : IsBlank indent) (depth : Nat) :
    ∀ ms : List (String × Json), MembersExact ms → ∀ r, Ends r →
      tokensAt .outside (memberChars indent depth ms ++ r) =
        memberWords ms ++ tokensAt .outside r
  | [], _, _, _ => rfl
  | (k, x) :: ms, h, r, hr => by
    rw [MembersExact] at h
    simp only [memberChars, memberWords, List.cons_append, List.append_assoc, List.nil_append]
    rw [tokensAt_separator hi, tokensAt_quotedText, tokensAt_colon,
      tokensAt_chars hi depth x h.1 _ (ends_memberChars hr),
      tokensAt_memberChars hi depth ms h.2 r hr]
end

end printed

/-! ## Reading the words of a value -/

/-- A value never begins with the end of an array. -/
private theorem foldlM_itemOrEnd (o : List Frame) (j : Json) (r : List Token) :
    (words j ++ r).foldlM Reading.step (.itemOrEnd o) =
      (words j ++ r).foldlM Reading.step (.value (.items [] :: o)) := by
  cases j with
  | array xs => cases xs <;> rfl
  | object ms =>
    cases ms with
    | nil => rfl
    | cons m ms => rfl
  | _ => rfl

mutual
/-- The words of a value, wherever one may stand, complete it. -/
theorem foldlM_words :
    ∀ j : Json, j.Exact → ∀ (o : List Frame) (r : List Token),
      (words j ++ r).foldlM Reading.step (.value o) = r.foldlM Reading.step (.complete j o)
  | .null, _, _, _ => rfl
  | .bool _, _, _, _ => rfl
  | .int _, _, _, _ => rfl
  | .real _, h, _, _ => by simp [Exact] at h
  | .infinite _, _, _, _ => rfl
  | .undefined, _, _, _ => rfl
  | .text _, _, _, _ => rfl
  | .array [], _, _, _ => rfl
  | .array (x :: xs), h, o, r => by
    rw [Exact, ItemsExact] at h
    simp only [words, List.cons_append, List.append_assoc, List.nil_append]
    change (words x ++ (itemWords xs ++ .closeArray :: r)).foldlM Reading.step (.itemOrEnd o) = _
    rw [foldlM_itemOrEnd, foldlM_words x h.1, foldlM_itemWords xs h.2]
    rfl
  | .object [], _, _, _ => rfl
  | .object ((k, x) :: ms), h, o, r => by
    rw [Exact, MembersExact] at h
    simp only [words, List.cons_append, List.append_assoc, List.nil_append]
    change (words x ++ (memberWords ms ++ .closeObject :: r)).foldlM Reading.step
      (.value (.members [] k :: o)) = _
    rw [foldlM_words x h.2.1, foldlM_memberWords ms h.2.2 x k [] h.1]
    rfl
/-- The words of further items, with the end of the array. -/
theorem foldlM_itemWords :
    ∀ xs : List Json, ItemsExact xs → ∀ (v : Json) (b : List Json) (o : List Frame)
      (r : List Token),
      (itemWords xs ++ .closeArray :: r).foldlM Reading.step (.complete v (.items b :: o)) =
        r.foldlM Reading.step (.complete (.array ((v :: b).reverse ++ xs)) o)
  | [], _, v, b, o, r => by
    rw [List.append_nil]
    rfl
  | x :: xs, h, v, b, o, r => by
    rw [ItemsExact] at h
    simp only [itemWords, List.cons_append, List.append_assoc]
    change (words x ++ (itemWords xs ++ .closeArray :: r)).foldlM Reading.step
      (.value (.items (v :: b) :: o)) = _
    rw [foldlM_words x h.1, foldlM_itemWords xs h.2]
    simp
/-- The words of further members, with the end of the object. -/
theorem foldlM_memberWords :
    ∀ ms : List (String × Json), MembersExact ms → ∀ (v : Json) (k : String)
      (b : List (String × Json)), ((((k, v) :: b).reverse ++ ms).map Prod.fst).Nodup →
      ∀ (o : List Frame) (r : List Token),
      (memberWords ms ++ .closeObject :: r).foldlM Reading.step (.complete v (.members b k :: o)) =
        r.foldlM Reading.step (.complete (.object (((k, v) :: b).reverse ++ ms)) o)
  | [], _, v, k, b, hb, o, r => by
    rw [List.append_nil] at hb ⊢
    have hclose : closeObject ((k, v) :: b) = .object ((k, v) :: b).reverse := by
      rw [closeObject, Table.entries_ofList hb]
    rw [← hclose]
    rfl
  | (l, x) :: ms, h, v, k, b, hb, o, r => by
    rw [MembersExact] at h
    simp only [memberWords, List.cons_append, List.append_assoc]
    change (words x ++ (memberWords ms ++ .closeObject :: r)).foldlM Reading.step
      (.value (.members ((k, v) :: b) l :: o)) = _
    rw [foldlM_words x h.1, foldlM_memberWords ms h.2 x l ((k, v) :: b) (by simpa using hb)]
    simp
end

/-- Reading is a left inverse of writing, however the text is indented. -/
theorem parse_print {indent : Option String} (hi : IsBlank indent) {j : Json} (hj : j.Exact) :
    parse (print indent j) = .ok j := by
  have htokens : tokens (print indent j).toList = words j := by
    have h := tokensAt_chars hi 0 j hj [] ends_nil
    simpa [tokens, print, tokensAt] using h
  have hread := foldlM_words j hj [] []
  rw [List.append_nil] at hread
  rw [parse, htokens, hread]
  rfl

/-! ## Numbers that are too long -/

/-- Reading comes to a whole number of too many digits. All before it is exact. -/
inductive StopsAt (digits : Nat) : Json → Prop
  | number {n : Int} : (digitsOf n).length = digits → Text.longestWhole < digits →
      StopsAt digits (.int n)
  | item {before after : List Json} {x : Json} : ItemsExact before → StopsAt digits x →
      StopsAt digits (.array (before ++ x :: after))
  | member {before after : List (String × Json)} {k : String} {x : Json} : MembersExact before →
      StopsAt digits x → StopsAt digits (.object (before ++ (k, x) :: after))

section stopping
variable {indent : Option String} {digits : Nat} {x : Json}

/-- Read where a value may stand, the text of the value fails. -/
private def Fails (indent : Option String) (digits : Nat) (x : Json) : Prop :=
  ∀ depth o r, Ends r → (tokensAt .outside (chars indent depth x ++ r)).foldlM Reading.step
    (.value o) = .error (.longNumber digits)

private theorem tokensAt_tooLong {depth : Nat} {n : Int} (hn : Text.longestWhole < (digitsOf n).length)
    {r : List Char} (hr : Ends r) :
    tokensAt .outside (chars indent depth (.int n) ++ r) =
      .long (digitsOf n).length :: tokensAt .outside r := by
  have hword : numberWord n = .long (digitsOf n).length := if_neg (by omega)
  rw [← hword]
  exact tokensAt_toString n hr

private theorem fails_items (hi : IsBlank indent) (hx : Fails indent digits x) {depth : Nat}
    {before after : List Json} (hb : ItemsExact before) {v : Json} {done : List Json}
    {o : List Frame} {r : List Char} (hr : Ends r) :
    (tokensAt .outside (itemChars indent depth (before ++ x :: after) ++ r)).foldlM Reading.step
      (.complete v (.items done :: o)) = .error (.longNumber digits) := by
  induction before generalizing v done with
  | nil =>
    simp only [List.nil_append, itemChars, List.append_assoc]
    rw [tokensAt_separator hi]
    exact hx depth _ _ (ends_itemChars hr)
  | cons y before ih =>
    rw [ItemsExact] at hb
    simp only [List.cons_append, itemChars, List.append_assoc]
    rw [tokensAt_separator hi, tokensAt_chars hi depth y hb.1 _ (ends_itemChars hr)]
    change (words y ++ _).foldlM Reading.step (.value (.items (v :: done) :: o)) = _
    rw [foldlM_words y hb.1]
    exact ih hb.2

private theorem fails_members (hi : IsBlank indent) (hx : Fails indent digits x) {depth : Nat}
    {before after : List (String × Json)} (hb : MembersExact before) {k l : String} {v : Json}
    {done : List (String × Json)} {o : List Frame} {r : List Char} (hr : Ends r) :
    (tokensAt .outside (memberChars indent depth (before ++ (k, x) :: after) ++ r)).foldlM
      Reading.step (.complete v (.members done l :: o)) = .error (.longNumber digits) := by
  induction before generalizing v done l with
  | nil =>
    simp only [List.nil_append, memberChars, List.append_assoc, List.cons_append]
    rw [tokensAt_separator hi, tokensAt_quotedText, tokensAt_colon]
    exact hx depth _ _ (ends_memberChars hr)
  | cons m before ih =>
    obtain ⟨j, y⟩ := m
    rw [MembersExact] at hb
    simp only [List.cons_append, memberChars, List.append_assoc, List.nil_append]
    rw [tokensAt_separator hi, tokensAt_quotedText, tokensAt_colon,
      tokensAt_chars hi depth y hb.1 _ (ends_memberChars hr)]
    change (words y ++ _).foldlM Reading.step (.value (.members ((l, v) :: done) j :: o)) = _
    rw [foldlM_words y hb.1]
    exact ih hb.2

/-- The text does not begin with the end of an array. -/
private theorem foldlM_itemOrEnd_of_stopsAt (h : StopsAt digits x) (depth : Nat) (o : List Frame)
    {r : List Char} (hr : Ends r) :
    (tokensAt .outside (chars indent depth x ++ r)).foldlM Reading.step (.itemOrEnd o) =
      (tokensAt .outside (chars indent depth x ++ r)).foldlM Reading.step
        (.value (.items [] :: o)) := by
  cases h with
  | @number n hlength hlong =>
    rw [tokensAt_tooLong (by omega) hr]
    rfl
  | @item before after y hb hy =>
    obtain ⟨s, hs⟩ : ∃ s, chars indent depth (.array (before ++ y :: after)) ++ r = '[' :: s := by
      cases before <;> exact ⟨_, rfl⟩
    rw [hs, tokensAt_punctuation rfl]
    rfl
  | @member before after k y hb hy =>
    obtain ⟨s, hs⟩ :
        ∃ s, chars indent depth (.object (before ++ (k, y) :: after)) ++ r = '\x7b' :: s := by
      cases before <;> exact ⟨_, rfl⟩
    rw [hs, tokensAt_punctuation rfl]
    rfl

private theorem fails_of_stopsAt (hi : IsBlank indent) (h : StopsAt digits x) :
    Fails indent digits x := by
  induction h with
  | @number n hlength hlong =>
    intro depth o r hr
    rw [tokensAt_tooLong (by omega) hr, hlength]
    rfl
  | @item before after x hb hstop hx =>
    intro depth o r hr
    have hclose : Ends (lineStart indent depth ++ ']' :: r) :=
      ends_lineStart (ends_cons.2 (by decide))
    cases before with
    | nil =>
      simp only [List.nil_append, chars, List.cons_append, List.append_assoc]
      rw [tokensAt_punctuation rfl, tokensAt_lineStart hi]
      change (tokensAt .outside _).foldlM Reading.step (.itemOrEnd o) = _
      rw [foldlM_itemOrEnd_of_stopsAt hstop _ _ (ends_itemChars hclose)]
      exact hx _ _ _ (ends_itemChars hclose)
    | cons y before =>
      rw [ItemsExact] at hb
      simp only [chars, List.cons_append, List.append_assoc, List.nil_append]
      rw [tokensAt_punctuation rfl, tokensAt_lineStart hi,
        tokensAt_chars hi _ y hb.1 _ (ends_itemChars hclose)]
      change (words y ++ _).foldlM Reading.step (.itemOrEnd o) = _
      rw [foldlM_itemOrEnd, foldlM_words y hb.1]
      exact fails_items hi hx hb.2 hclose
  | @member before after k x hb hstop hx =>
    intro depth o r hr
    have hclose : Ends (lineStart indent depth ++ '}' :: r) :=
      ends_lineStart (ends_cons.2 (by decide))
    cases before with
    | nil =>
      simp only [List.nil_append, chars, List.cons_append, List.append_assoc]
      rw [tokensAt_punctuation rfl, tokensAt_lineStart hi, tokensAt_quotedText, tokensAt_colon]
      exact hx _ _ _ (ends_memberChars hclose)
    | cons m before =>
      obtain ⟨j, y⟩ := m
      rw [MembersExact] at hb
      simp only [chars, List.cons_append, List.append_assoc, List.nil_append]
      rw [tokensAt_punctuation rfl, tokensAt_lineStart hi, tokensAt_quotedText, tokensAt_colon,
        tokensAt_chars hi _ y hb.1 _ (ends_memberChars hclose)]
      change (words y ++ _).foldlM Reading.step (.value (.members [] j :: o)) = _
      rw [foldlM_words y hb.1]
      exact fails_members hi hx hb.2 hclose

end stopping

/-- A text in which reading comes to a whole number of too many digits is refused for it. -/
theorem parse_print_of_stopsAt {indent : Option String} (hi : IsBlank indent) {digits : Nat}
    {j : Json} (hj : StopsAt digits j) : parse (print indent j) = .error (.longNumber digits) := by
  have hfails := fails_of_stopsAt hi hj 0 [] [] ends_nil
  rw [List.append_nil] at hfails
  rw [parse, tokens, print, String.toList_ofList, hfails]
  rfl

end Introspect.Json
