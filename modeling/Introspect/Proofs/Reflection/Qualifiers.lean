import Introspect.Proofs.Reflection.Alignment
import Introspect.Proofs.Reflection.Resolution

/-! Qualifiers in front of the spelling of a type. Stripping ends and takes off the longest sequence
of them, however the words of it are ordered and repeated; sequences are read in one way, since no
word starts like another one. Variants of a reported type differ in such sequences, so what was
recorded for one of them is found for the others. -/
namespace Introspect.Qualifiers

/-! ## Sequences of words -/

/-- Words one behind another, in any order and number. -/
inductive Sequence : List Char → Prop
  | nil : Sequence []
  | cons {w p} (word : w ∈ words) (rest : Sequence p) : Sequence (w.toList ++ p)

/-- No word stands in front. -/
def Bare (s : List Char) : Prop := ∀ w ∈ words, ¬ w.toList <+: s

/-- The longest sequence of words in front of a text. -/
structure LongestFront (p s : List Char) : Prop where
  sequence : Sequence p
  front : p <+: s
  longest : ∀ p', Sequence p' → p' <+: s → p'.length ≤ p.length

section sequences
variable {p p' r r' s : List Char} {v w : String}

theorem Sequence.append (h : Sequence p) (h' : Sequence p') : Sequence (p ++ p') := by
  induction h with
  | nil => exact h'
  | cons hw _ ih =>
    rw [List.append_assoc]
    exact .cons hw ih

theorem Sequence.of_words {l : List String} (h : ∀ w ∈ l, w ∈ words) :
    Sequence (l.flatMap String.toList) := by
  induction l with
  | nil => exact .nil
  | cons w l ih =>
    obtain ⟨hw, hl⟩ := List.forall_mem_cons.1 h
    rw [List.flatMap_cons]
    exact .cons hw (ih hl)

theorem toList_ne_nil (hw : w ∈ words) : w.toList ≠ [] :=
  List.ne_nil_of_length_pos (length_toList_pos hw)

/-- The shorter one of the words has six characters. -/
theorem Sequence.length_le (h : Sequence p) (hp : p ≠ []) : 6 ≤ p.length := by
  cases h with
  | nil => exact absurd rfl hp
  | cons hw _ =>
    have hlength : ∀ w ∈ words, 6 ≤ w.toList.length := by decide
    rw [List.length_append]
    exact (hlength _ hw).trans (Nat.le_add_right ..)

/-- Different words have different first letters. -/
theorem words_apart (hv : v ∈ words) (hw : w ∈ words)
    (h : v.toList ++ r = w.toList ++ r') : v = w := by
  have hheads : ∀ v ∈ words, ∀ w ∈ words, v.toList.head? = w.toList.head? → v = w := by decide
  have hhead := congrArg List.head? h
  rw [List.head?_append_of_ne_nil _ (toList_ne_nil hv),
    List.head?_append_of_ne_nil _ (toList_ne_nil hw)] at hhead
  exact hheads v hv w hw hhead

theorem Bare.eq_nil_of_sequence (h : Bare (p ++ r)) (hp : Sequence p) : p = [] := by
  cases hp with
  | nil => rfl
  | @cons w p hw _ => exact absurd ⟨p ++ r, (List.append_assoc ..).symm⟩ (h w hw)

/-- Where no word is left behind a sequence, it goes on from every sequence that the text starts
with. -/
theorem Sequence.exists_append (hp : Sequence p) (hr : Bare r) (hp' : Sequence p')
    (h : p ++ r = p' ++ r') : ∃ q, Sequence q ∧ p = p' ++ q ∧ r' = q ++ r := by
  induction hp' generalizing p with
  | nil => exact ⟨p, hp, rfl, h.symm⟩
  | @cons w p' hw _ ih =>
    rw [List.append_assoc] at h
    cases hp with
    | nil => exact absurd ⟨p' ++ r', h.symm⟩ (hr w hw)
    | @cons v p hv hp =>
      rw [List.append_assoc] at h
      obtain rfl := words_apart hv hw h
      obtain ⟨q, hq, rfl, hbehind⟩ := ih hp (List.append_cancel_left h)
      exact ⟨q, hq, (List.append_assoc ..).symm, hbehind⟩

theorem Sequence.longestFront (hp : Sequence p) (hr : Bare r) : LongestFront p (p ++ r) where
  sequence := hp
  front := List.prefix_append p r
  longest p' hp' hfront := by
    obtain ⟨r', hr'⟩ := hfront
    obtain ⟨q, -, rfl, -⟩ := hp.exists_append hr hp' hr'.symm
    rw [List.length_append]
    exact Nat.le_add_right ..

/-- A text has one rest without words in front. -/
theorem Sequence.rest_unique (hp : Sequence p) (hr : Bare r) (hp' : Sequence p') (hr' : Bare r')
    (h : p ++ r = p' ++ r') : r = r' := by
  obtain ⟨q, hq, -, rfl⟩ := hp.exists_append hr hp' h
  rw [hr'.eq_nil_of_sequence hq, List.nil_append]

end sequences

/-! ## Rounds -/

/-- The rounds that are made from a text, with the number of those that take words off, and what
the last one, which takes none off, leaves. -/
inductive Rounds : List Char → Nat → List Char → Prop
  | stop {s r} (last : round s = (r, false)) : Rounds s 0 r
  | next {s r n t} (taken : round s = (r, true)) (rest : Rounds r n t) : Rounds s (n + 1) t

section rounds
variable {s r : List Char} {b : Bool}

/-- A round takes off a sequence of words, or it finds none in front. -/
theorem round_cases (s : List Char) : (∃ p r, Sequence p ∧ p ≠ [] ∧ s = p ++ r ∧
    round s = (r, true)) ∨ Bare s ∧ round s = (s, false) := by
  obtain ⟨l, hl, hrest, hmark, hnone⟩ := exists_foldl_takeWord words (s, false)
  rw [← round] at hrest hmark
  cases l with
  | nil =>
    have hunmarked : (round s).2 = false := by
      rw [← Bool.not_eq_true, hmark]
      simp
    exact .inr ⟨hnone rfl, Prod.ext hrest.symm hunmarked⟩
  | cons w l =>
    have hmarked : (round s).2 = true := hmark.2 (.inr (List.cons_ne_nil w l))
    have hne : (w :: l).flatMap String.toList ≠ [] := by
      rw [List.flatMap_cons]
      exact List.append_ne_nil_of_left_ne_nil (toList_ne_nil (hl w (List.mem_cons_self ..))) _
    exact .inl ⟨_, (round s).1, .of_words hl, hne, hrest, Prod.ext rfl hmarked⟩

theorem strip_of_round (h : round s = (r, b)) : strip s = if b then strip r else r := by
  rw [strip]
  split
  · next h' =>
    obtain ⟨rfl, rfl⟩ := Prod.mk.inj (h'.symm.trans h)
    rfl
  · next h' =>
    obtain ⟨rfl, rfl⟩ := Prod.mk.inj (h'.symm.trans h)
    rfl

theorem strip_of_bare (h : Bare s) : strip s = s := by
  rcases round_cases s with ⟨p, r, hp, hne, rfl, -⟩ | ⟨-, hround⟩
  · exact absurd (h.eq_nil_of_sequence hp) hne
  · exact strip_of_round hround

/-- Rounds end, since each but the last one takes off a word at least. All that they take off are
words, and none is in front of what they leave. -/
theorem exists_rounds_strip (s : List Char) : ∃ n p, Rounds s n (strip s) ∧ Sequence p ∧
    s = p ++ strip s ∧ Bare (strip s) ∧ 6 * n ≤ p.length := by
  induction hn : s.length using Nat.strong_induction_on generalizing s with
  | _ k ih =>
    rcases round_cases s with ⟨p, r, hp, hne, hs, hround⟩ | ⟨hbare, hround⟩
    · have hless := length_round hround
      obtain ⟨n, p', hrounds, hp', hr, hbare, hlength⟩ := ih r.length (hn ▸ hless) r rfl
      have hstrip : strip s = strip r := strip_of_round hround
      rw [← hstrip] at hrounds hr hbare
      refine ⟨n + 1, p ++ p', .next hround hrounds, hp.append hp', ?_, hbare, ?_⟩
      · rw [List.append_assoc, ← hr, hs]
      · have hword := hp.length_le hne
        rw [List.length_append]
        omega
    · rw [strip_of_bare hbare]
      exact ⟨0, [], .stop hround, .nil, rfl, hbare, Nat.le_refl _⟩

end rounds

/-! ## What is left -/

/-- The same text stands behind words in front of both spellings. -/
def SameBehind (s s' : String) : Prop :=
  ∃ p p' r, Sequence p ∧ Sequence p' ∧ s.toList = p ++ r ∧ s'.toList = p' ++ r

section stripping
variable {p r : List Char} {s s' : String}

/-- Words in front make no difference. -/
theorem strip_append (hp : Sequence p) (r : List Char) : strip (p ++ r) = strip r := by
  obtain ⟨-, q, -, hq, hall, hbare, -⟩ := exists_rounds_strip (p ++ r)
  obtain ⟨-, q', -, hq', hr, hbare', -⟩ := exists_rounds_strip r
  refine hq.rest_unique hbare (hp.append hq') hbare' ?_
  rw [← hall, List.append_assoc, ← hr]

theorem toList_stripped (s : String) : (stripped s).toList = strip s.toList :=
  String.toList_ofList

theorem stripped_of_bare (h : Bare s.toList) : stripped s = s := by
  rw [stripped, strip_of_bare h, String.ofList_toList]

/-- Stripping tells two spellings apart exactly where more than words in front differs. -/
theorem stripped_eq_iff : stripped s = stripped s' ↔ SameBehind s s' := by
  constructor
  · intro h
    obtain ⟨-, p, -, hp, hs, -⟩ := exists_rounds_strip s.toList
    obtain ⟨-, p', -, hp', hs', -⟩ := exists_rounds_strip s'.toList
    rw [← toList_stripped, ← h, toList_stripped] at hs'
    exact ⟨p, p', strip s.toList, hp, hp', hs, hs'⟩
  · rintro ⟨p, p', r, hp, hp', hs, hs'⟩
    rw [stripped, stripped, hs, hs', strip_append hp, strip_append hp']

/-- Qualifiers behind a declarator stay. -/
example : stripped "volatile const char *const" = "char *const" := by decide +kernel

end stripping

end Introspect.Qualifiers

namespace Introspect
open Qualifiers

/-! ## Variants of a type -/

/-- Two types are reported alike as far as their names go, except for qualifiers in front of the
spelling. -/
structure RawType.Variants (t t' : RawType) : Prop where
  kind : t.kind = t'.kind
  declaration : t.declaration = t'.declaration
  spelling : SameBehind t.spelling t'.spelling

theorem RawType.Variants.typeSpelling_eq {t t' : RawType} (h : t.Variants t') (u : RawUnit) :
    u.typeSpelling t = u.typeSpelling t' := by
  have hdeclaration : u.declaration? t = u.declaration? t' := by
    simp only [RawUnit.declaration?, h.declaration]
  unfold RawUnit.typeSpelling
  rw [h.kind, hdeclaration, stripped_eq_iff.2 h.spelling]

namespace Reflection

section names
variable {u : RawUnit} {cwd : List String} {i i' : TypeId} {id id' : String} {t t' : RawType}

theorem recordedName_of_entry (ht : u.types.entries[unwrap (u.toUnit cwd) i]? = some (id, t)) :
    recordedName (u.toUnit cwd) i = u.typeSpelling t := by
  rw [recordedName, RawUnit.type_toUnit, ht]
  rfl

/-- What is recorded for a type is the answer for every type that is recorded under its name. -/
theorem resolveType_of_name_eq {u : CompilationUnit} (h : recordedName u i = recordedName u i')
    (p : Progress) : Yields (resolveType u i) p fun r q =>
      r.qualifiedName = recordedName u i ∧ (resolveType u i').run q = .ok r q := by
  refine (resolveType_spec i).mono ?_
  rintro r q ⟨-, hfound⟩
  refine ⟨Catalog.key_of_find? hfound, resolveType_known ?_⟩
  rwa [Resolved, ← h]

end names

/-- Stripping qualifiers ends, since each round but the last one takes off six characters at least.
What it takes off is the longest sequence of the words `const` and `volatile` in front, in any order
and number, so that neither is left in front and nothing is stripped a second time. Two spellings
come to the same text exactly where they differ in such sequences only. So variants of a type are
spelled alike, and where variants are what is recorded they share one name: the record of the one is
the answer for the other. -/
theorem stripped_longest :
    (∀ s : String,
      (∃ n p, Rounds s.toList n (stripped s).toList ∧ 6 * n ≤ p.length ∧
        LongestFront p s.toList ∧ s.toList = p ++ (stripped s).toList) ∧
      Bare (stripped s).toList ∧ stripped (stripped s) = stripped s ∧
      ∀ s', stripped s = stripped s' ↔ SameBehind s s') ∧
    ∀ u : RawUnit,
      (∀ t t' : RawType, t.Variants t' → u.typeSpelling t = u.typeSpelling t') ∧
      ∀ cwd i i' id id' t t',
        u.types.entries[unwrap (u.toUnit cwd) i]? = some (id, t) →
        u.types.entries[unwrap (u.toUnit cwd) i']? = some (id', t') → t.Variants t' →
        recordedName (u.toUnit cwd) i = recordedName (u.toUnit cwd) i' ∧
        ∀ p r q, (resolveType (u.toUnit cwd) i).run p = .ok r q →
          r.qualifiedName = recordedName (u.toUnit cwd) i ∧
          (resolveType (u.toUnit cwd) i').run q = .ok r q := by
  refine ⟨fun s => ?_, fun u => ⟨fun t t' h => h.typeSpelling_eq u, ?_⟩⟩
  · obtain ⟨n, p, hrounds, hp, hs, hbare, hlength⟩ := exists_rounds_strip s.toList
    have hlongest := hp.longestFront hbare
    rw [← hs] at hlongest
    rw [← toList_stripped] at hrounds hs hbare
    exact ⟨⟨n, p, hrounds, hlength, hlongest, hs⟩, hbare, stripped_of_bare hbare,
      fun s' => stripped_eq_iff⟩
  · intro cwd i i' id id' t t' ht ht' h
    have hname : recordedName (u.toUnit cwd) i = recordedName (u.toUnit cwd) i' := by
      rw [recordedName_of_entry ht, recordedName_of_entry ht', h.typeSpelling_eq u]
    exact ⟨hname, resolveType_of_name_eq hname⟩

/-- A class with the qualifiers that are spelled in front. -/
def qualifiedPlayer (spelling : String) : RawType :=
  { reportedType "RECORD" spelling (some "player") [] with isConst := true }

/-- A class with some of its variants, one of them written without its scope. -/
def players : RawUnit where
  root := "unit"
  cursors := .ofList [
    ("unit", reportedCursor none "TRANSLATION_UNIT" "a.h" none ["game"]),
    ("game", reportedCursor (some "unit") "NAMESPACE" "game" none ["player"]),
    ("player", reportedCursor (some "game") "STRUCT_DECL" "Player" (some "plain") [])]
  types := .ofList [
    ("plain", reportedType "RECORD" "game::Player" (some "player") []),
    ("both", qualifiedPlayer "volatile const game::Player"),
    ("written", { reportedType "ELABORATED" "const Player" none [] with
      isConst := true
      canonical := some "const" }),
    ("const", qualifiedPlayer "const game::Player")]

/-- What is recorded for one variant is found for another, which is written in another way. -/
theorem stripped_longest_players :
    stripped "volatile const game::Player" = stripped "const game::Player" ∧
    ∃ r q, (resolveType (players.toUnit []) 1).run (served (players.toUnit []) .crc32 []) =
        .ok r q ∧ (resolveType (players.toUnit []) 2).run q = .ok r q ∧
      r.qualifiedName = "game::Player" := by
  have hsame : SameBehind "volatile const game::Player" "const game::Player" := by
    refine ⟨["volatile ", "const "].flatMap String.toList, ["const "].flatMap String.toList,
      "game::Player".toList, .of_words ?_, .of_words ?_, ?_, ?_⟩
    all_goals decide
  have hfirst : unwrap (players.toUnit []) 1 = 1 := by decide +kernel
  have hsecond : unwrap (players.toUnit []) 2 = 3 := by decide +kernel
  obtain ⟨r, q, hrun, -⟩ := exists_of_answers
    (show answers (players.toUnit []) [] (.type 1) (fun _ => true) by decide +kernel)
  obtain ⟨-, hall⟩ := (stripped_longest.2 players).2 [] 1 2 "both" "const"
    (qualifiedPlayer "volatile const game::Player") (qualifiedPlayer "const game::Player")
    (by rw [hfirst]; rfl) (by rw [hsecond]; rfl) ⟨rfl, rfl, hsame⟩
  obtain ⟨hname, hagain⟩ := hall _ r q hrun
  exact ⟨((stripped_longest.1 _).2.2.2 _).2 hsame, r, q, hrun, hagain,
    hname.trans (by decide +kernel)⟩

end Reflection
end Introspect
