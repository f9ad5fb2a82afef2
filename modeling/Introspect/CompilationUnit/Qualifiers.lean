import Introspect.Text.Cut

/-! Qualifiers of constness in front of the spelling of a type. -/
namespace Introspect.Qualifiers

/-- The words of constness, each with the one blank behind it. -/
def words : List String := ["const ", "volatile "]

/-- Takes a word off the front of a text, when it stands there, and marks that one was taken. -/
def takeWord (q : List Char × Bool) (w : String) : List Char × Bool :=
  match Text.dropPrefix? w.toList q.1 with
  | some r => (r, true)
  | none => q

theorem takeWord_cases (q : List Char × Bool) (w : String) :
    (∃ r, q.1 = w.toList ++ r ∧ takeWord q w = (r, true)) ∨
      ¬ w.toList <+: q.1 ∧ takeWord q w = q := by
  unfold takeWord
  split
  · next r hr => exact .inl ⟨r, Text.dropPrefix?_eq_some_iff.1 hr, rfl⟩
  · next hnone =>
    refine .inr ⟨?_, rfl⟩
    rintro ⟨r, hr⟩
    rw [Text.dropPrefix?_eq_some_iff.2 hr.symm] at hnone
    cases hnone

/-- One round: each word in its turn is taken off once, from what those before it have left. -/
def round (s : List Char) : List Char × Bool := words.foldl takeWord (s, false)

/-- What is taken off are words, one behind another. Only where it is nothing no word is marked as
taken, and then none of them is in front. -/
theorem exists_foldl_takeWord (ws : List String) (q : List Char × Bool) : ∃ l : List String,
    (∀ w ∈ l, w ∈ ws) ∧ q.1 = l.flatMap String.toList ++ (ws.foldl takeWord q).1 ∧
      ((ws.foldl takeWord q).2 = true ↔ q.2 = true ∨ l ≠ []) ∧
      (l = [] → ∀ w ∈ ws, ¬ w.toList <+: q.1) := by
  induction ws generalizing q with
  | nil => exact ⟨[], by simp, rfl, by simp, by simp⟩
  | cons w ws ih =>
    rw [List.foldl_cons]
    obtain ⟨l, hl, hrest, hmark, hnone⟩ := ih (takeWord q w)
    have hlater : ∀ v ∈ l, v ∈ w :: ws := fun v hv => List.mem_cons_of_mem _ (hl v hv)
    rcases takeWord_cases q w with ⟨r, hr, htaken⟩ | ⟨hfront, hsame⟩
    · rw [htaken] at hrest hmark ⊢
      have hne : w :: l ≠ [] := List.cons_ne_nil w l
      refine ⟨w :: l, List.forall_mem_cons.2 ⟨List.mem_cons_self .., hlater⟩, ?_, ?_,
        fun h => absurd h hne⟩
      · rw [hr, List.flatMap_cons, List.append_assoc, ← hrest]
      · exact iff_of_true (hmark.2 (.inl rfl)) (.inr hne)
    · rw [hsame] at hrest hmark hnone ⊢
      exact ⟨l, hlater, hrest, hmark, fun h => List.forall_mem_cons.2 ⟨hfront, hnone h⟩⟩

theorem length_toList_pos {w : String} (hw : w ∈ words) : 0 < w.toList.length := by
  have hwords : ∀ w ∈ words, 0 < w.toList.length := by decide
  exact hwords w hw

/-- Where a word is taken off the text gets shorter. -/
theorem length_round {s r : List Char} (h : round s = (r, true)) : r.length < s.length := by
  obtain ⟨l, hl, hrest, hmark, -⟩ := exists_foldl_takeWord words (s, false)
  rw [← round, h] at hrest hmark
  have hne : l ≠ [] := (hmark.1 rfl).resolve_left Bool.false_ne_true
  obtain ⟨w, l, rfl⟩ := List.exists_cons_of_ne_nil hne
  have hpositive := length_toList_pos (hl w (List.mem_cons_self ..))
  have hlength := congrArg List.length hrest
  simp only [List.flatMap_cons, List.length_append] at hlength
  omega

/-- What is left of a text when rounds are made until one takes nothing off. -/
def strip (s : List Char) : List Char :=
  match _h : round s with
  | (r, true) => strip r
  | (r, false) => r
termination_by s.length
decreasing_by exact length_round _h

def stripped (s : String) : String := String.ofList (strip s.toList)

end Introspect.Qualifiers
