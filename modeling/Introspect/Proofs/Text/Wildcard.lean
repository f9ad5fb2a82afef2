import Mathlib.Data.List.Infix
import Introspect.Text.Wildcard

/-! Patterns that are a star with a plain text behind it fit the names that end in the text. -/
namespace Introspect.Text

/-- No character has a meaning of its own in a pattern. -/
def Plain (s : List Char) : Prop := ∀ c ∈ s, c ≠ '*' ∧ c ≠ '?' ∧ c ≠ '['

instance (s : List Char) : Decidable (Plain s) :=
  List.decidableBAll (fun c => c ≠ '*' ∧ c ≠ '?' ∧ c ≠ '[') s

theorem wildsOf_plain {s : List Char} (h : Plain s) {n : Nat} (hn : s.length ≤ n) :
    wildsOf n s = s.map .exactly := by
  induction s generalizing n with
  | nil => cases n <;> rfl
  | cons c s ih =>
    obtain ⟨n, rfl⟩ : ∃ m, n = m + 1 := ⟨n - 1, by simp at hn; omega⟩
    obtain ⟨hstar, hone, hset⟩ := h c (List.mem_cons_self ..)
    have hrest := ih (fun d hd => h d (List.mem_cons_of_mem _ hd)) (n := n) (by simpa using hn)
    rw [wildsOf, hrest, List.map_cons] <;> simp_all

theorem wildMatches_exactly {s t : List Char} :
    wildMatches (s.map .exactly) t = true ↔ s = t := by
  induction s generalizing t with
  | nil => cases t <;> simp [wildMatches]
  | cons c s ih =>
    cases t with
    | nil => simp [wildMatches]
    | cons d t => simp [wildMatches, Wild.accepts, ih]

theorem mem_ends {α : Type} {l r : List α} : r ∈ ends l ↔ r <:+ l := by
  induction l with
  | nil => simp [ends]
  | cons a l ih => rw [ends, List.mem_cons, ih, List.suffix_cons_iff]

/-- A star stands for any text. -/
theorem fits_star {e name : String} (he : Plain e.toList) :
    fits ("*" ++ e) name = true ↔ e.toList <:+ name.toList := by
  have hpattern : ("*" ++ e).toList = '*' :: e.toList := by simp
  have hlength : ("*" ++ e).length = e.toList.length + 1 := by
    rw [← String.length_toList, hpattern, List.length_cons]
  rw [fits, hpattern, hlength, wildsOf, wildsOf_plain he le_rfl, wildMatches, List.any_eq_true]
  simp only [wildMatches_exactly, mem_ends]
  exact ⟨fun ⟨r, hr, h⟩ => h ▸ hr, fun h => ⟨_, h, rfl⟩⟩

end Introspect.Text
