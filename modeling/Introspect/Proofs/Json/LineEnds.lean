import Introspect.Proofs.Json.RoundTrip
import Introspect.Text.Lines

/-! Printed JSON text has line feeds for its only line ends, so it comes back from a file as it was
written. -/
namespace Introspect

/-- Text without carriage returns reads as it stands. -/
theorem Text.unifyNewlines_of_not_mem {s : List Char} (h : '\r' ∉ s) : unifyNewlines s = s := by
  induction s with
  | nil => rfl
  | cons c r ih =>
    simp only [List.mem_cons, not_or] at h
    rw [unifyNewlines, ih h.2]
    · rintro _ rfl
      exact absurd rfl h.1
    · rintro rfl
      exact absurd rfl h.1

namespace Json
variable {indent : Option String}

private theorem hexDigit_ne : ∀ n < 16, Text.hexDigit n ≠ '\r' := by decide

private theorem not_mem_hexDigits (width n : Nat) : '\r' ∉ Text.hexDigits width n := by
  induction width generalizing n with
  | zero => simp [Text.hexDigits]
  | succ width ih =>
    have hlast := hexDigit_ne (n % 16) (Nat.mod_lt _ (by decide))
    simp [Text.hexDigits, ih, hlast.symm]

private theorem not_mem_unitEscape (n : Nat) : '\r' ∉ unitEscape n := by
  simp [unitEscape, not_mem_hexDigits]

private theorem not_mem_escapeChar (c : Char) : '\r' ∉ escapeChar c := by
  unfold escapeChar
  by_cases hc : c = '\r'
  · subst hc
    decide
  · repeat' split
    all_goals simp [not_mem_unitEscape, Ne.symm hc]

private theorem not_mem_quotedText (s : String) : '\r' ∉ quotedText s := by
  simp [quotedText, not_mem_escapeChar]

private theorem not_mem_natText (n : Nat) : '\r' ∉ (toString n).toList := by
  intro h
  have hdigit : '\r'.isDigit = true :=
    Nat.isDigit_of_mem_toDigits (n := n) (by decide) (by decide) (Nat.toList_repr ▸ h)
  revert hdigit
  decide

private theorem not_mem_intText (n : Int) : '\r' ∉ (toString n).toList := by
  intro h
  have hword := isWordChar_toString h
  revert hword
  decide

private theorem not_mem_layOut {digits : List Char} (h : '\r' ∉ digits) (last : Int) :
    '\r' ∉ (Decimal.layOut digits last).toList := by
  have hkept : '\r' ∉ (digits.reverse.dropWhile (· == '0')).reverse := fun hm =>
    h (List.mem_reverse.1 ((List.dropWhile_sublist _).subset (List.mem_reverse.1 hm)))
  have hsize : ∀ n : Nat, '\r' ∉
      (if (toString n).length < 2 then "0" ++ toString n else toString n).toList := by
    intro n
    split
    · rw [String.toList_append, List.mem_append, not_or]
      exact ⟨by decide, not_mem_natText n⟩
    · exact not_mem_natText n
  have hmark : ∀ power : Int, '\r' ∉ (if power < 0 then "e-" else "e+").toList := by
    intro power
    split <;> decide
  unfold Decimal.layOut
  dsimp only
  generalize (digits.reverse.dropWhile (· == '0')).reverse = kept at hkept ⊢
  have htake : ∀ n, '\r' ∉ kept.take n := fun n hm => hkept (List.mem_of_mem_take hm)
  have hdrop : ∀ n, '\r' ∉ kept.drop n := fun n hm => hkept (List.mem_of_mem_drop hm)
  split
  · have htail : '\r' ∉ (if (kept.drop 1).isEmpty then [] else '.' :: kept.drop 1) := by
      split
      · exact List.not_mem_nil
      · rw [List.mem_cons, not_or]
        exact ⟨by decide, hdrop 1⟩
    simp only [String.toList_append, String.toList_ofList, List.mem_append, not_or]
    exact ⟨⟨⟨htake 1, htail⟩, hmark _⟩, hsize _⟩
  · split
    · simp [hkept]
    · have htail : ∀ n, '\r' ∉ (if (kept.drop n).isEmpty then ['0'] else kept.drop n) := by
        intro n
        split
        · decide
        · exact hdrop n
      simp only [String.toList_ofList, List.mem_append, List.mem_cons, not_or]
      exact ⟨⟨htake _, by simp⟩, by decide, htail _⟩

private theorem not_mem_decimalText (d : Decimal) : '\r' ∉ d.text.toList := by
  rw [Decimal.text, String.toList_append, List.mem_append, not_or]
  constructor
  · split <;> decide
  · split
    · decide
    · decide
    · exact not_mem_layOut (not_mem_natText _) _

private theorem not_mem_leafText (j : Json) : '\r' ∉ leafText j := by
  cases j with
  | int n => exact not_mem_intText n
  | real d => exact not_mem_decimalText d
  | text s => exact not_mem_quotedText s
  | bool b =>
    cases b with
    | false => exact (by decide : '\r' ∉ "false".toList)
    | true => exact (by decide : '\r' ∉ "true".toList)
  | infinite b =>
    cases b with
    | false => exact (by decide : '\r' ∉ "Infinity".toList)
    | true => exact (by decide : '\r' ∉ "-Infinity".toList)
  | null => exact (by decide : '\r' ∉ "null".toList)
  | undefined => exact (by decide : '\r' ∉ "NaN".toList)
  | array items => exact (by decide : '\r' ∉ "[]".toList)
  | object members => exact (by decide : '\r' ∉ "\x7b\x7d".toList)

section indented
variable (hline : ∀ u ∈ indent, '\r' ∉ u.toList)
include hline

private theorem not_mem_lineStart (depth : Nat) : '\r' ∉ lineStart indent depth := by
  cases indent with
  | none => simp [lineStart]
  | some u => simp [lineStart, hline u rfl]

private theorem not_mem_separator (depth : Nat) : '\r' ∉ separator indent depth := by
  cases indent with
  | none => simp [separator]
  | some u =>
    have hstart := not_mem_lineStart hline depth
    simp [separator, hstart]

mutual
theorem not_mem_chars (depth : Nat) : ∀ j : Json, '\r' ∉ chars indent depth j
  | .null => not_mem_leafText .null
  | .bool b => not_mem_leafText (.bool b)
  | .int n => not_mem_leafText (.int n)
  | .real d => not_mem_leafText (.real d)
  | .infinite b => not_mem_leafText (.infinite b)
  | .undefined => not_mem_leafText .undefined
  | .text s => not_mem_leafText (.text s)
  | .array [] => not_mem_leafText (.array [])
  | .object [] => not_mem_leafText (.object [])
  | .array (x :: xs) => by
    simp [chars, not_mem_lineStart hline, not_mem_chars (depth + 1) x,
      not_mem_itemChars (depth + 1) xs]
  | .object ((k, x) :: ms) => by
    simp [chars, not_mem_lineStart hline, not_mem_quotedText, not_mem_chars (depth + 1) x,
      not_mem_memberChars (depth + 1) ms]
theorem not_mem_itemChars (depth : Nat) : ∀ xs : List Json, '\r' ∉ itemChars indent depth xs
  | [] => by simp [itemChars]
  | x :: xs => by
    simp [itemChars, not_mem_separator hline, not_mem_chars depth x, not_mem_itemChars depth xs]
theorem not_mem_memberChars (depth : Nat) :
    ∀ ms : List (String × Json), '\r' ∉ memberChars indent depth ms
  | [] => by simp [memberChars]
  | (k, x) :: ms => by
    simp [memberChars, not_mem_separator hline, not_mem_quotedText, not_mem_chars depth x,
      not_mem_memberChars depth ms]
end

end indented

theorem unifyNewlines_print (indent : Option Nat) (j : Json) :
    Text.unifyNewlines (print (indent.map blanks) j).toList =
      (print (indent.map blanks) j).toList := by
  have hline : ∀ u ∈ indent.map blanks, '\r' ∉ u.toList := by
    intro u hu
    obtain ⟨n, -, rfl⟩ := Option.map_eq_some_iff.1 hu
    simp [blanks]
  apply Text.unifyNewlines_of_not_mem
  rw [print, String.toList_ofList]
  exact not_mem_chars hline 0 j

end Json
end Introspect
