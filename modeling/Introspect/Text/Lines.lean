import Introspect.Text.Blank

/-! Cutting a text into lines at every Unicode line boundary. -/
namespace Introspect.Text

/-- The characters that end a line. A carriage return and a line feed in a row end one line. -/
def isLineBreak (c : Char) : Bool :=
  let n := c.toNat
  (10 ≤ n && n ≤ 13) || (0x1C ≤ n && n ≤ 0x1E) || n == 0x85 || n == 0x2028 || n == 0x2029

/-- The lines of a text without their separators. A separator at the very end opens no further
line, so the empty text has none. -/
def lines : List Char → List (List Char)
  | [] => []
  | '\r' :: '\n' :: r => [] :: lines r
  | c :: r =>
    if isLineBreak c then [] :: lines r
    else match lines r with
      | [] => [[c]]
      | l :: ls => (c :: l) :: ls

def linesOf (s : String) : List String :=
  (lines s.toList).map String.ofList

/-- Every pair of carriage return and line feed, and every single carriage return, read as a
line feed. -/
def unifyNewlines : List Char → List Char
  | [] => []
  | '\r' :: '\n' :: r => '\n' :: unifyNewlines r
  | '\r' :: r => '\n' :: unifyNewlines r
  | c :: r => c :: unifyNewlines r

/-- A text without line boundaries is its own single line. -/
theorem lines_of_no_break {s : List Char} (h : ∀ c ∈ s, isLineBreak c = false) (hs : s ≠ []) :
    lines s = [s] := by
  induction s with
  | nil => exact absurd rfl hs
  | cons c r ih =>
    have hc : isLineBreak c = false := h c (by simp)
    have hr : ∀ d ∈ r, isLineBreak d = false := fun d hd => h d (by simp [hd])
    have hcr : c ≠ '\r' := by
      rintro rfl
      simp [isLineBreak] at hc
    cases r with
    | nil => unfold lines; simp_all [lines]
    | cons d r =>
      have := ih hr (by simp)
      unfold lines
      split <;> simp_all

end Introspect.Text
