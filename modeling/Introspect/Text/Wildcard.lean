/-! Patterns for file names: a star for any text, a question mark for any character, and sets of
characters in square brackets. -/
namespace Introspect.Text

/-- One element of a pattern. -/
inductive Wild where
  | any
  | one
  | exactly (c : Char)
  | among (negated : Bool) (ranges : List (Char × Char))
deriving DecidableEq, Repr

/-- The ranges of characters between square brackets. -/
def rangesOf : List Char → List (Char × Char)
  | a :: '-' :: b :: r => (a, b) :: rangesOf r
  | a :: r => (a, a) :: rangesOf r
  | [] => []

/-- The set that starts behind an opening bracket, with what follows its closing bracket. A
closing bracket in front belongs to the set. -/
def setOf? (s : List Char) : Option (Wild × List Char) :=
  let negated := s.head? = some '!'
  let body := if negated then s.drop 1 else s
  let front := if body.head? = some ']' then [']'] else []
  let rest := body.drop front.length
  let inside := rest.takeWhile (· != ']')
  if inside.length = rest.length then none
  else some (.among negated (rangesOf (front ++ inside)), rest.drop (inside.length + 1))

/-- The elements of a pattern of at most `n` characters. A bracket that is not closed stands for
itself. -/
def wildsOf : Nat → List Char → List Wild
  | 0, _ => []
  | _, [] => []
  | n + 1, '*' :: r => .any :: wildsOf n r
  | n + 1, '?' :: r => .one :: wildsOf n r
  | n + 1, '[' :: r =>
    match setOf? r with
    | some (w, rest) => w :: wildsOf n rest
    | none => .exactly '[' :: wildsOf n r
  | n + 1, c :: r => .exactly c :: wildsOf n r

/-- Whether one element other than the star stands for a character. -/
def Wild.accepts : Wild → Char → Bool
  | .any, _ => false
  | .one, _ => true
  | .exactly c, d => c == d
  | .among negated ranges, d => (ranges.any fun r => r.1 ≤ d && d ≤ r.2) != negated

/-- Every end of a list, longest first. -/
def ends {α : Type} : List α → List (List α)
  | [] => [[]]
  | a :: r => (a :: r) :: ends r

/-- Whether a text can be cut into parts that the elements stand for, one after another. -/
def wildMatches : List Wild → List Char → Bool
  | [], s => s.isEmpty
  | .any :: ws, s => (ends s).any (wildMatches ws)
  | _ :: _, [] => false
  | w :: ws, c :: r => w.accepts c && wildMatches ws r

def fits (pattern name : String) : Bool :=
  wildMatches (wildsOf pattern.length pattern.toList) name.toList

end Introspect.Text
