/-! Places in a text, which know their line and column. -/
namespace Introspect.Yaml

def isBreak (c : Char) : Bool :=
  c == '\n' || c == '\r' || c == '\u0085' || c == '\u2028' || c == '\u2029'

/-- A line ends at the front of a text, or the text does. -/
def endsLine : List Char → Bool
  | [] => true
  | c :: _ => isBreak c

/-- A blank stands at the front of a text, or its line ends. -/
def endsTag : List Char → Bool
  | ' ' :: _ => true
  | s => endsLine s

/-- A blank or a tab stands at the front of a text, or its line ends. -/
def endsWord : List Char → Bool
  | '\t' :: _ => true
  | s => endsTag s

/-- A line end at the front of a text: how it counts, and what follows. All but the two separators
count as a line feed. -/
def lineBreak? : List Char → Option (Char × List Char)
  | '\r' :: '\n' :: r => some ('\n', r)
  | c :: r =>
    if isBreak c then some (if c == '\u2028' || c == '\u2029' then c else '\n', r) else none
  | [] => none

/-- What a line end between two words counts for, with the ends of the empty lines behind it: a
single line feed is a blank, and the first of several is dropped. -/
def folded (first : Char) (others : List Char) : List Char :=
  if first ≠ '\n' then first :: others
  else if others.isEmpty then [' ']
  else others

/-- Three times the same character as a word of its own. -/
def isTriple (mark : Char) : List Char → Bool
  | a :: b :: c :: r => a == mark && b == mark && c == mark && endsWord r
  | _ => false

/-- The mark at the start or at the end of a document. -/
def isMarker (s : List Char) : Bool := isTriple '-' s || isTriple '.' s

/-- A place in a text: what follows, and how many characters, line ends and characters of its own
line stand before it. The byte order mark takes up no column. -/
structure Place where
  rest : List Char
  index : Nat
  line : Nat
  column : Nat

namespace Place

def start (s : List Char) : Place := ⟨s, 0, 0, 0⟩

def next (p : Place) : Place :=
  match p.rest with
  | [] => p
  | c :: r =>
    if isBreak c && !(c == '\r' && r.head? == some '\n') then ⟨r, p.index + 1, p.line + 1, 0⟩
    else ⟨r, p.index + 1, p.line, if c = '\uFEFF' then p.column else p.column + 1⟩

def skip : Nat → Place → Place
  | 0, p => p
  | n + 1, p => skip n p.next

/-- The place where `r` is left, which is an end of what follows. -/
def goTo (p : Place) (r : List Char) : Place := skip (p.rest.length - r.length) p

/-- Behind all characters at the front that satisfy `f`. -/
def pass (f : Char → Bool) (p : Place) : Place := p.goTo (p.rest.dropWhile f)

def passBlanks (p : Place) : Place := p.pass (· == ' ')

def lineEnd (p : Place) : Place := p.pass fun c => !isBreak c

def passComment (p : Place) : Place := if p.rest.head? = some '#' then p.lineEnd else p

def lineBreak? (p : Place) : Option (Char × Place) :=
  (Yaml.lineBreak? p.rest).map fun b => (b.1, p.goTo b.2)

/-- Behind a line on which nothing but blanks and a comment is left. -/
def passEmpty? (p : Place) : Option Place :=
  let q := p.passBlanks.passComment
  if endsLine q.rest then some ((q.lineBreak?.map Prod.snd).getD q) else none

/-- Behind blanks, comments and line ends, of which there are fewer than `fuel`; and whether a line
ended. -/
def toWord : Nat → Place → Place × Bool
  | 0, p => (p, false)
  | fuel + 1, p =>
    let q := p.passBlanks.passComment
    match q.lineBreak? with
    | none => (q, false)
    | some (_, q) => ((toWord fuel q).1, true)

end Place
end Introspect.Yaml
