import Introspect.Yaml.Place

/-! Scalars without quotes. They may go on over several lines. -/
namespace Introspect.Yaml

/-- The brackets and the comma of collections in brackets. -/
def isFlowMark (c : Char) : Bool :=
  c == ',' || c == '[' || c == ']' || c == '\x7b' || c == '\x7d'

/-- A word without quotes ends at the front of a text: at white space, at a colon that is followed
by white space, and in brackets also at brackets, commas, question marks and colons before them. -/
def endsPlain (inFlow : Bool) (s : List Char) : Bool :=
  endsWord s ||
    match s with
    | ':' :: r => endsWord r || (inFlow && r.head?.any isFlowMark)
    | c :: _ => inFlow && (isFlowMark c || c == '?')
    | [] => true

/-- The word without quotes at the front of a text. -/
def plainWord (inFlow : Bool) : List Char → List Char
  | [] => []
  | c :: r => if endsPlain inFlow (c :: r) then [] else c :: plainWord inFlow r

/-- The ends of empty lines with the place behind them. There are fewer than `fuel`. None are known
when the document ends among them. -/
def emptyLines : Nat → Place → Option (List Char) × Place
  | 0, p => (some [], p)
  | fuel + 1, p =>
    let q := p.passBlanks
    match q.lineBreak? with
    | none => (some [], q)
    | some (b, q) =>
      if isMarker q.rest then (none, q)
      else
        let more := emptyLines fuel q
        (more.1.map (b :: ·), more.2)

/-- What stands between two words: the text it counts for, the place behind it, and whether a line
ended. Without text no word can follow. -/
structure Gap where
  text : List Char
  place : Place
  newLine : Bool

def Gap.at (p : Place) : Gap :=
  let blanks := p.rest.takeWhile (· == ' ')
  let q := p.passBlanks
  match q.lineBreak? with
  | none => ⟨blanks, q, false⟩
  | some (b, q) =>
    if isMarker q.rest then ⟨[], q, true⟩
    else match emptyLines (q.rest.length + 1) q with
      | (none, q) => ⟨[], q, true⟩
      | (some others, q) => ⟨folded b others, q, true⟩

/-- The words that follow a gap, each but the first behind a gap of its own. Outside brackets they
have to stand at column `indent` or behind it. -/
def plainFrom (inFlow : Bool) (indent : Nat) : Nat → Gap → Gap
  | 0, g => ⟨[], g.place, g.newLine⟩
  | fuel + 1, g =>
    let word := plainWord inFlow g.place.rest
    if word.isEmpty then ⟨[], g.place, g.newLine⟩
    else
      let behind := Gap.at (g.place.skip word.length)
      if behind.text.isEmpty || behind.place.rest.head? = some '#' ||
          (!inFlow && behind.place.column < indent) then
        ⟨g.text ++ word, behind.place, behind.newLine⟩
      else
        let more := plainFrom inFlow indent fuel behind
        ⟨g.text ++ word ++ more.text, more.place, more.newLine⟩

def plain (inFlow : Bool) (indent : Nat) (p : Place) : Gap :=
  plainFrom inFlow indent (p.rest.length + 1) ⟨[], p, false⟩

end Introspect.Yaml
