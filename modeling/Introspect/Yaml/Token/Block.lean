import Introspect.Yaml.Fault
import Introspect.Yaml.Place

/-! Scalars that are blocks of lines, with line ends kept or folded. -/
namespace Introspect.Yaml

/-- What is done with the line ends behind the last line of a block. -/
inductive Chomping where
  | strip
  | clip
  | keep
deriving DecidableEq, Repr

/-- The first line of a block: its chomping, and how far its lines are indented if that is said. -/
structure BlockHeader where
  chomping : Chomping
  increment : Option Nat

def chomping? : Char → Option Chomping
  | '+' => some .keep
  | '-' => some .strip
  | _ => none

/-- A digit from one to nine at the front of a text, or none where there is no digit. -/
def increment : List Char → Except Fault (Option Nat × List Char)
  | c :: r =>
    if c = '0' then .error .token
    else if c.isDigit then .ok (some (c.toNat - 48), r)
    else .ok (none, c :: r)
  | [] => .ok (none, [])

/-- The header behind the mark of a block, both of its parts optional and in either order. -/
def blockHeader (s : List Char) : Except Fault (BlockHeader × List Char) := do
  let (header, r) ← match s.head?.bind chomping? with
    | some c => do
      let (n, r) ← increment (s.drop 1)
      pure (BlockHeader.mk c n, r)
    | none => do
      let (n, r) ← increment s
      match r.head?.bind chomping? with
      | some c => pure (BlockHeader.mk c n, r.drop 1)
      | none => pure (BlockHeader.mk .clip n, r)
  if endsTag r then return (header, r) else throw .token

/-- The ends of empty lines, fewer than `fuel`, and the place behind them. Blanks are passed up to
column `indent`. -/
def blockBreaks (indent : Nat) : Nat → Place → List Char × Place
  | 0, p => ([], p)
  | fuel + 1, p =>
    let blanks := (p.rest.takeWhile (· == ' ')).length
    let q := p.skip (min blanks (indent - p.column))
    match q.lineBreak? with
    | none => ([], q)
    | some (b, q) =>
      let more := blockBreaks indent fuel q
      (b :: more.1, more.2)

/-- The ends of the empty lines before the first line, fewer than `fuel`, how far the furthest of
all these lines is indented, and the place behind the blanks of the first line. -/
def blockIndentation : Nat → Place → List Char × Nat × Place
  | 0, p => ([], p.column, p)
  | fuel + 1, p =>
    let q := p.passBlanks
    match q.lineBreak? with
    | none => ([], q.column, q)
    | some (b, r) =>
      let more := blockIndentation fuel r
      (b :: more.1, max q.column more.2.1, more.2.2)

/-- A block as far as it was read: its text, the end of its last line, the ends of the empty lines
behind it, and the place behind them. -/
structure Block where
  text : List Char
  last : Option Char
  breaks : List Char
  place : Place

def startsLine (indent : Nat) (p : Place) : Bool := p.column == indent && !p.rest.isEmpty

/-- A line that begins with white space is not folded. -/
def beginsBlank (s : List Char) : Bool := s.head?.any fun c => c == ' ' || c == '\t'

/-- The lines of a block, fewer than `fuel`, behind the ends of empty lines. -/
def blockLines (isFolded : Bool) (indent : Nat) : Nat → List Char → Place → Block
  | 0, breaks, p => ⟨[], none, breaks, p⟩
  | fuel + 1, breaks, p =>
    if startsLine indent p then
      let line := p.rest.takeWhile fun c => !isBreak c
      let last := p.lineEnd.lineBreak?
      let start := (last.map Prod.snd).getD p.lineEnd
      let behind := blockBreaks indent (start.rest.length + 1) start
      if startsLine indent behind.2 then
        let joint :=
          if isFolded && last.map Prod.fst == some '\n' && !beginsBlank p.rest &&
              !beginsBlank behind.2.rest then
            if behind.1.isEmpty then [' '] else []
          else (last.map Prod.fst).toList
        let more := blockLines isFolded indent fuel behind.1 behind.2
        { more with text := breaks ++ line ++ joint ++ more.text }
      else ⟨breaks ++ line, last.map Prod.fst, behind.1, behind.2⟩
    else ⟨[], none, breaks, p⟩

def Block.chomped (b : Block) : Chomping → List Char
  | .strip => b.text
  | .clip => b.text ++ b.last.toList
  | .keep => b.text ++ b.last.toList ++ b.breaks

/-- The block behind its mark, and the place where it ends. Its lines are indented as far as the
header says beyond column `least`, otherwise as far as its first line, but at least to `least`. -/
def block (isFolded : Bool) (least : Nat) (p : Place) : Except Fault (List Char × Place) := do
  let (header, r) ← blockHeader p.rest
  match (p.goTo r).passEmpty? with
  | none => throw .token
  | some q =>
    let fuel := q.rest.length + 1
    let b := match header.increment with
      | some n =>
        let indent := least + n - 1
        let empty := blockBreaks indent fuel q
        blockLines isFolded indent fuel empty.1 empty.2
      | none =>
        let empty := blockIndentation fuel q
        blockLines isFolded (max least empty.2.1) fuel empty.1 empty.2.2
    return (b.chomped header.chomping, b.place)

end Introspect.Yaml
