import Introspect.Yaml.Token.Block
import Introspect.Yaml.Token.Plain
import Introspect.Yaml.Token.Property
import Introspect.Yaml.Token.Quoted

/-! The tokens of a text. A token may turn out to be a key only at the colon behind it, and the
marks of the key and of its mapping then go in front of it. -/
namespace Introspect.Yaml

/-- A token that may be a key: how many brackets are open around it, how many tokens stand before
it, whether it can be nothing else, and where it starts. -/
structure PossibleKey where
  level : Nat
  number : Nat
  isRequired : Bool
  start : Place

/-- The reading of a text so far: where it stands, the tokens with the latest first and their
number, the possible keys, the columns of the open block collections with the innermost first,
whether a key may start here, and how many brackets are open. -/
structure Scan where
  place : Place
  tokens : List Token
  count : Nat
  keys : List PossibleKey
  indents : List Nat
  mayStartKey : Bool
  level : Nat

namespace Scan

/-- The start of a text. A byte order mark in front does not count. -/
def start (s : List Char) : Scan :=
  let p := Place.start s
  ⟨if s.head? = some '\uFEFF' then p.next else p, [], 0, [], [], true, 0⟩

/-- The column of the innermost open block collection and one more. -/
def least (s : Scan) : Nat := (s.indents.head?.map (· + 1)).getD 0

def push (t : Token) (s : Scan) : Scan := { s with tokens := t :: s.tokens, count := s.count + 1 }

/-- One more token before the one of the given number. -/
def insertAt (number : Nat) (t : Token) (s : Scan) : Scan :=
  let later := s.count - number
  { s with tokens := s.tokens.take later ++ t :: s.tokens.drop later, count := s.count + 1 }

/-- The reading from the place where `r` is left. -/
def goTo (r : List Char) (s : Scan) : Scan := { s with place := s.place.goTo r }

def next (s : Scan) : Scan := { s with place := s.place.next }

/-- Drops the possible keys that satisfy `f`. None of them must be one for certain. -/
def dropKeys (f : PossibleKey → Bool) (s : Scan) : Except Fault Scan :=
  if s.keys.any fun k => f k && k.isRequired then .error .token
  else .ok { s with keys := s.keys.filter fun k => !f k }

/-- Drops the possible keys that are too far away: a key has at most 1024 characters on one line. -/
def dropStale (s : Scan) : Except Fault Scan :=
  s.dropKeys fun k => k.start.line ≠ s.place.line || 1024 < s.place.index - k.start.index

/-- Drops the possible key inside the innermost brackets. -/
def dropKey (s : Scan) : Except Fault Scan := s.dropKeys (·.level == s.level)

/-- Remembers that the next token may be a key. -/
def saveKey (s : Scan) : Except Fault Scan :=
  if s.mayStartKey then do
    let s ← s.dropKey
    let isRequired := s.level = 0 && s.indents.head? = some s.place.column
    return { s with keys := ⟨s.level, s.count, isRequired, s.place⟩ :: s.keys }
  else .ok s

/-- Closes block collections up to one whose column satisfies `keep`. Inside brackets indentation
does not count. -/
def unwind (keep : Nat → Bool) (s : Scan) : Scan :=
  if s.level ≠ 0 then s
  else
    let closed := s.indents.takeWhile fun n => !keep n
    closed.foldl (fun s _ => s.push .blockEnd) { s with indents := s.indents.drop closed.length }

/-- Opens a block collection at a column with the token `t` before the one of the given number,
unless one is open there. -/
def openBlock (column number : Nat) (t : Token) (s : Scan) : Scan :=
  if s.level = 0 && s.least ≤ column then
    { s with indents := column :: s.indents }.insertAt number t
  else s

/-- A line between documents, which closes all block collections. -/
def leave (s : Scan) : Except Fault Scan := do
  let s ← (s.unwind fun _ => false).dropKey
  return { s with mayStartKey := false }

def finish (s : Scan) : Except Fault Scan := do
  let s ← s.leave
  return { s with keys := [] }.push .streamEnd

def marker (t : Token) (s : Scan) : Except Fault Scan := do
  let s ← s.leave
  return { s with place := s.place.skip 3 }.push t

def directiveLine (s : Scan) : Except Fault Scan := do
  let s ← s.leave
  let (d, r) ← directive (s.place.rest.drop 1)
  match (s.place.goTo r).passEmpty? with
  | some p => return { s with place := p }.push (.directive d)
  | none => throw .token

def openFlow (t : Token) (s : Scan) : Except Fault Scan := do
  let s ← s.saveKey
  return { s with level := s.level + 1, mayStartKey := true }.next.push t

def closeFlow (t : Token) (s : Scan) : Except Fault Scan := do
  let s ← s.dropKey
  return { s with level := s.level - 1, mayStartKey := false }.next.push t

def comma (s : Scan) : Except Fault Scan := do
  let s ← s.dropKey
  return { s with mayStartKey := true }.next.push .comma

def item (s : Scan) : Except Fault Scan := do
  if s.level = 0 && !s.mayStartKey then throw .token
  let s ← (s.openBlock s.place.column s.count .sequenceStart).dropKey
  return { s with mayStartKey := true }.next.push .item

def key (s : Scan) : Except Fault Scan := do
  if s.level = 0 && !s.mayStartKey then throw .token
  let s ← (s.openBlock s.place.column s.count .mappingStart).dropKey
  return { s with mayStartKey := s.level = 0 }.next.push .key

/-- The mark of a value. The possible key before it has become one. -/
def value (s : Scan) : Except Fault Scan :=
  match s.keys.find? (·.level == s.level) with
  | some k =>
    let s := { s with keys := s.keys.filter (·.level ≠ s.level), mayStartKey := false }
    let s := (s.insertAt k.number .key).openBlock k.start.column k.number .mappingStart
    .ok (s.next.push .value)
  | none => do
    if s.level = 0 && !s.mayStartKey then throw .token
    let s := s.openBlock s.place.column s.count .mappingStart
    return { s with mayStartKey := s.level = 0 }.next.push .value

/-- A token that may be a key, as `read` finds it behind its first character. -/
def node (read : List Char → Except Fault (Token × List Char)) (s : Scan) : Except Fault Scan := do
  let s ← s.saveKey
  let (t, r) ← read (s.place.rest.drop 1)
  return ({ s with mayStartKey := false }.goTo r).push t

/-- A scalar without quotes. A key may start behind it if its line is over. -/
def plainScalar (s : Scan) : Except Fault Scan := do
  let s ← s.saveKey
  let found := plain (s.level ≠ 0) s.least s.place
  return { s with mayStartKey := found.newLine, place := found.place }.push
    (.scalar (String.ofList found.text) true)

def blockScalar (isFolded : Bool) (s : Scan) : Except Fault Scan := do
  let s ← s.dropKey
  let (text, p) ← block isFolded (max 1 s.least) s.place.next
  return { s with mayStartKey := true, place := p }.push (.scalar (String.ofList text) false)

/-- The characters that no scalar without quotes begins with. -/
def isIndicator (c : Char) : Bool := "-?:,[]\x7b\x7d#&*!|>'\"%@`".toList.contains c

/-- A scalar without quotes begins at the front of a text. A dash begins one before anything but
white space; outside brackets, so do a question mark and a colon. -/
def startsPlain (inFlow : Bool) : List Char → Bool
  | [] => false
  | c :: r =>
    (!endsWord [c] && !isIndicator c) ||
      (!endsWord r && (c == '-' || (!inFlow && (c == '?' || c == ':'))))

/-- The next token, at the first character that is not white space. -/
def token (s : Scan) : Except Fault Scan :=
  let inFlow := s.level ≠ 0
  match s.place.rest with
  | [] => s.finish
  | c :: r =>
    if c = '%' && s.place.column = 0 then s.directiveLine
    else if s.place.column = 0 && isTriple '-' (c :: r) then s.marker .documentStart
    else if s.place.column = 0 && isTriple '.' (c :: r) then s.marker .documentEnd
    else if c = '[' then s.openFlow .openSequence
    else if c = '\x7b' then s.openFlow .openMapping
    else if c = ']' then s.closeFlow .closeSequence
    else if c = '\x7d' then s.closeFlow .closeMapping
    else if c = ',' then s.comma
    else if c = '-' && endsWord r then s.item
    else if c = '?' && (inFlow || endsWord r) then s.key
    else if c = ':' && (inFlow || endsWord r) then s.value
    else if c = '*' then s.node fun r => (nodeName r).map fun x => (.alias x.1, x.2)
    else if c = '&' then s.node fun r => (nodeName r).map fun x => (.anchor x.1, x.2)
    else if c = '!' then s.node fun r => (tag r).map fun x => (.tag x.1, x.2)
    else if c = '|' && !inFlow then s.blockScalar false
    else if c = '>' && !inFlow then s.blockScalar true
    else if c = '"' then s.node fun r => (quoted true r).map fun x => (.scalar x.1 false, x.2)
    else if c = '\x27' then s.node fun r => (quoted false r).map fun x => (.scalar x.1 false, x.2)
    else if startsPlain inFlow (c :: r) then s.plainScalar
    else .error .token

def step (s : Scan) : Except Fault Scan := do
  let (p, newLine) := s.place.toWord (s.place.rest.length + 1)
  let s ← { s with
    place := p
    mayStartKey := s.mayStartKey || (newLine && s.level = 0) }.dropStale
  (s.unwind (· ≤ s.place.column)).token

/-- The number of tokens that cannot change any more: those before the first possible key. -/
def ready (s : Scan) : Nat := s.keys.foldl (fun n k => min n k.number) s.count

end Scan

/-- The tokens of a text, with the fault at which they end if they end before the text. -/
structure Stream where
  tokens : List Token
  fault : Option Fault

/-- The tokens from a point of a reading on, all in fewer than `fuel` steps. When a step fails,
what could still have changed is not given. -/
def Scan.stream : Nat → Scan → Stream
  | 0, s => ⟨s.tokens.reverse, none⟩
  | fuel + 1, s =>
    let result : Except Fault Scan := do
      let t ← s.step
      if t.tokens.head? = some .streamEnd then return t else t.dropStale
    match result with
    | .error f => ⟨s.tokens.reverse.take s.ready, some f⟩
    | .ok t =>
      if t.tokens.head? = some .streamEnd then ⟨t.tokens.reverse, none⟩ else t.stream fuel

/-- The tokens of a text. Every step but the last one passes a character. -/
def tokens (s : List Char) : Stream := (Scan.start s).stream (s.length + 2)

end Introspect.Yaml
