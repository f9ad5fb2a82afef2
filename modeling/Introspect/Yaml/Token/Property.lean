import Introspect.Json.Token
import Introspect.Text.Numeral
import Introspect.Yaml.Fault
import Introspect.Yaml.Place
import Introspect.Yaml.Token

/-! Names of nodes, tags, and directives. -/
namespace Introspect.Yaml

def isNameChar (c : Char) : Bool := c.isAlphanum || c == '-' || c == '_'

/-- The name at the front of a text, and what follows. -/
def name (s : List Char) : Except Fault (String × List Char) :=
  let word := s.takeWhile isNameChar
  if word.isEmpty then .error .token else .ok (String.ofList word, s.drop word.length)

/-- The name of a node at the front of a text, and what follows: white space or a mark that no
name has. -/
def nodeName (s : List Char) : Except Fault (String × List Char) := do
  let (word, r) ← name s
  if endsWord r || r.head?.any "?:,]\x7d%@`".toList.contains then return (word, r) else throw .token

/-- The characters of tags, the percent sign apart. -/
def isTagChar (c : Char) : Bool := c.isAlphanum || "-;/?:@&=+$,_.!~*'()[]".toList.contains c

/-- The bytes written as a percent sign with two hexadecimal digits at the front of a text, and
what follows. -/
def percentBytes : List Char → Except Fault (List UInt8 × List Char)
  | '%' :: a :: b :: r => do
    match Json.hexValue? a, Json.hexValue? b with
    | some m, some n =>
      let (more, r) ← percentBytes r
      return ((16 * m + n).toUInt8 :: more, r)
    | _, _ => throw .token
  | '%' :: _ => .error .token
  | r => .ok ([], r)

/-- The parts of a tag at the front of a text, fewer than `fuel`, and what follows. -/
def tagParts : Nat → List Char → Except Fault (List Char × List Char)
  | 0, s => .ok ([], s)
  | fuel + 1, s =>
    let word := s.takeWhile isTagChar
    let behind := s.drop word.length
    if behind.head? = some '%' then do
      let (bytes, r) ← percentBytes behind
      match String.fromUTF8? ⟨bytes.toArray⟩ with
      | none => throw .token
      | some t =>
        let (more, r) ← tagParts fuel r
        return (word ++ t.toList ++ more, r)
    else .ok (word, behind)

/-- The tag at the front of a text, and what follows. -/
def tagText (s : List Char) : Except Fault (String × List Char) := do
  let (text, r) ← tagParts (s.length + 1) s
  if r.length = s.length then throw .token else return (String.ofList text, r)

/-- A handle of tags, a name between exclamation marks, and what follows. A handle without a name
is a single mark, and one mark before a blank is such a handle. -/
def tagHandle : List Char → Except Fault (String × List Char)
  | '!' :: r =>
    if r.head? = some ' ' then .ok ("!", r)
    else
      let word := r.takeWhile isNameChar
      match r.drop word.length with
      | '!' :: behind => .ok (String.ofList ('!' :: word ++ ['!']), behind)
      | _ => .error .token
  | _ => .error .token

/-- The tag behind an exclamation mark, and what follows. -/
def tag (s : List Char) : Except Fault (Tag × List Char) := do
  let (t, r) ← match s with
    | '<' :: r => do
      match ← tagText r with
      | (suffix, '>' :: r) => pure (Tag.mk none suffix, r)
      | _ => throw .token
    | s =>
      if endsWord s then pure (Tag.mk none "!", s)
      else do
        let word := s.takeWhile fun c => !endsTag [c]
        let (handle, r) ← if word.contains '!' then tagHandle ('!' :: s) else pure ("!", s)
        let (suffix, r) ← tagText r
        pure (Tag.mk (some handle) suffix, r)
  if endsTag r then return (t, r) else throw .token

/-- What follows the blanks at the front of a text. -/
def pastBlanks (s : List Char) : List Char := s.dropWhile (· == ' ')

/-- The whole number at the front of a text, and what follows. -/
def versionPart (s : List Char) : Except Fault (Nat × List Char) :=
  let digits := s.takeWhile Char.isDigit
  if digits.isEmpty then .error .token
  else if Text.longestWhole < digits.length then .error (.value (Text.tooLong digits.length))
  else .ok (Decimal.natOfDigits digits, s.drop digits.length)

/-- A directive behind its percent sign, and what follows it on its line. -/
def directive (s : List Char) : Except Fault (Directive × List Char) := do
  let (word, r) ← name s
  if !endsTag r then throw .token
  if word = "YAML" then
    let (major, r) ← versionPart (pastBlanks r)
    match r with
    | '.' :: r =>
      let (_, r) ← versionPart r
      if endsTag r then return (.version major, r) else throw .token
    | _ => throw .token
  else if word = "TAG" then
    let (handle, r) ← tagHandle (pastBlanks r)
    if r.head? ≠ some ' ' then throw .token
    let (lead, r) ← tagText (pastBlanks r)
    if endsTag r then return (.handle handle lead, r) else throw .token
  else return (.other, r.dropWhile fun c => !isBreak c)

end Introspect.Yaml
