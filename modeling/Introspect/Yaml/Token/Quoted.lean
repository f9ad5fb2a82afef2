import Introspect.Json.Token
import Introspect.Yaml.Fault
import Introspect.Yaml.Place

/-! Scalars in single or double quotes. -/
namespace Introspect.Yaml

def escaped? : Char → Option Char
  | '0' => some '\x00'
  | 'a' => some '\x07'
  | '\t' => some '\t'
  | 'v' => some '\x0b'
  | 'e' => some '\x1b'
  | ' ' => some ' '
  | '_' => some '\u00a0'
  | 'N' => some '\u0085'
  | 'L' => some '\u2028'
  | 'P' => some '\u2029'
  | c => Json.escaped? c

/-- The number of digits behind the letter of an escape by number. -/
def escapeWidth? : Char → Option Nat
  | 'x' => some 2
  | 'u' => some 4
  | 'U' => some 8
  | _ => none

/-- A text with one more character, which is given by its number. -/
def pushNumber (p : Json.Draft) (n : Nat) : Except Fault Json.Draft :=
  if 0x80000000 ≤ n then .error .tooLarge
  else if 0x110000 ≤ n then .error (.value "chr() arg not in range(0x110000)")
  else .ok (p.pushUnit n)

def pushAll (p : Json.Draft) (s : List Char) : Json.Draft := s.foldl Json.Draft.push p

/-- Blanks and tabs. -/
def isGap (c : Char) : Bool := c == ' ' || c == '\t'

/-- The ends of empty lines in quotes, fewer than `fuel`, and what follows them. A mark between
documents must not stand there. -/
def quotedBreaks : Nat → List Char → Except Fault (List Char × List Char)
  | 0, s => .ok ([], s)
  | fuel + 1, s =>
    if isMarker s then .error .token
    else match lineBreak? (s.dropWhile isGap) with
      | none => .ok ([], s.dropWhile isGap)
      | some (b, r) => do
        let (others, r) ← quotedBreaks fuel r
        return (b :: others, r)

/-- A text behind the backslash of an escape, and what follows the escape. -/
def escape (p : Json.Draft) : List Char → Except Fault (Json.Draft × List Char)
  | [] => .error .token
  | c :: r =>
    match escaped? c, escapeWidth? c with
    | some e, _ => .ok (p.push e, r)
    | none, some n =>
      match (r.take n).mapM Json.hexValue? with
      | some digits =>
        if digits.length < n then .error .token
        else (pushNumber p (digits.foldl (fun m d => 16 * m + d) 0)).map (·, r.drop n)
      | none => .error .token
    | none, none =>
      match lineBreak? (c :: r) with
      | none => .error .token
      | some (_, r) => do
        let (breaks, r) ← quotedBreaks (r.length + 1) r
        return (pushAll p breaks, r)

/-- A text up to its closing quote, and what follows the quote. White space around the end of a
line is folded. -/
def quotedFrom (isDouble : Bool) : Nat → Json.Draft → List Char →
    Except Fault (String × List Char)
  | 0, _, _ => .error .token
  | _ + 1, _, [] => .error .token
  | fuel + 1, p, c :: r =>
    if c = '"' && isDouble then .ok (p.finish, r)
    else if c = '\\' && isDouble then do
      let (q, r) ← escape p r
      quotedFrom isDouble fuel q r
    else if c = '\x27' && !isDouble then
      match r with
      | '\x27' :: r => quotedFrom isDouble fuel (p.push '\x27') r
      | r => .ok (p.finish, r)
    else if isGap c || isBreak c then
      let gap := (c :: r).takeWhile isGap
      let behind := (c :: r).dropWhile isGap
      match lineBreak? behind with
      | none => quotedFrom isDouble fuel (pushAll p gap) behind
      | some (b, r) => do
        let (others, r) ← quotedBreaks (r.length + 1) r
        quotedFrom isDouble fuel (pushAll p (folded b others)) r
    else quotedFrom isDouble fuel (p.push c) r

/-- The scalar behind an opening quote, and what follows its closing quote. -/
def quoted (isDouble : Bool) (s : List Char) : Except Fault (String × List Char) :=
  quotedFrom isDouble (s.length + 1) ⟨[], none⟩ s

end Introspect.Yaml
