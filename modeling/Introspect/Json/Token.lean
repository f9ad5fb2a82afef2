import Introspect.Json.Basic
import Introspect.Text.Numeral

/-! The words of JSON text: brackets, separators, texts in quotes, numbers and names. -/
namespace Introspect.Json

/-- A word of JSON text. `leaf` is a number or one of the named values, `long` a whole number of so
many digits that it is not read, and `unknown` what is no word. -/
inductive Token where
  | openArray
  | closeArray
  | openObject
  | closeObject
  | comma
  | colon
  | text (value : String)
  | leaf (value : Json)
  | long (digits : Nat)
  | unknown

/-- The digits at the front of a number without its sign, no superfluous zero among them, and what
follows. -/
def wholeDigits (s : List Char) : List Char × List Char :=
  match s with
  | '0' :: r => (['0'], r)
  | _ => (s.takeWhile Char.isDigit, s.dropWhile Char.isDigit)

/-- An exponent stands at the front of a text, or a point with a digit behind it. -/
def startsFraction : List Char → Bool
  | '.' :: c :: _ => c.isDigit
  | c :: r => (c == 'e' || c == 'E') && (Text.dropSign r).head?.any Char.isDigit
  | [] => false

/-- A number without its sign, with digits on both sides of a point. -/
def unsigned (negative : Bool) (s : List Char) : Token :=
  let (whole, rest) := wholeDigits s
  if whole.isEmpty then .unknown
  else if !startsFraction rest && Text.longestWhole < whole.length then .long whole.length
  else match rest with
    | [] =>
      let size : Int := Decimal.natOfDigits whole
      .leaf (.int (if negative then -size else size))
    | '.' :: r =>
      let part := r.takeWhile Char.isDigit
      match part, Decimal.exponent? (r.dropWhile Char.isDigit) with
      | _ :: _, some e =>
        .leaf (.real ⟨negative, Decimal.natOfDigits (whole ++ part), e - part.length⟩)
      | _, _ => .unknown
    | r =>
      match Decimal.exponent? r with
      | some e => .leaf (.real ⟨negative, Decimal.natOfDigits whole, e⟩)
      | none => .unknown

def wordOf (s : List Char) : Token :=
  match String.ofList s with
  | "null" => .leaf .null
  | "true" => .leaf (.bool true)
  | "false" => .leaf (.bool false)
  | "NaN" => .leaf .undefined
  | "Infinity" => .leaf (.infinite false)
  | "-Infinity" => .leaf (.infinite true)
  | _ =>
    match s with
    | '-' :: r => unsigned true r
    | r => unsigned false r

/-- The value of a hexadecimal digit in either case. -/
def hexValue? (c : Char) : Option Nat :=
  if '0' ≤ c ∧ c ≤ '9' then some (c.toNat - 48)
  else if 'a' ≤ c ∧ c ≤ 'f' then some (c.toNat - 87)
  else if 'A' ≤ c ∧ c ≤ 'F' then some (c.toNat - 55)
  else none

def escaped? : Char → Option Char
  | '"' => some '"'
  | '\\' => some '\\'
  | '/' => some '/'
  | 'b' => some '\x08'
  | 'f' => some '\x0c'
  | 'n' => some '\n'
  | 'r' => some '\r'
  | 't' => some '\t'
  | _ => none

/-- A text under construction: its characters backwards, and a first surrogate whose partner may
still come. -/
structure Draft where
  before : List Char
  pending : Option Nat := none

namespace Draft

/-- The characters so far. A first surrogate without its partner becomes U+FFFD. -/
def settled (p : Draft) : List Char :=
  match p.pending with
  | none => p.before
  | some _ => '\uFFFD' :: p.before

def push (p : Draft) (c : Char) : Draft := ⟨c :: p.settled, none⟩

/-- Adds an escaped code unit, joining it to a waiting first surrogate. -/
def pushUnit (p : Draft) (n : Nat) : Draft :=
  if 0xD800 ≤ n ∧ n < 0xDC00 then ⟨p.settled, some n⟩
  else if 0xDC00 ≤ n ∧ n < 0xE000 then
    match p.pending with
    | some high => ⟨Char.ofNat (0x10000 + (high - 0xD800) * 0x400 + (n - 0xDC00)) :: p.before, none⟩
    | none => p.push '\uFFFD'
  else p.push (Char.ofNat n)

def finish (p : Draft) : String := String.ofList p.settled.reverse

end Draft

/-- Where in a word the reading of characters stands. -/
inductive Place where
  | outside
  | word (before : List Char)
  | quoted (text : Draft)
  | escape (text : Draft)
  | unit (text : Draft) (left value : Nat)

def punctuation? : Char → Option Token
  | '[' => some .openArray
  | ']' => some .closeArray
  | '\x7b' => some .openObject
  | '\x7d' => some .closeObject
  | ',' => some .comma
  | ':' => some .colon
  | _ => none

def isSpace (c : Char) : Bool := c == ' ' || c == '\t' || c == '\n' || c == '\r'

def isWordChar (c : Char) : Bool := c.isAlphanum || c == '-' || c == '+' || c == '.'

/-- The words of a text from a place on, up to one that is none. Numbers and names reach as far as
their characters do; control characters do not stand in quotes. -/
def tokensAt : Place → List Char → List Token
  | .outside, [] => []
  | .outside, c :: r =>
    if isSpace c then tokensAt .outside r
    else if c = '"' then tokensAt (.quoted ⟨[], none⟩) r
    else if isWordChar c then tokensAt (.word [c]) r
    else match punctuation? c with
      | some t => t :: tokensAt .outside r
      | none => [.unknown]
  | .word b, [] => [wordOf b.reverse]
  | .word b, c :: r =>
    if isWordChar c then tokensAt (.word (c :: b)) r
    else
      wordOf b.reverse ::
        if isSpace c then tokensAt .outside r
        else if c = '"' then tokensAt (.quoted ⟨[], none⟩) r
        else match punctuation? c with
          | some t => t :: tokensAt .outside r
          | none => [.unknown]
  | .quoted p, c :: r =>
    if c = '"' then .text p.finish :: tokensAt .outside r
    else if c = '\\' then tokensAt (.escape p) r
    else if c.toNat < 0x20 then [.unknown]
    else tokensAt (.quoted (p.push c)) r
  | .escape p, c :: r =>
    if c = 'u' then tokensAt (.unit p 4 0) r
    else match escaped? c with
      | some e => tokensAt (.quoted (p.push e)) r
      | none => [.unknown]
  | .unit p left value, c :: r =>
    match hexValue? c with
    | none => [.unknown]
    | some d =>
      let n := 16 * value + d
      if left ≤ 1 then tokensAt (.quoted (p.pushUnit n)) r
      else tokensAt (.unit p (left - 1) n) r
  | _, [] => [.unknown]

def tokens (s : List Char) : List Token := tokensAt .outside s

end Introspect.Json
