import Introspect.Text.Blank
import Introspect.Text.Digit

/-! The texts that denote a floating point number. -/
namespace Introspect.Text

/-- White space allowed around a numeral. The information separators of ASCII are not. -/
def isNumeralMargin (c : Char) : Bool :=
  isPlainBlank c || (c.toNat ≥ 0x80 && isBlank c)

/-- Underscores stand only between two digits. `afterDigit` says whether a digit came before. -/
def underscoresSeparate (afterDigit : Bool) : List Char → Bool
  | [] => true
  | '_' :: r => afterDigit && (r.head?.any isDigit) && underscoresSeparate false r
  | c :: r => underscoresSeparate (isDigit c) r

def dropSign : List Char → List Char
  | '+' :: r => r
  | '-' :: r => r
  | s => s

/-- Nothing, or an exponent mark with a signed run of digits. -/
def isExponent : List Char → Bool
  | [] => true
  | c :: r => (c == 'e' || c == 'E') && !(dropSign r).isEmpty && (dropSign r).all isDigit

/-- Digits with an optional point among or around them, then an optional exponent. -/
def isDecimal (s : List Char) : Bool :=
  let whole := s.takeWhile isDigit
  match s.dropWhile isDigit with
  | '.' :: r =>
    !(whole.isEmpty && (r.takeWhile isDigit).isEmpty) && isExponent (r.dropWhile isDigit)
  | r => !whole.isEmpty && isExponent r

/-- One of the names of the values that have no digits, in any case. -/
def isNamedFloat (s : List Char) : Bool :=
  ["inf".toList, "infinity".toList, "nan".toList].contains (s.map Char.toLower)

/-- A signed decimal or named value, in white space margins, with digits of any script and
underscores between digits. Hexadecimal forms and type suffixes are not numerals. -/
def isNumeral (s : List Char) : Bool :=
  let t := trimWhile isNumeralMargin s
  let u := dropSign (t.filter (· != '_'))
  underscoresSeparate false t && (isDecimal u || isNamedFloat u)

/-- The most decimal digits that a whole number is read from. -/
def longestWhole : Nat := 4300

/-- The complaint about a whole number of too many decimal digits. -/
def tooLong (digits : Nat) : String :=
  "Exceeds the limit (" ++ toString longestWhole ++
    " digits) for integer string conversion: value has " ++ toString digits ++
    " digits; use sys.set_int_max_str_digits() to increase the limit"

end Introspect.Text
