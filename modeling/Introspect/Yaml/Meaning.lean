import Introspect.Json.Token
import Introspect.Text.Cut
import Introspect.Text.Numeral
import Introspect.Yaml.Moment

/-! What nodes stand for. Scalars without quotes show it by their form, as YAML 1.1 lays down. -/
namespace Introspect.Yaml

/-- What a node stands for. `merge` and `defaultValue` stand for entries of the mapping around
them, and `unknown` for nothing. -/
inductive Meaning where
  | null
  | bool
  | int
  | float
  | binary
  | timestamp
  | str
  | seq
  | map
  | set
  | omap
  | pairs
  | merge
  | defaultValue
  | unknown
deriving DecidableEq, Repr

namespace Meaning

def nullWords : List String := ["", "~", "null", "Null", "NULL"]

def trueWords : List String :=
  ["yes", "Yes", "YES", "true", "True", "TRUE", "on", "On", "ON"]

def falseWords : List String :=
  ["no", "No", "NO", "false", "False", "FALSE", "off", "Off", "OFF"]

/-- The words for the number without bound, without their sign. -/
def infiniteWords : List String := [".inf", ".Inf", ".INF"]

/-- The words for the number that is none. -/
def undefinedWords : List String := [".nan", ".NaN", ".NAN"]

/-- A decimal digit or an underscore. -/
def isSpacedDigit (c : Char) : Bool := c.isDigit || c == '_'

/-- A number of at most two digits below sixty, without underscores. -/
def isSixtieth : List Char → Bool
  | [a] => a.isDigit
  | [a, b] => '0' ≤ a && a ≤ '5' && b.isDigit
  | _ => false

/-- Digits, then sixtieths behind a colon each. -/
def isSixties (s : List Char) : Bool :=
  match s.splitOn ':' with
  | first :: second :: rest =>
    first.head?.any Char.isDigit && first.all isSpacedDigit && (second :: rest).all isSixtieth
  | _ => false

/-- A whole number: binary, octal, hexadecimal, decimal or in sixties. -/
def isWhole (s : List Char) : Bool :=
  match Text.dropSign s with
  | '0' :: 'b' :: r => !r.isEmpty && r.all fun c => c == '0' || c == '1' || c == '_'
  | '0' :: 'x' :: r => !r.isEmpty && r.all fun c => (Json.hexValue? c).isSome || c == '_'
  | '0' :: r => r.all fun c => ('0' ≤ c && c ≤ '7') || c == '_'
  | c :: r => c.isDigit && (r.all isSpacedDigit || isSixties (c :: r))
  | [] => false

/-- Nothing, or an exponent mark with a sign and digits. -/
def isSignedExponent : List Char → Bool
  | [] => true
  | c :: sign :: r =>
    (c == 'e' || c == 'E') && (sign == '+' || sign == '-') && !r.isEmpty && r.all Char.isDigit
  | _ => false

/-- A number with a point: decimal, or in sixties of which the last has a fraction. A number that
begins with the point has no sign. The number without bound has one or not, the number that is
none has none. -/
def isPointed (s : List Char) : Bool :=
  let digits := Text.dropSign s
  let startsWell := digits.head?.any Char.isDigit ||
    match s with
    | '.' :: c :: _ => c.isDigit
    | _ => false
  let decimal := match digits.dropWhile isSpacedDigit with
    | '.' :: r => startsWell && isSignedExponent (r.dropWhile isSpacedDigit)
    | _ => false
  let sixties := match Text.cutAt '.' digits with
    | (before, some behind) => isSixties before && behind.all isSpacedDigit
    | _ => false
  decimal || sixties || infiniteWords.contains (String.ofList digits) ||
    undefinedWords.contains (String.ofList s)

/-- The meaning of a scalar by its form. A line feed at its end does not count, unless it is all
there is. -/
def ofText (text : String) : Meaning :=
  let s := (Text.dropSuffix? ['\n'] text.toList).getD text.toList
  let word := String.ofList s
  if text = "\n" then .str
  else if trueWords.contains word || falseWords.contains word then .bool
  else if isPointed s then .float
  else if isWhole s then .int
  else if word = "<<" then .merge
  else if nullWords.contains word then .null
  else if (MomentText.parse? s).any MomentText.isPlain then .timestamp
  else if word = "=" then .defaultValue
  else if word = "!" || word = "&" || word = "*" then .unknown
  else .str

/-- What the names of tags begin with that are known. -/
def tagLead : String := "tag:yaml.org,2002:"

def ofTag (tag : String) : Meaning :=
  match Text.afterPrefix? tagLead tag with
  | some "null" => .null
  | some "bool" => .bool
  | some "int" => .int
  | some "float" => .float
  | some "binary" => .binary
  | some "timestamp" => .timestamp
  | some "str" => .str
  | some "seq" => .seq
  | some "map" => .map
  | some "set" => .set
  | some "omap" => .omap
  | some "pairs" => .pairs
  | some "merge" => .merge
  | some "value" => .defaultValue
  | _ => .unknown

/-- Nodes of these meanings are collections, and no keys. -/
def isCollection : Meaning → Bool
  | .seq | .map | .set | .omap | .pairs => true
  | _ => false

end Meaning
end Introspect.Yaml
