import Introspect.Json.Basic
import Introspect.Text.Quoted

/-! JSON text, on one line or with one item to a line. -/
namespace Introspect.Json

/-- The escape of one code unit of at most 16 bits. -/
def unitEscape (n : Nat) : List Char :=
  '\\' :: 'u' :: Text.hexDigits 4 n

/-- One character inside quotes. Everything but the printable characters of ASCII is escaped,
characters beyond 16 bits as a pair of surrogates. -/
def escapeChar (c : Char) : List Char :=
  if c = '"' then ['\\', '"']
  else if c = '\\' then ['\\', '\\']
  else if c = '\n' then ['\\', 'n']
  else if c = '\r' then ['\\', 'r']
  else if c = '\t' then ['\\', 't']
  else if c = '\x08' then ['\\', 'b']
  else if c = '\x0c' then ['\\', 'f']
  else if 0x20 ≤ c.toNat && c.toNat ≤ 0x7E then [c]
  else if c.toNat < 0x10000 then unitEscape c.toNat
  else
    let n := c.toNat - 0x10000
    unitEscape (0xD800 + n / 0x400) ++ unitEscape (0xDC00 + n % 0x400)

def quotedText (s : String) : List Char :=
  '"' :: s.toList.flatMap escapeChar ++ ['"']

/-- The start of a new line inside `depth` brackets; nothing when all stands on one line. -/
def lineStart (indent : Option String) (depth : Nat) : List Char :=
  match indent with
  | none => []
  | some unit => '\n' :: (List.replicate depth unit.toList).flatten

/-- What stands between two items: a comma, then a space or a new line. -/
def separator (indent : Option String) (depth : Nat) : List Char :=
  match indent with
  | none => [',', ' ']
  | some _ => ',' :: lineStart indent depth

def leafText : Json → List Char
  | .null => "null".toList
  | .bool true => "true".toList
  | .bool false => "false".toList
  | .int n => (toString n).toList
  | .real d => d.text.toList
  | .infinite false => "Infinity".toList
  | .infinite true => "-Infinity".toList
  | .undefined => "NaN".toList
  | .text s => quotedText s
  | .array _ => "[]".toList
  | .object _ => "\x7b\x7d".toList

mutual
/-- The text of a value inside `depth` brackets. Empty arrays and objects stay closed up. -/
def chars (indent : Option String) (depth : Nat) : Json → List Char
  | .array (x :: xs) =>
    '[' :: lineStart indent (depth + 1) ++ chars indent (depth + 1) x ++
      itemChars indent (depth + 1) xs ++ lineStart indent depth ++ [']']
  | .object ((k, x) :: xs) =>
    '\x7b' :: lineStart indent (depth + 1) ++ quotedText k ++ [':', ' '] ++
      chars indent (depth + 1) x ++
      memberChars indent (depth + 1) xs ++ lineStart indent depth ++ ['\x7d']
  | j => leafText j
/-- The items after the first one, each behind its separator. -/
def itemChars (indent : Option String) (depth : Nat) : List Json → List Char
  | [] => []
  | x :: xs => separator indent depth ++ chars indent depth x ++ itemChars indent depth xs
/-- The members after the first one, each behind its separator. -/
def memberChars (indent : Option String) (depth : Nat) : List (String × Json) → List Char
  | [] => []
  | (k, x) :: xs =>
    separator indent depth ++ quotedText k ++ [':', ' '] ++ chars indent depth x ++
      memberChars indent depth xs
end

def blanks (n : Nat) : String := String.ofList (List.replicate n ' ')

/-- The text of a value: on one line, or with every item on a line of its own, indented by the
given text once per bracket. -/
def print (indent : Option String) (j : Json) : String :=
  String.ofList (chars indent 0 j)

end Introspect.Json
