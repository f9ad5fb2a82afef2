import Introspect.Json.Basic
import Introspect.Text.Quoted

/-! Data values inside messages. -/
namespace Introspect.Json

mutual
/-- A value as messages show it: texts in quotes, items between commas. -/
def shown : Json → String
  | .null => "None"
  | .bool true => "True"
  | .bool false => "False"
  | .int n => toString n
  | .real d => d.text
  | .infinite false => "inf"
  | .infinite true => "-inf"
  | .undefined => "nan"
  | .text s => Text.quoted s
  | .array items => "[" ++ ", ".intercalate (shownItems items) ++ "]"
  | .object members => "\x7b" ++ ", ".intercalate (shownMembers members) ++ "\x7d"
def shownItems : List Json → List String
  | [] => []
  | x :: xs => shown x :: shownItems xs
def shownMembers : List (String × Json) → List String
  | [] => []
  | (k, x) :: xs => (Text.quoted k ++ ": " ++ shown x) :: shownMembers xs
end

/-- A value as messages show it at top level: a text stands without quotes. -/
def plainly : Json → String
  | .text s => s
  | j => j.shown

end Introspect.Json
