import Introspect.Json.Basic
import Introspect.Table

/-! The values that documents denote. The values of JSON are among them. -/
namespace Introspect.Yaml

/-- A value. Besides what JSON has there are bytes, moments, and sets. The keys of a mapping may be
any values; a text is a key once at most. -/
inductive Value where
  | null
  | bool (value : Bool)
  | int (value : Int)
  | real (value : Decimal)
  | infinite (negative : Bool)
  | undefined
  | text (value : String)
  | bytes (value : List UInt8)
  | moment
  | list (items : List Value)
  | set (items : List Value)
  | mapping (entries : List (Value × Value))
deriving Inhabited

namespace Value

mutual
def ofJson : Json → Value
  | .null => .null
  | .bool b => .bool b
  | .int n => .int n
  | .real d => .real d
  | .infinite negative => .infinite negative
  | .undefined => .undefined
  | .text s => .text s
  | .array items => .list (ofItems items)
  | .object members => .mapping (ofMembers members)
def ofItems : List Json → List Value
  | [] => []
  | x :: xs => ofJson x :: ofItems xs
def ofMembers : List (String × Json) → List (Value × Value)
  | [] => []
  | (k, x) :: xs => (.text k, ofJson x) :: ofMembers xs
end

/-- What a value consists of: the items of a list, the keys of a mapping, the characters of a text,
the numbers of bytes. Other values have no parts. -/
def parts? : Value → Option (List Value)
  | .list items => some items
  | .set items => some items
  | .mapping entries => some (entries.map Prod.fst)
  | .text s => some (s.toList.map fun c => .text (String.singleton c))
  | .bytes bs => some (bs.map fun b => .int b.toNat)
  | _ => none

/-- A value that counts as absent: null, false, zero, or a value without parts. -/
def isVacant : Value → Bool
  | .null | .bool false | .text "" | .bytes [] | .list [] | .set [] | .mapping [] => true
  | .int n => n == 0
  | .real d => d.nearest == .finite 0 (-1074)
  | _ => false

/-- A mapping with one more entry. A text that is a key already keeps its place. -/
def insert (entries : List (Value × Value)) (key value : Value) : List (Value × Value) :=
  match key with
  | .text k =>
    let isKey : Value → Bool := fun
      | .text l => l == k
      | _ => false
    if entries.any fun e => isKey e.1 then
      entries.map fun e => if isKey e.1 then (e.1, value) else e
    else entries ++ [(key, value)]
  | _ => entries ++ [(key, value)]

/-- The entries of a mapping as a table, if all its keys are texts. -/
def table? (entries : List (Value × Value)) : Option (Table String Value) :=
  let pairs := entries.mapM fun e =>
    match e.1 with
    | .text k => some (k, e.2)
    | _ => none
  pairs.map Table.ofList

end Value
end Introspect.Yaml
