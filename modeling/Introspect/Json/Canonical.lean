import Introspect.Json.Basic

/-! One form for all JSON values that are equal as data: truth values count as numbers, numbers
count by the binary number nearest to them, and the order of members does not count. -/
namespace Introspect.Json

/-- The form of a number written with a fraction or an exponent. -/
def ofDecimal (d : Decimal) : Json :=
  match d.whole?, d.rounded? with
  | some n, _ => .int n
  | none, some r => .real r
  | none, none => .infinite d.negative

mutual
def canonical : Json → Json
  | .bool b => .int (if b then 1 else 0)
  | .real d => ofDecimal d
  | .array items => .array (canonicalItems items)
  | .object members =>
    .object ((canonicalMembers members).mergeSort fun a b => decide (a.1 ≤ b.1))
  | j => j
def canonicalItems : List Json → List Json
  | [] => []
  | x :: xs => canonical x :: canonicalItems xs
def canonicalMembers : List (String × Json) → List (String × Json)
  | [] => []
  | (k, x) :: xs => (k, canonical x) :: canonicalMembers xs
end

def agrees (a b : Json) : Bool := a.canonical == b.canonical

end Introspect.Json
