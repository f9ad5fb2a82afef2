/-! What can be wrong with a YAML document. -/
namespace Introspect.Yaml

/-- A fault of a document. It has a character that none may have, a piece of text that is no token,
tokens out of order, a node named twice or not at all, or a node that no value belongs to. The
others are scalars marked as what they are not: no word for a truth value, a number without digits,
no date, an escaped character of too high a number, a date spelt as a mapping. A `value` says itself
what is wrong with it. -/
inductive Fault where
  | character
  | token
  | order
  | reference
  | node
  | value (message : String)
  | unknownWord
  | noDigits
  | noDate
  | tooLarge
  | wrongShape
deriving DecidableEq, Repr

/-- The wording of a fault; none for those that are not described. -/
def Fault.message : Fault → String
  | .value m => m
  | _ => ""

end Introspect.Yaml
