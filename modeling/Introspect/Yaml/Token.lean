/-! The tokens of YAML. -/
namespace Introspect.Yaml

/-- What a tag says: a name in full, or a name with the handle it is completed by. -/
structure Tag where
  handle : Option String
  suffix : String
deriving DecidableEq, Repr

/-- A line about the documents to come: their version, a handle for tags, or something else. -/
inductive Directive where
  | version (major : Nat)
  | handle (name lead : String)
  | other
deriving DecidableEq, Repr

/-- A token. Layout by indentation is made plain: a block collection has a token in front and one
behind, and so has a key. -/
inductive Token where
  | directive (content : Directive)
  | documentStart
  | documentEnd
  | sequenceStart
  | mappingStart
  | blockEnd
  | openSequence
  | closeSequence
  | openMapping
  | closeMapping
  | comma
  | item
  | key
  | value
  | alias (name : String)
  | anchor (name : String)
  | tag (content : Tag)
  | scalar (text : String) (isPlain : Bool)
  | streamEnd
deriving DecidableEq, Repr

end Introspect.Yaml
