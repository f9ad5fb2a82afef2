import Introspect.Yaml.Meaning

/-! The nodes of documents. -/
namespace Introspect.Yaml

/-- A node: a text, items, or entries of a key and a value. -/
inductive Node where
  | scalar (meaning : Meaning) (text : String)
  | sequence (meaning : Meaning) (items : List Node)
  | mapping (meaning : Meaning) (entries : List (Node × Node))

namespace Node

def meaning : Node → Meaning
  | .scalar m _ | .sequence m _ | .mapping m _ => m

def empty : Node := .scalar .null ""

instance : Inhabited Node := ⟨empty⟩

mutual
/-- The number of nodes in a node, itself included. -/
def size : Node → Nat
  | .scalar _ _ => 1
  | .sequence _ items => itemSize items + 1
  | .mapping _ entries => entrySize entries + 1
def itemSize : List Node → Nat
  | [] => 0
  | x :: xs => size x + itemSize xs
def entrySize : List (Node × Node) → Nat
  | [] => 0
  | (k, v) :: es => size k + size v + entrySize es
end

end Node
end Introspect.Yaml
