import Introspect.Yaml.Node.Reading
import Introspect.Yaml.Scalar

/-! The values of documents. -/
namespace Introspect.Yaml
namespace Node

mutual
/-- The entries that a node adds to the mapping it is merged into: those of a mapping, or those of
a list of mappings with the last one first. -/
def merged : Node → Except Fault (List (Node × Node))
  | .scalar _ _ => .error .node
  | .sequence _ items => mergedItems items
  | .mapping _ entries => (split entries).map fun x => x.1 ++ x.2
/-- The entries of several mappings, the last one first. -/
def mergedItems : List Node → Except Fault (List (Node × Node))
  | [] => .ok []
  | .mapping _ entries :: xs => do
    let (ahead, own) ← split entries
    return (← mergedItems xs) ++ ahead ++ own
  | _ :: _ => .error .node
/-- The entries that are merged into a mapping, and its own. -/
def split : List (Node × Node) → Except Fault (List (Node × Node) × List (Node × Node))
  | [] => .ok ([], [])
  | (k, v) :: es =>
    match k.meaning with
    | .merge => do
      let first ← merged v
      let (ahead, own) ← split es
      return (first ++ ahead, own)
    | _ => do
      let (ahead, own) ← split es
      return (ahead, (k, v) :: own)
end

/-- A key as it counts in a mapping, where the mark of a default value is a text like others. -/
def asKey : Node → Node
  | .scalar .defaultValue s => .scalar .str s
  | .sequence .defaultValue items => .sequence .str items
  | .mapping .defaultValue entries => .mapping .str entries
  | k => k

/-- The entries of a mapping, with those that are merged into it in front of its own. -/
def flat (entries : List (Node × Node)) : Except Fault (List (Node × Node)) :=
  (split entries).map fun x => (x.1 ++ x.2).map fun e => (e.1.asKey, e.2)

mutual
/-- The text of a node that stands for a single one. A mapping has that of its default value. -/
def text : Node → Except Fault String
  | .scalar _ s => .ok s
  | .sequence _ _ => .error .node
  | .mapping _ entries => defaultText entries
/-- The text of the default value among some entries. -/
def defaultText : List (Node × Node) → Except Fault String
  | [] => .error .node
  | (k, v) :: es => if k.meaning = .defaultValue then text v else defaultText es
end

/-- The value of a node, with collections still empty. -/
def outline (n : Node) : Except Fault Value :=
  match n.meaning, n with
  | .seq, _ | .omap, _ | .pairs, _ => .ok (.list [])
  | .set, _ => .ok (.set [])
  | .map, _ => .ok (.mapping [])
  | .merge, _ | .defaultValue, _ | .unknown, _ => .error .node
  | .timestamp, .mapping m entries => do
    let _ ← text (.mapping m entries)
    throw .wrongShape
  | m, n => do scalarValue m (← text n)

/-- The single entry of a node that is a mapping with one. -/
def pair : Node → Except Fault (Node × Node)
  | .mapping _ [e] => .ok e
  | _ => .error .node

/-- The nodes that a node consists of, each with an outline. Keys of mappings and sets are no
collections. -/
def parts (n : Node) : Except Fault (List Node) := do
  let nodes ← match n.meaning, n with
    | .seq, .sequence _ items => do
      for x in items do
        let _ ← x.outline
      pure items
    | .omap, .sequence _ items | .pairs, .sequence _ items => do
      let pairs ← items.mapM fun x => do
        let (k, v) ← x.pair
        let _ ← k.outline
        let _ ← v.outline
        pure [k, v]
      pure pairs.flatten
    | .map, .mapping _ entries | .set, .mapping _ entries => do
      let pairs ← (← flat entries).mapM fun (k, v) => do
        let _ ← k.outline
        if k.meaning.isCollection then throw .node
        let _ ← v.outline
        pure [k, v]
      pure pairs.flatten
    | _, _ => throw .node
  return nodes.filter (·.meaning.isCollection)

/-- Looks through collections for faults, fewer than `fuel` and those that are nested less deeply
first. -/
def check : Nat → List Node → Except Fault Unit
  | 0, _ | _ + 1, [] => .ok ()
  | fuel + 1, n :: ns => do check fuel (ns ++ (← n.parts))

/-- The value of a node that is nested less deeply than `fuel`. -/
def valueWithin : Nat → Node → Except Fault Value
  | 0, n => n.outline
  | fuel + 1, n =>
    match n.meaning, n with
    | .seq, .sequence _ items => .list <$> items.mapM (valueWithin fuel)
    | .omap, .sequence _ items | .pairs, .sequence _ items =>
      .list <$> items.mapM fun x => do
        let (k, v) ← x.pair
        return .list [← valueWithin fuel k, ← valueWithin fuel v]
    | .map, .mapping _ entries => .mapping <$> valuesWithin fuel entries
    | .set, .mapping _ entries => do
      return .set ((← valuesWithin fuel entries).map Prod.fst)
    | _, _ => n.outline
where
  /-- The entries of a mapping with their values, in the order of their keys. -/
  valuesWithin (fuel : Nat) (entries : List (Node × Node)) :
      Except Fault (List (Value × Value)) := do
    (← flat entries).foldlM (fun es e => do
      return Value.insert es (← valueWithin fuel e.1) (← valueWithin fuel e.2)) []

/-- The value of a node. Of several faults the one that is nested least deeply counts. -/
def value (n : Node) : Except Fault Value := do
  let _ ← n.outline
  if n.meaning.isCollection then check n.size [n]
  valueWithin n.size n

end Node

def isPrintable (c : Char) : Bool :=
  let n := c.toNat
  n == 9 || n == 10 || n == 13 || (0x20 ≤ n && n ≤ 0x7E) || n == 0x85 ||
    (0xA0 ≤ n && n ≤ 0xFFFD) || 0x10000 ≤ n

/-- The value that a text denotes. A text without a document denotes null. -/
def parse (s : String) : Except Fault Value := do
  if !s.toList.all isPrintable then throw .character
  match ← Node.parse s.toList with
  | some n => n.value
  | none => return .null

end Introspect.Yaml
