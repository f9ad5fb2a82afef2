import Introspect.Yaml.Node
import Introspect.Yaml.Token.Stream

/-! Nodes from tokens. -/
namespace Introspect.Yaml

/-- The tokens that are left with the fault they end at, and the nodes with names. -/
structure Source where
  tokens : List Token
  fault : Option Fault
  named : List (String × Node)

/-- Reading nodes. -/
abbrev Reading := StateT Source (Except Fault)

namespace Reading

def peek : Reading Token := do
  let s ← get
  match s.tokens with
  | t :: _ => return t
  | [] => throw (s.fault.getD .order)

def advance : Reading Unit := modify fun s => { s with tokens := s.tokens.drop 1 }

/-- What `read` reads, or an empty node before one of the given tokens. -/
def orEmpty (stops : List Token) (read : Reading Node) : Reading Node := do
  if stops.contains (← peek) then return .empty else read

/-- Names a node. No name is given twice. -/
def declare (name : Option String) (node : Node) : Reading Unit := do
  match name with
  | none => return
  | some n =>
    if (← get).named.any (·.1 == n) then throw .reference
    modify fun s => { s with named := (n, node) :: s.named }

/-- Puts a node in the place of the last one declared under its name. -/
def complete (name : Option String) (node : Node) : Reading Node := do
  match name with
  | none => return node
  | some n =>
    modify fun s =>
      { s with named := s.named.map fun e => if e.1 = n then (n, node) else e }
    return node

def named (name : String) : Reading Node := do
  match (← get).named.find? (·.1 == name) with
  | some e => return e.2
  | none => throw .reference

/-- The name in front of a node, if the next token is one. -/
def anchor? : Reading (Option String) := do
  match ← peek with
  | .anchor n => advance; return some n
  | _ => return none

/-- The tag in front of a node, if the next token is one. -/
def tag? : Reading (Option Tag) := do
  match ← peek with
  | .tag t => advance; return some t
  | _ => return none

/-- The name and the tag of a node, both optional and in either order. -/
def properties : Reading (Option String × Option Tag) := do
  match ← anchor? with
  | some n => return (some n, ← tag?)
  | none =>
    match ← tag? with
    | some t => return (← anchor?, some t)
    | none => return (none, none)

def fullTag (handles : List (String × String)) (t : Tag) : Reading String := do
  match t.handle with
  | none => return t.suffix
  | some h =>
    match handles.find? (·.1 == h) with
    | some e => return e.2 ++ t.suffix
    | none => throw .order

/-- The meaning of a node by its tag. Without a tag, and with the tag of a lone exclamation mark,
it is the one by its form. -/
def meaningOf (tag : Option String) (byForm : Meaning) : Meaning :=
  match tag with
  | none | some "!" => byForm
  | some t => .ofTag t

variable (handles : List (String × String))

mutual
/-- A node. A block collection needs `inBlock`, and `indentless` allows items without one. -/
def node : Nat → Bool → Bool → Reading Node
  | 0, _, _ => throw .order
  | fuel + 1, inBlock, indentless => do
    if let .alias name := ← peek then
      advance
      return ← named name
    let (name, written) ← properties
    let tag ← written.mapM (fullTag handles)
    let list := meaningOf tag .seq
    let table := meaningOf tag .map
    let sequence (items : Reading (List Node)) : Reading Node := do
      declare name (.sequence list [])
      complete name (.sequence list (← items))
    let mapping (entries : Reading (List (Node × Node))) : Reading Node := do
      declare name (.mapping table [])
      complete name (.mapping table (← entries))
    let scalar (n : Node) : Reading Node := do
      declare name n
      return n
    match ← peek, inBlock with
    | .item, _ =>
      if indentless then sequence (items fuel true)
      else if name.isSome || tag.isSome then scalar (.scalar (meaningOf tag .null) "")
      else throw .order
    | .scalar text isPlain, _ =>
      advance
      let byForm := if isPlain || tag.isSome then .ofText text else .str
      scalar (.scalar (meaningOf tag byForm) text)
    | .openSequence, _ => sequence (advance *> flowItems fuel true)
    | .openMapping, _ => mapping (advance *> flowEntries fuel true)
    | .sequenceStart, true => sequence (advance *> items fuel false)
    | .mappingStart, true => mapping (advance *> entries fuel)
    | _, _ =>
      if name.isSome || tag.isSome then scalar (.scalar (meaningOf tag .null) "")
      else throw .order
/-- The items of a block, with a mark of its own at its end or `indentless`. -/
def items : Nat → Bool → Reading (List Node)
  | 0, _ => throw .order
  | fuel + 1, indentless => do
    match ← peek with
    | .item =>
      advance
      let stops := if indentless then [.item, .key, .value, .blockEnd] else [.item, .blockEnd]
      let first ← orEmpty stops (node fuel true false)
      return first :: (← items fuel indentless)
    | t =>
      if indentless then return []
      else if t = .blockEnd then advance *> pure []
      else throw .order
def entries : Nat → Reading (List (Node × Node))
  | 0 => throw .order
  | fuel + 1 => do
    let part := orEmpty [.key, .value, .blockEnd] (node fuel true true)
    match ← peek with
    | .key =>
      advance
      let key ← part
      let value ← if (← peek) = .value then advance *> part else pure .empty
      return (key, value) :: (← entries fuel)
    | .blockEnd => advance *> pure []
    | _ => throw .order
/-- The items up to a closing bracket. A key among them is the key of a mapping of its own. -/
def flowItems : Nat → Bool → Reading (List Node)
  | 0, _ => throw .order
  | fuel + 1, isFirst => do
    if (← peek) = .closeSequence then advance *> pure []
    else
      if !isFirst then
        if (← peek) = .comma then advance else throw .order
      match ← peek with
      | .key =>
        advance
        let key ← orEmpty [.value, .comma, .closeSequence] (node fuel false false)
        let value ← if (← peek) = .value then
            advance *> orEmpty [.comma, .closeSequence] (node fuel false false)
          else pure .empty
        return .mapping .map [(key, value)] :: (← flowItems fuel false)
      | .closeSequence => advance *> pure []
      | _ =>
        let first ← node fuel false false
        return first :: (← flowItems fuel false)
/-- The entries up to a closing bracket. One without the mark of a key has no value. -/
def flowEntries : Nat → Bool → Reading (List (Node × Node))
  | 0, _ => throw .order
  | fuel + 1, isFirst => do
    if (← peek) = .closeMapping then advance *> pure []
    else
      if !isFirst then
        if (← peek) = .comma then advance else throw .order
      match ← peek with
      | .key =>
        advance
        let key ← orEmpty [.value, .comma, .closeMapping] (node fuel false false)
        let value ← if (← peek) = .value then
            advance *> orEmpty [.comma, .closeMapping] (node fuel false false)
          else pure .empty
        return (key, value) :: (← flowEntries fuel false)
      | .closeMapping => advance *> pure []
      | _ =>
        let key ← node fuel false false
        return (key, .empty) :: (← flowEntries fuel false)
end

end Reading

/-- What the directives before a document say: whether there was one about the version, and the
handles in the order of their lines. -/
structure Preamble where
  hasVersion : Bool
  handles : List (String × String)

/-- The handles of tags that need no directive. -/
def standardHandles : List (String × String) := [("!", "!"), ("!!", Meaning.tagLead)]

namespace Reading

/-- The directives at the front of the tokens, fewer than `fuel`. Only the first major version is
known, and nothing is said twice. -/
def preamble : Nat → Preamble → Reading Preamble
  | 0, _ => throw .order
  | fuel + 1, p => do
    match ← peek with
    | .directive d =>
      advance
      match d with
      | .version major =>
        if p.hasVersion || major ≠ 1 then throw .order
        preamble fuel { p with hasVersion := true }
      | .handle name lead =>
        if p.handles.any (·.1 == name) then throw .order
        preamble fuel { p with handles := p.handles ++ [(name, lead)] }
      | .other => preamble fuel p
    | _ => return p

/-- Passes marks at the end of a document, fewer than `fuel`. -/
def passEnds : Nat → Reading Unit
  | 0 => throw .order
  | fuel + 1 => do
    if (← peek) = .documentEnd then
      advance
      passEnds fuel

/-- The handles for a document that starts with a mark. -/
def start (fuel : Nat) : Reading (List (String × String)) := do
  let p ← preamble fuel ⟨false, []⟩
  if (← peek) ≠ .documentStart then throw .order
  advance
  return p.handles ++ standardHandles

/-- The node of a document, none of a text without one. There is no second document. -/
def document (fuel : Nat) : Reading (Option Node) := do
  let root ← match ← peek with
    | .streamEnd => return none
    | .directive _ | .documentStart => do
      let handles ← start fuel
      match ← peek with
      | .directive _ | .documentStart | .documentEnd | .streamEnd => pure Node.empty
      | _ => node handles fuel true false
    | _ => node standardHandles fuel true false
  passEnds fuel
  if (← peek) ≠ .streamEnd then
    let _ ← start fuel
    throw .reference
  return some root

end Reading

/-- The node that a text denotes, if it denotes one. -/
def Node.parse (s : List Char) : Except Fault (Option Node) := do
  let stream := tokens s
  let fuel := 4 * stream.tokens.length + 8
  (Reading.document fuel).run' ⟨stream.tokens, stream.fault, []⟩

end Introspect.Yaml
