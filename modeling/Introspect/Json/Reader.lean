import Introspect.Json.Token
import Introspect.Table

/-! Reading JSON text. -/
namespace Introspect.Json

/-- A container that is still open, with what came before backwards. -/
inductive Frame where
  | items (before : List Json)
  | members (before : List (String × Json)) (key : String)

/-- What may come next, inside the open containers `outer`. -/
inductive Reading where
  | value (outer : List Frame)
  | itemOrEnd (outer : List Frame)
  | keyOrEnd (outer : List Frame)
  | key (before : List (String × Json)) (outer : List Frame)
  | colon (before : List (String × Json)) (key : String) (outer : List Frame)
  | complete (value : Json) (outer : List Frame)

/-- What is wrong with a text: it is not JSON, or a whole number in it has too many digits. -/
inductive Fault where
  | malformed
  | longNumber (digits : Nat)
deriving DecidableEq, Repr

def startValue (outer : List Frame) : Token → Except Fault Reading
  | .leaf j => .ok (.complete j outer)
  | .text s => .ok (.complete (.text s) outer)
  | .openArray => .ok (.itemOrEnd outer)
  | .openObject => .ok (.keyOrEnd outer)
  | .long n => .error (.longNumber n)
  | _ => .error .malformed

/-- An object of members given backwards. A repeated name keeps its first place and its last
value. -/
def closeObject (before : List (String × Json)) : Json :=
  .object (Table.ofList before.reverse).entries

def Reading.step : Reading → Token → Except Fault Reading
  | .value o, t => startValue o t
  | .itemOrEnd o, .closeArray => .ok (.complete (.array []) o)
  | .itemOrEnd o, t => startValue (.items [] :: o) t
  | .keyOrEnd o, .closeObject => .ok (.complete (.object []) o)
  | .keyOrEnd o, .text k => .ok (.colon [] k o)
  | .key b o, .text k => .ok (.colon b k o)
  | .colon b k o, .colon => .ok (.value (.members b k :: o))
  | .complete v (.items b :: o), .comma => .ok (.value (.items (v :: b) :: o))
  | .complete v (.items b :: o), .closeArray => .ok (.complete (.array (v :: b).reverse) o)
  | .complete v (.members b k :: o), .comma => .ok (.key ((k, v) :: b) o)
  | .complete v (.members b k :: o), .closeObject => .ok (.complete (closeObject ((k, v) :: b)) o)
  | _, _ => .error .malformed

/-- The value that a JSON text denotes, or the first fault in it. White space stands only between
words, nothing else before or behind the value. -/
def parse (s : String) : Except Fault Json := do
  match ← (tokens s.toList).foldlM Reading.step (.value []) with
  | .complete v [] => return v
  | _ => throw .malformed

/-- The value that a JSON text denotes, if it is one. -/
def parse? (s : String) : Option Json := (parse s).toOption

end Introspect.Json
