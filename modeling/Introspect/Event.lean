import Introspect.Failure
import Introspect.Json.Basic

/-! What a run reports while it works. -/
namespace Introspect

/-- How much an event matters. -/
inductive Level where
  | debug
  | info
  | warning
deriving DecidableEq, Repr

def Level.label : Level → String
  | .debug => "debug"
  | .info => "info"
  | .warning => "warning"

/-- A time to wait in seconds: a whole or a fractional number, or no end. -/
inductive Delay where
  | whole (seconds : Int)
  | fractional (seconds : Decimal)
  | endless
deriving DecidableEq, Repr

def Delay.json : Delay → Json
  | .whole n => .int n
  | .fractional d => .real d
  | .endless => .infinite false

/-- How often to try, and how long to wait between two tries. -/
structure Patience where
  attempts : Int
  delay : Delay
deriving DecidableEq, Repr

/-- Something that happened. -/
inductive Event where
  | parameterUnmatched (parameter : String) (parameters : List String)
  | openRetry (path : Path) (attempt attempts : Int) (delay : Delay)
  | staleRegistryRemoved (path : Path)
  | placeholderFailed (path : Path) (fault : SystemFault)
  | parsing (path : Path) (arguments : List String)
  | fileReflected (path : Path) (classes enums aliases functions : Nat)
  | moduleReflected (name : String) (classes : Nat)
deriving DecidableEq, Repr

namespace Event

def name : Event → String
  | .parameterUnmatched .. => "template_parameter_unmatched"
  | .openRetry .. => "registry_open_retry"
  | .staleRegistryRemoved .. => "stale_registry_removed"
  | .placeholderFailed .. => "placeholder_create_failed"
  | .parsing .. => "parse_translation_unit"
  | .fileReflected .. => "file_reflected"
  | .moduleReflected .. => "module_reflected"

def level : Event → Level
  | .parameterUnmatched .. | .openRetry .. => .warning
  | .staleRegistryRemoved .. | .placeholderFailed .. | .parsing .. => .debug
  | .fileReflected .. | .moduleReflected .. => .info

def details : Event → List (String × Json)
  | .parameterUnmatched p ps => [("parameter", .text p), ("parameters", Json.texts ps)]
  | .openRetry p n m d =>
    [("path", .text p.toString), ("attempt", .int n), ("max_attempts", .int m),
      ("delay_sec", d.json)]
  | .staleRegistryRemoved p => [("path", .text p.toString)]
  | .placeholderFailed p f => [("path", .text p.toString), ("error", .text f.message)]
  | .parsing p as => [("path", .text p.toString), ("args", Json.texts as)]
  | .fileReflected p c e a f =>
    [("path", .text p.toString), ("classes", .int c), ("enums", .int e), ("aliases", .int a),
      ("functions", .int f)]
  | .moduleReflected n c => [("module", .text n), ("classes", .int c)]

end Event
end Introspect
