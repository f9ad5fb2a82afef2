import Introspect.Text.Case

/-! Which events a run lets through. -/
namespace Introspect.Logging

def levels : List (String × Nat) :=
  [("debug", 10), ("info", 20), ("warning", 30), ("error", 40), ("critical", 50)]

/-- The number of a level given by name, in any case; of an unknown one that of `info`. -/
def threshold (name : String) : Nat :=
  match Text.capitals name with
  | "DEBUG" => 10
  | "WARN" | "WARNING" => 30
  | "ERROR" => 40
  | _ => 20

/-- The names of the levels that are let through. -/
def enabled (name : String) : List String :=
  (levels.filter fun l => threshold name ≤ l.2).map Prod.fst

/-- How events are written. -/
inductive Format where
  | console
  | json
deriving DecidableEq, Repr

end Introspect.Logging
