import Introspect.Event

/-! Trying again to open a file that something else holds. -/
namespace Introspect.Store

/-- What came of several tries: their number, what was reported between them, and how they
ended. -/
structure Trial (α : Type) where
  opens : Nat
  events : List Event
  result : Except Failure α

/-- Whether a fault says that the file is not there, so that waiting is of no use. -/
def isAbsence : SystemFault → Bool
  | .notFound _ => true
  | _ => false

section
variable {α : Type} (path : Path) (patience : Patience) (outcome : Nat → Except SystemFault α)

/-- Goes on after `opens` tries, the last of which ended in `last`, with at most so many more.
`outcome k` is what the `k`th try leads to, counted from one. -/
def tryFrom (opens : Nat) (last : Option SystemFault) : Nat → Trial α
  | 0 => ⟨opens, [], .error (.registryFile (.openFailed path patience.attempts last))⟩
  | left + 1 =>
    match outcome (opens + 1) with
    | .ok a => ⟨opens + 1, [], .ok a⟩
    | .error fault =>
      if isAbsence fault then ⟨opens + 1, [], .error (.system fault)⟩
      else
        let rest := tryFrom (opens + 1) (some fault) left
        if left = 0 then rest
        else { rest with
          events :=
            .openRetry path (opens + 1) patience.attempts patience.delay :: rest.events }

/-- Tries until the file opens or is known to be missing, but no more often than patience
allows. -/
def tryOpen : Trial α := tryFrom path patience outcome 0 none patience.attempts.toNat

end

end Introspect.Store
