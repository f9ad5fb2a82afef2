import Introspect.Failure

/-! What the compiler complains about, and which complaints stop a run. -/
namespace Introspect

/-- How bad a complaint is. -/
inductive Severity where
  | ignored
  | note
  | warning
  | error
  | fatal
deriving DecidableEq, Repr

/-- The severity that a number of the compiler stands for. -/
def Severity.ofNat? (n : Nat) : Option Severity :=
  [Severity.ignored, .note, .warning, .error, .fatal][n]?

/-- A complaint about a place in a file. -/
structure Diagnostic where
  severity : Severity
  message : String
  file : Option Path
  line : Int
deriving DecidableEq

/-- A complaint on one line, behind the name of the file. -/
def Diagnostic.text (d : Diagnostic) : String :=
  ((d.file.map Path.name).getD "<unknown>") ++ "(" ++ toString d.line ++ "): " ++ d.message

/-- Which severities below the highest stop a run. -/
structure DiagnosticPolicy where
  raiseWarnings : Bool
  raiseErrors : Bool
deriving DecidableEq, Repr

/-- Whether a complaint stops a run. -/
def DiagnosticPolicy.stops (p : DiagnosticPolicy) (d : Diagnostic) : Bool :=
  match d.severity with
  | .fatal => true
  | .error => p.raiseErrors
  | .warning => p.raiseWarnings
  | .note | .ignored => false

/-- The number of complaints that are looked at. -/
def diagnosticLimit : Nat := 100

/-- Fails with every complaint that stops the run, among those within the limit. Complaints that
do not stop it count towards the limit all the same. -/
def checkDiagnostics (p : DiagnosticPolicy) (ds : List Diagnostic) : Except Failure Unit :=
  let messages := ((ds.take diagnosticLimit).filter p.stops).map Diagnostic.text
  if messages.isEmpty then .ok () else .error (.diagnostics messages)

end Introspect
