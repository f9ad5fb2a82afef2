import Introspect.Command.Run
import Introspect.Json.Printer
import Introspect.Logging

/-! What commands print and report, as lines of plain text. -/
namespace Introspect.Command

def colourMarks : List String := ["[green]", "[/green]", "[red]", "[/red]"]

def uncoloured (s : String) : String := colourMarks.foldl (fun t m => t.replace m "") s

def rowText (cells : List String) : String := " | ".intercalate cells

def Print.lines : Print → List String
  | .line text => [uncoloured text]
  | .table title columns rows => title :: rowText columns :: rows.map rowText

/-- An event on one line: its level, its name and its details. -/
def eventLine (e : Event) : String :=
  let details := e.details.map fun d => d.1 ++ "=" ++ d.2.print none
  " ".intercalate (("[" ++ e.level.label ++ "]") :: e.name :: details)

/-- The lines for the events that a level lets through. -/
def eventLines (level : String) (es : List Event) : List String :=
  (es.filter fun e => (Logging.enabled level).contains e.level.label).map eventLine

end Introspect.Command
