import Introspect.Settings.Check
import Introspect.Yaml.Document

/-! Settings from the text of a configuration file. -/
namespace Introspect.Settings

/-- The configuration file that is read when none is named. -/
def defaultFile : Path := Path.ofString "reflgen.yaml"

/-- Settings from data. Data that count as absent set nothing; other data have to name settings. -/
def ofValue (site : Site) (v : Yaml.Value) : Except Failure Settings :=
  if v.isVacant then ofTable site .empty
  else match v with
    | .mapping entries =>
      match Yaml.Value.table? entries with
      | some data => ofTable site data
      | none => .error .wrongShape
    | _ => .error .wrongShape

def ofText (site : Site) (s : String) : Except Failure Settings :=
  match Yaml.parse s with
  | .ok v => ofValue site v
  | .error fault => .error (.document fault)

end Introspect.Settings
