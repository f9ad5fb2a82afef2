import Introspect.Record
import Introspect.Text.Blank
import Introspect.Text.Lines

/-! Generated code as a tree of lines and scopes, and the writer that lays it out. -/
namespace Introspect.Emission

/-- A piece of code. `line` with an empty text is a blank line; a scope has a body. -/
inductive Code where
  | line (text : String)
  | indented (levels : Int) (body : List Code)
  | block (opener openText closeText : String) (body : List Code)
  | postfixed (suffix : String) (body : List Code)

namespace Code

def blank : Code := .line ""

/-- An include of a header of the project or of the system. -/
def includes (header : String) (system : Bool) : Code :=
  if system then .line ("#include <" ++ header ++ ">")
  else .line ("#include \"" ++ header ++ "\"")

def braced (opener : String) (body : List Code) : Code := .block opener "\x7b" "\x7d" body

/-- A namespace; the global one needs no lines of its own. -/
def scope (name : String) (body : List Code) : Code :=
  if name.isEmpty then .indented 0 body else braced ("namespace " ++ name) body

/-- The forward declaration of a class in its namespace. -/
def declareClass (c : ClassRecord) : Code := scope c.type.id.scope [.line c.forwardDeclaration]

/-- The forward declaration of an enum in its namespace. -/
def declareEnum (e : EnumRecord) : Code :=
  scope e.type.id.scope [.line ("enum class " ++ e.type.name ++ ";")]

/-- The declaration of a function in its namespace. -/
def declareFunction (f : FunctionRecord) : Code := scope f.id.scope [.line f.declaration]

end Code

/-- Lines written so far, and how the next ones are indented and ended. -/
structure Writer where
  indent : String
  depth : Int
  suffix : String
  lines : List String

namespace Writer

def start (indent : String) : Writer := ⟨indent, 0, "", []⟩

/-- The blanks in front of a line. Negative depths count as none. -/
def margin (w : Writer) : String := String.join (List.replicate w.depth.toNat w.indent)

/-- Writes the lines of a text, each indented and with the suffix behind it. A blank line is the
suffix alone, without white space around it. -/
def writeLine (w : Writer) (text : String) : Writer :=
  let added :=
    if text.isEmpty then [Text.trimmed w.suffix]
    else (Text.linesOf text).map fun l => w.margin ++ l ++ w.suffix
  { w with lines := w.lines ++ added }

mutual
/-- Writes a piece of code. Depth and suffix are afterwards what they were before. -/
def write (w : Writer) : Code → Writer
  | .line text => w.writeLine text
  | .indented levels body =>
    { writeAll { w with depth := w.depth + levels } body with depth := w.depth }
  | .block opener openText closeText body =>
    let inner := (w.writeLine opener).writeLine openText
    let after := writeAll { inner with depth := w.depth + 1 } body
    { after with depth := w.depth }.writeLine closeText
  | .postfixed suffix body =>
    { writeAll { w with suffix := suffix } body with suffix := w.suffix }
def writeAll (w : Writer) : List Code → Writer
  | [] => w
  | c :: cs => writeAll (write w c) cs
end

/-- Whether all lines are blank. -/
def isEmpty (w : Writer) : Bool := w.lines.all fun l => (Text.trim l.toList).isEmpty

/-- The lines, each ended by a line feed; nothing when all of them are blank. -/
def text (w : Writer) : String :=
  if w.isEmpty then "" else "\n".intercalate w.lines ++ "\n"

end Writer

/-- The text of code that starts at the left margin, indented by tabulators. -/
def render (code : List Code) : String := ((Writer.start "\t").writeAll code).text

end Introspect.Emission
