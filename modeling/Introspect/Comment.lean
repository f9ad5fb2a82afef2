import Introspect.Text.Cut
import Introspect.Text.Lines

/-! The text of a source comment without its comment marks. -/
namespace Introspect.Comment

/-- The rest behind an optional `!`. -/
private def dropBang : List Char → List Char
  | '!' :: r => r
  | s => s

/-- A line without one leading comment mark: two or three slashes, a slash with one or two
stars, each with an optional `!`, or `*/` or `*`. -/
def dropMark : List Char → List Char
  | '/' :: '/' :: '/' :: r => dropBang r
  | '/' :: '/' :: r => dropBang r
  | '/' :: '*' :: '*' :: r => dropBang r
  | '/' :: '*' :: r => dropBang r
  | '*' :: '/' :: r => r
  | '*' :: r => r
  | s => s

/-- The rest behind one optional white space character. -/
def dropBlank : List Char → List Char
  | c :: r => if Text.isBlank c then r else c :: r
  | [] => []

/-- One line of a comment without white space around it, a closing `*/`, its leading mark and
one blank behind the mark. -/
def cleanLine (s : List Char) : List Char :=
  let line := Text.trim s
  let line := (Text.dropSuffix? ['*', '/'] line).getD line
  Text.trimEnd (dropBlank (dropMark (line.dropWhile Text.isBlank)))

/-- The text of a comment; nothing when no text is left. -/
def clean (raw : String) : Option String :=
  let lines := (Text.lines (Text.trim raw.toList)).map cleanLine
  let text := Text.trim (['\n'].intercalate lines)
  if text.isEmpty then none else some (String.ofList text)

end Introspect.Comment
