import Introspect.Emission.Writer

/-! Where the lines of code stand, and that a writer puts them there and is afterwards as deep as
before, with the suffix that it had. -/
namespace Introspect.Emission
open Text

/-- A line in its place: how deep it stands, the suffix of the innermost scope around it that has
one, and what it says. A blank line says nothing. -/
structure Row where
  depth : Int
  suffix : String
  piece : Option String
deriving DecidableEq

/-- The line as it is written. -/
def Row.shown (indent : String) (row : Row) : String :=
  match row.piece with
  | none => trimmed row.suffix
  | some l => String.join (List.replicate row.depth.toNat indent) ++ l ++ row.suffix

/-- The lines of one text. Every piece of a broken text is a line of its own. -/
def rowsOf (depth : Int) (suffix text : String) : List Row :=
  if text.isEmpty then [⟨depth, suffix, none⟩]
  else (linesOf text).map fun l => ⟨depth, suffix, some l⟩

namespace Code

mutual
/-- The lines of a piece of code that stands at a depth, in a scope with a suffix. The opener and
the closer of a block stand where the block does, its body one level deeper. -/
def rows (depth : Int) (suffix : String) : Code → List Row
  | .line text => rowsOf depth suffix text
  | .indented levels body => rowsAll (depth + levels) suffix body
  | .block opener openText closeText body =>
    rowsOf depth suffix opener ++ rowsOf depth suffix openText ++
      rowsAll (depth + 1) suffix body ++ rowsOf depth suffix closeText
  | .postfixed suffix body => rowsAll depth suffix body
def rowsAll (depth : Int) (suffix : String) : List Code → List Row
  | [] => []
  | c :: cs => rows depth suffix c ++ rowsAll depth suffix cs
end

mutual
/-- The suffixes of the scopes in a piece of code. -/
def suffixes : Code → List String
  | .line _ => []
  | .indented _ body => suffixesAll body
  | .block _ _ _ body => suffixesAll body
  | .postfixed suffix body => suffix :: suffixesAll body
def suffixesAll : List Code → List String
  | [] => []
  | c :: cs => suffixes c ++ suffixesAll cs
end

variable {depth : Int} {suffix : String}

@[simp] theorem rowsAll_nil : rowsAll depth suffix [] = [] := rfl

@[simp] theorem rowsAll_cons (c : Code) (cs : List Code) :
    rowsAll depth suffix (c :: cs) = c.rows depth suffix ++ rowsAll depth suffix cs := rfl

mutual
private theorem exists_of_mem_rows (c : Code) {depth : Int} {suffix : String} {row : Row}
    (h : row ∈ c.rows depth suffix) :
    ∃ d s text, (s = suffix ∨ s ∈ c.suffixes) ∧ row ∈ rowsOf d s text := by
  match c with
  | .line text => exact ⟨depth, suffix, text, .inl rfl, h⟩
  | .indented levels body => exact exists_of_mem_rowsAll body h
  | .block opener openText closeText body =>
    simp only [rows, List.mem_append] at h
    obtain ((h | h) | h) | h := h
    · exact ⟨depth, suffix, opener, .inl rfl, h⟩
    · exact ⟨depth, suffix, openText, .inl rfl, h⟩
    · exact exists_of_mem_rowsAll body h
    · exact ⟨depth, suffix, closeText, .inl rfl, h⟩
  | .postfixed inner body =>
    obtain ⟨d, s, text, hs, htext⟩ := exists_of_mem_rowsAll body h
    exact ⟨d, s, text, .inr (List.mem_cons.2 hs), htext⟩
/-- A line is one of a text, with the suffix that all of the code has or that of a scope in it. -/
theorem exists_of_mem_rowsAll (cs : List Code) {depth : Int} {suffix : String} {row : Row}
    (h : row ∈ rowsAll depth suffix cs) :
    ∃ d s text, (s = suffix ∨ s ∈ suffixesAll cs) ∧ row ∈ rowsOf d s text := by
  match cs with
  | [] => exact absurd h List.not_mem_nil
  | c :: cs =>
    obtain h | h := List.mem_append.1 h
    · obtain ⟨d, s, text, hs, htext⟩ := exists_of_mem_rows c h
      exact ⟨d, s, text, hs.imp_right (List.mem_append_left _), htext⟩
    · obtain ⟨d, s, text, hs, htext⟩ := exists_of_mem_rowsAll cs h
      exact ⟨d, s, text, hs.imp_right (List.mem_append_right _), htext⟩
end

end Code

namespace Writer
variable {w : Writer}

/-- The writer after these lines, as deep as before and with the same suffix. -/
def written (w : Writer) (rows : List Row) : Writer :=
  { w with lines := w.lines ++ rows.map (Row.shown w.indent) }

@[simp] theorem lines_written (w : Writer) (rows : List Row) :
    (w.written rows).lines = w.lines ++ rows.map (Row.shown w.indent) := rfl

@[simp] theorem written_nil (w : Writer) : w.written [] = w := by
  simp [written]

@[simp] theorem written_written (w : Writer) (a b : List Row) :
    (w.written a).written b = w.written (a ++ b) := by
  simp [written]

theorem writeLine_eq (w : Writer) (text : String) :
    w.writeLine text = w.written (rowsOf w.depth w.suffix text) := by
  unfold writeLine written rowsOf
  split
  · rfl
  · simp [Row.shown, margin, Function.comp_def]

mutual
private theorem write_eq (w : Writer) (c : Code) :
    w.write c = w.written (c.rows w.depth w.suffix) := by
  match c with
  | .line text => exact writeLine_eq w text
  | .indented levels body =>
    rw [write, writeAll_eq]
    rfl
  | .block opener openText closeText body =>
    have hopen : (w.writeLine opener).writeLine openText =
        w.written (rowsOf w.depth w.suffix opener ++ rowsOf w.depth w.suffix openText) := by
      rw [writeLine_eq w, writeLine_eq, written_written]
      rfl
    rw [write, hopen, writeAll_eq, writeLine_eq]
    simp [written, Code.rows]
  | .postfixed suffix body =>
    rw [write, writeAll_eq]
    rfl
/-- A writer adds the lines of the code where they stand, and is as before otherwise. -/
theorem writeAll_eq (w : Writer) (cs : List Code) :
    w.writeAll cs = w.written (Code.rowsAll w.depth w.suffix cs) := by
  match cs with
  | [] => simp [writeAll]
  | c :: cs => rw [writeAll, write_eq, writeAll_eq, written_written]; rfl
end

/-- The writer that many levels deeper. -/
def shifted (w : Writer) (levels : Int) : Writer := { w with depth := w.depth + levels }

/-- A scope takes the depth back by as much as it moved it, which is to where it was. -/
theorem write_indented (w : Writer) (levels : Int) (body : List Code) :
    w.write (.indented levels body) = ((w.shifted levels).writeAll body).shifted (-levels) := by
  rw [write_eq, writeAll_eq]
  simp only [written, shifted, Code.rows, Int.add_neg_cancel_right]

/-- A block is an indented scope between its opener and its closer. -/
theorem write_block (w : Writer) (opener openText closeText : String) (body : List Code) :
    w.write (.block opener openText closeText body) =
      (((w.writeLine opener).writeLine openText).write (.indented 1 body)).writeLine closeText := by
  rw [write, write]
  rfl

/-- A namespace without a name writes its body and nothing else. -/
theorem write_scope_empty (w : Writer) (body : List Code) :
    w.write (.scope "" body) = w.writeAll body := by
  rw [write_eq, writeAll_eq]
  simp [Code.scope, Code.rows]

end Writer
end Introspect.Emission
