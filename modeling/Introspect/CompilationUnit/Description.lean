import Introspect.FrontEnd
import Introspect.Json.Basic
import Introspect.CompilationUnit.Outline
import Introspect.CompilationUnit.Raw

/-! Compilation units and complaints from data. What is missing has its usual value. -/
namespace Introspect.Description

/-- The member of a name, unless it is null. -/
def member? (j : Json) (name : String) : Option Json :=
  match j.member? name with
  | some .null => none
  | m => m

def text? (j : Json) (name : String) : Option String :=
  match member? j name with
  | some (.text s) => some s
  | _ => none

def textAt (j : Json) (name default : String) : String := (text? j name).getD default

def flagAt (j : Json) (name : String) (default : Bool) : Bool :=
  match member? j name with
  | some (.bool b) => b
  | _ => default

def wholeAt (j : Json) (name : String) (default : Int) : Int :=
  match member? j name with
  | some (.int n) => n
  | _ => default

def itemsAt (j : Json) (name : String) : List Json :=
  match member? j name with
  | some (.array items) => items
  | _ => []

/-- The members of an object that may be missing. -/
def membersAt (j : Json) (name : String) : List (String × Json) :=
  match member? j name with
  | some (.object members) => members
  | _ => []

def asText? : Json → Option String
  | .text s => some s
  | _ => none

def textsAt (j : Json) (name : String) : List String := (itemsAt j name).filterMap asText?

/-- A type nested at most `n` levels deep. -/
def typeWithin : Nat → Json → TypeOutline
  | _, .text name => .named name
  | 0, _ => .given .invalid none false false none none none []
  | n + 1, j =>
    .given (.ofTag (textAt j "kind" "invalid")) (text? j "spelling") (flagAt j "const" false)
      (flagAt j "param" false) (text? j "decl") ((member? j "canonical").map (typeWithin n))
      ((member? j "element").map (typeWithin n)) ((itemsAt j "args").map (typeWithin n))

def typeOf (j : Json) : TypeOutline := typeWithin j.depth j

def headOf (j : Json) : CursorHead where
  id := text? j "id"
  kind := .ofTag (textAt j "kind" "other")
  spelling := textAt j "spelling" ""
  annotations := textsAt j "annotations"
  file := text? j "file"
  line := wholeAt j "line" 1
  isDefinition := flagAt j "definition" true
  isAbstract := flagAt j "abstract" false
  templateKind := .ofTag (textAt j "template_kind" "class_decl")
  enumValue := wholeAt j "enum_value" 0
  comment := text? j "comment"
  specializationOf := text? j "specialization_of"

/-- A declaration nested at most `n` levels deep. -/
def cursorWithin : Nat → Json → CursorOutline
  | 0, j => .mk (headOf j) none none [] []
  | n + 1, j =>
    .mk (headOf j) ((member? j "type").map typeOf) ((member? j "result_type").map typeOf)
      ((itemsAt j "children").map (cursorWithin n)) ((itemsAt j "arguments").map (cursorWithin n))

def cursorOf (j : Json) : CursorOutline := cursorWithin j.depth j

/-- The topmost declaration of a unit that gives none. -/
def emptyRoot : Json := .object [("kind", .text CursorKind.unit.tag)]

def outlineOf (j : Json) : Outline :=
  ⟨cursorOf ((member? j "root").getD emptyRoot), (itemsAt j "loose").map cursorOf,
    (membersAt j "types").map fun m => (m.1, typeOf m.2)⟩

/-- A declaration as the compiler library reports it. -/
def rawCursorOf (j : Json) : RawCursor where
  kind := textAt j "kind" ""
  spelling := textAt j "spelling" ""
  type := text? j "type"
  resultType := text? j "result_type"
  isDefinition := flagAt j "definition" true
  children := textsAt j "children"
  arguments := textsAt j "arguments"
  parent := text? j "parent"
  file := text? j "file"
  line := wholeAt j "line" 0
  isAbstract := flagAt j "abstract" false
  tokens := textsAt j "tokens"
  enumValue := wholeAt j "enum_value" 0
  comment := text? j "comment"

def rawTypeOf (j : Json) : RawType :=
  let arguments := (itemsAt j "args").map asText?
  let count : Int := if (member? j "args").isSome then arguments.length else -1
  { kind := textAt j "kind" "INVALID"
    spelling := textAt j "spelling" ""
    isConst := flagAt j "const" false
    declaration := text? j "decl"
    canonical := text? j "canonical"
    element := text? j "element"
    named := text? j "named"
    arguments
    argumentCount := wholeAt j "num_args" count }

def rawUnitOf (j : Json) : RawUnit :=
  ⟨.ofList ((membersAt j "cursors").map fun m => (m.1, rawCursorOf m.2)),
    .ofList ((membersAt j "types").map fun m => (m.1, rawTypeOf m.2)), textAt j "root" ""⟩

/-- Whether a unit is given as the compiler library reports it. -/
def isRaw (j : Json) : Bool := (j.member? "cursors").isSome

def unitOf (cwd : List String) (j : Json) : CompilationUnit :=
  if isRaw j then (rawUnitOf j).toUnit cwd else (outlineOf j).layout.unit

def diagnosticOf (j : Json) : Diagnostic :=
  ⟨(Severity.ofNat? (wholeAt j "severity" 0).toNat).getD .ignored, textAt j "message" "",
    (text? j "file").map Path.ofString, wholeAt j "line" 0⟩

/-- A front end that answers with the unit and the complaints of a report. Units in the form of
the compiler library come from reading the input. -/
def frontEndOf (cwd : List String) (report : Json) : FrontEnd :=
  let unit := (member? report "unit").getD (.object [])
  ⟨unitOf cwd unit, (itemsAt report "diagnostics").map diagnosticOf, isRaw unit⟩

end Introspect.Description
