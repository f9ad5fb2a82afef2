import Introspect.Json.Token
import Introspect.Settings.Basic
import Introspect.Text.Numeral
import Introspect.Yaml.Value

/-! Which data are accepted for a setting, and what they mean. Numbers and truth values may also
be given as text, and every text as its bytes. -/
namespace Introspect.Settings

open Yaml (Value)

/-- What a check finds: a value, the kinds of faults with their places in a list, or data that
no check foresees. -/
inductive Verdict (α : Type) where
  | accepted (value : α)
  | refused (faults : List (Option Nat × String))
  | broken (failure : Failure)

namespace Verdict
variable {α β : Type}

def fault (kind : String) : Verdict α := .refused [(none, kind)]

def bind (v : Verdict α) (f : α → Verdict β) : Verdict β :=
  match v with
  | .accepted a => f a
  | .refused fs => .refused fs
  | .broken e => .broken e

def ofOption (kind : String) : Option α → Verdict α
  | some a => .accepted a
  | none => .fault kind

end Verdict

def textOf? (bytes : List UInt8) : Option String := String.fromUTF8? ⟨bytes.toArray⟩

def textValue : Value → Verdict String
  | .text s => .accepted s
  | .bytes bs => .ofOption "string_unicode" (textOf? bs)
  | _ => .fault "string_type"

/-- Texts with their places. Every item that is none is a fault of its own. -/
def textItems (items : List (Value × Nat)) : Verdict (List String) :=
  let faults := items.filterMap fun e =>
    match textValue e.1 with
    | .refused [(_, kind)] => some (some e.2, kind)
    | _ => none
  if faults.isEmpty then
    .accepted (items.filterMap fun e =>
      match textValue e.1 with
      | .accepted s => some s
      | _ => none)
  else .refused faults

def textsValue : Value → Verdict (List String)
  | .list items => textItems items.zipIdx
  | .set items => textItems items.zipIdx
  | _ => .fault "list_type"

/-- The words for the truth values, in any case. -/
def truthOf? (s : String) : Option Bool :=
  let word := s.map Char.toLower
  if ["0", "f", "n", "no", "off", "false"].contains word then some false
  else if ["1", "t", "y", "yes", "on", "true"].contains word then some true
  else none

/-- A number below this in size fits into 64 bits with its sign. -/
def wordLimit : Int := 0x8000000000000000

/-- A truth value: itself, zero or one, or a word for it. -/
def flagValue : Value → Verdict Bool
  | .bool b => .accepted b
  | .text s => .ofOption "bool_parsing" (truthOf? s)
  | .bytes bs => .ofOption "bool_parsing" ((textOf? bs).bind truthOf?)
  | .int n =>
    if n < -wordLimit || wordLimit ≤ n then .fault "bool_type" else ofWhole n
  | .real d =>
    match d.whole? with
    | some n => if n ≤ -wordLimit || wordLimit ≤ n then .fault "bool_type" else ofWhole n
    | none => .fault "bool_type"
  | _ => .fault "bool_type"
where
  ofWhole (n : Int) : Verdict Bool :=
    if n = 0 then .accepted false
    else if n = 1 then .accepted true
    else .fault "bool_parsing"

/-- What follows the zeros and underscores behind a first zero: a number, or a point with the
character before it. Of zeros and underscores alone the last is left. -/
def pastZeros (last : Char) : List Char → Option (List Char)
  | [] => some [last]
  | c :: r =>
    if c = '0' || c = '_' then pastZeros c r
    else if '1' ≤ c && c ≤ '9' then some (c :: r)
    else if c = '.' then some (last :: c :: r)
    else none

/-- A number without its leading zeros. Zeros behind a minus sign stay. -/
def withoutZeros : List Char → Option (List Char)
  | [] => none
  | c :: r =>
    if c = '0' then pastZeros c r
    else if ('1' ≤ c && c ≤ '9') || c = '-' then some (c :: r)
    else none

/-- A number without a fraction of nothing but zeros. -/
def withoutFraction (s : List Char) : List Char :=
  match Text.cutAt '.' s with
  | (whole, some (c :: r)) => if (c :: r).all (· == '0') then whole else s
  | _ => s

/-- A text without its underscores. They do not stand at its ends nor next to one another. -/
def withoutUnderscores? (s : List Char) : Option (List Char) :=
  if (s.splitOn '_').any List.isEmpty then none else some (s.filter (· != '_'))

/-- The whole number that a text denotes. White space around it, a plus sign, zeros in front,
underscores and a fraction of nothing but zeros do not count. -/
def wholeOf (s : String) : Verdict Int :=
  let t := Text.trimWhile Text.isNumeralMargin s.toList
  let unsigned := match t with
    | '+' :: '-' :: _ => none
    | '+' :: r => some r
    | _ => some t
  match unsigned.bind withoutZeros with
  | none => .fault "int_parsing"
  | some number =>
    let bare := withoutFraction number
    let digits := (withoutUnderscores? bare).getD bare
    let size := match digits with
      | '-' :: r => r
      | _ => digits
    if size.isEmpty || !size.all Char.isDigit || (size.head? = some '0' && 1 < size.length) then
      .fault "int_parsing"
    else if Text.longestWhole < size.length then .fault "int_parsing_size"
    else
      let n : Int := Decimal.natOfDigits size
      .accepted (if digits.head? = some '-' then -n else n)

def wholeValue : Value → Verdict Int
  | .int n => .accepted n
  | .bool b => .accepted (if b then 1 else 0)
  | .text s => wholeOf s
  | .bytes bs => (Verdict.ofOption "int_parsing" (textOf? bs)).bind wholeOf
  | .real d =>
    match d.nearest, d.whole? with
    | .infinite, _ => .fault "finite_number"
    | _, none => .fault "int_from_float"
    | _, some n =>
      if n ≤ -wordLimit || wordLimit ≤ n then .fault "int_parsing_size" else .accepted n
  | .infinite _ | .undefined => .fault "finite_number"
  | _ => .fault "int_type"

/-- A whole number of at least one. -/
def countValue (v : Value) : Verdict Int :=
  (wholeValue v).bind fun n => if n < 1 then .fault "greater_than_equal" else .accepted n

/-- A delay without end, unless it is negative. -/
def endless (negative : Bool) : Verdict Delay :=
  if negative then .fault "greater_than_equal" else .accepted .endless

/-- A delay of a given length; lengths out of range have no end. -/
def delayOf (d : Decimal) : Verdict Delay :=
  match d.nearest with
  | .infinite => endless d.negative
  | .finite m _ =>
    if d.negative && m != 0 then .fault "greater_than_equal" else .accepted (.fractional d)

/-- The delay that a text without margins denotes, if it denotes a number. -/
def plainDelay? (s : List Char) : Option (Verdict Delay) :=
  let word := String.ofList ((Text.dropSign s).map Char.toLower)
  if word = "nan" then some (.fault "greater_than_equal")
  else if word = "inf" || word = "infinity" then some (endless (s.head? = some '-'))
  else (Decimal.ofChars? s).map delayOf

/-- The delay that a text denotes. It may have white space around it or underscores in it, but
not both. -/
def delayOfText (s : String) : Verdict Delay :=
  let t := Text.trimWhile Text.isNumeralMargin s.toList
  ((plainDelay? t).or ((withoutUnderscores? s.toList).bind plainDelay?)).getD
    (.fault "float_parsing")

/-- A delay that is not negative. -/
def delayValue : Value → Verdict Delay
  | .int n =>
    match (Decimal.ofInt n).nearest with
    | .infinite => .fault "float_type"
    | .finite _ _ => delayOf (.ofInt n)
  | .bool b => delayOf (.ofInt (if b then 1 else 0))
  | .real d => delayOf d
  | .text s => delayOfText s
  | .bytes bs => (Verdict.ofOption "float_parsing" (textOf? bs)).bind delayOfText
  | .infinite negative => endless negative
  | .undefined => .fault "greater_than_equal"
  | _ => .fault "float_type"

/-- A path that may be missing, kept as it is. -/
def fileValue : Value → Verdict (Option Path)
  | .null => .accepted none
  | .text s => .accepted (some (Path.ofString s))
  | _ => .fault "path_type"

/-- A directory given as text, from the top of the file system. -/
def directoryOf (site : Site) (s : String) : Verdict Path :=
  match site.settle (Path.ofString s) with
  | .ok p => .accepted p
  | .error .nullByte => .fault "value_error"
  | .error e => .broken e

/-- A directory, from the top of the file system. Only texts are foreseen. -/
def directoryValue (site : Site) : Value → Verdict Path
  | .text s => directoryOf site s
  | _ => .broken .wrongShape

/-- What `read` makes of the parts of a value, up to the first that is not accepted. -/
def partsOf {α : Type} (read : Value → Verdict α) : List Value → Verdict (List α)
  | [] => .accepted []
  | v :: vs => (read v).bind fun a => (partsOf read vs).bind fun as => .accepted (a :: as)

/-- The parts of a value, none of a vacant one, as `read` reads them. -/
def partsValue {α : Type} (read : Value → Verdict α) (v : Value) : Verdict (List α) :=
  if v.isVacant then .accepted []
  else match v.parts? with
    | none => .broken .wrongShape
    | some parts => partsOf read parts

/-- Directories, from the top of the file system. -/
def directoriesValue (site : Site) : Value → Verdict (List Path) :=
  partsValue (directoryValue site)

def dotted (s : String) : String := if Text.startsWith "." s then s else "." ++ s

def extensionsValue : Value → Verdict (List String) :=
  partsValue fun
    | .text s => .accepted (dotted s)
    | .bytes _ => .broken .wrongShape
    | _ => .broken .wrongKind

end Introspect.Settings
