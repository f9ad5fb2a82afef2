import Introspect.Text.Quoted
import Introspect.Yaml.Binary
import Introspect.Yaml.Meaning
import Introspect.Yaml.Value

/-! The values of scalars. -/
namespace Introspect.Yaml

/-- The letter that may stand behind a zero in front of the digits of a base. -/
def baseLetter? : Nat → Option Char
  | 2 => some 'b'
  | 8 => some 'o'
  | 16 => some 'x'
  | _ => none

/-- The digits of a number in a base without the mark of the base in front. -/
def dropBase (base : Nat) : List Char → List Char
  | '0' :: c :: r => if some c.toLower = baseLetter? base then r else '0' :: c :: r
  | s => s

/-- The whole number that a text denotes in a base, with white space around it and a sign. -/
def wholeIn (base : Nat) (s : List Char) : Except Fault Int :=
  let t := Text.trimWhile Text.isNumeralMargin s
  let digits := dropBase base (Text.dropSign t)
  let leading := (digits.takeWhile Text.isDigit).length
  if base = 10 && Text.longestWhole < leading then .error (.value (Text.tooLong leading))
  else
    let values := digits.mapM fun c =>
      ((Text.digitValue? c).or (Json.hexValue? c)).filter (· < base)
    match digits, values with
    | _ :: _, some values =>
      let size : Int := (values.foldl (fun n d => base * n + d) 0 : Nat)
      .ok (if t.head? = some '-' then -size else size)
    | _, _ =>
      let shown := (Text.quoted (String.ofList s)).toList.take 200
      .error (.value ("invalid literal for int() with base " ++ toString base ++ ": " ++
        String.ofList shown))

/-- The parts of a text between colons, the last one first, as `read` reads each. -/
def sixtieths {α : Type} (read : List Char → Except Fault α) (s : List Char) :
    Except Fault (List α) := do
  return (← (s.splitOn ':').mapM read).reverse

def signed (s : List Char) : Except Fault (Bool × List Char) :=
  match s with
  | [] => .error .noDigits
  | '-' :: r => .ok (true, r)
  | '+' :: r => .ok (false, r)
  | s => .ok (false, s)

/-- The whole number of a scalar that stands for one. -/
def whole (s : List Char) : Except Fault Int := do
  let (negative, digits) ← signed (s.filter (· != '_'))
  let size ← match digits with
    | [] => throw .noDigits
    | ['0'] => pure 0
    | '0' :: 'b' :: r => wholeIn 2 r
    | '0' :: 'x' :: r => wholeIn 16 r
    | '0' :: _ => wholeIn 8 digits
    | _ =>
      if digits.contains ':' then do
        let parts ← sixtieths (wholeIn 10) digits
        pure (parts.foldr (fun d n => 60 * n + d) 0)
      else wholeIn 10 digits
  return if negative then -size else size

def opposite : Value → Value
  | .real d => .real { d with negative := !d.negative }
  | .infinite negative => .infinite !negative
  | v => v

def plainDigits (s : List Char) : List Char :=
  s.map fun c => ((Text.digitValue? c).map fun n => Char.ofNat (48 + n)).getD c

/-- The number that a text denotes, with white space around it. -/
def number (s : List Char) : Except Fault Value :=
  let t := plainDigits (Text.trimWhile Text.isNumeralMargin s)
  match String.ofList (Text.dropSign t), Decimal.ofChars? t with
  | "nan", _ => .ok .undefined
  | "inf", _ | "infinity", _ => .ok (.infinite (t.head? = some '-'))
  | _, some d => .ok (.real d)
  | _, none =>
    .error (.value ("could not convert string to float: " ++ Text.quoted (String.ofList s)))

/-- The sum of sixtieths from the last one on, each step rounded to a binary number. `unit` is the
weight of the first of them. -/
def sumSixtieths (unit : Nat) (sum : Decimal) : List Value → Except Fault Value
  | [] => .ok (.real sum)
  | .real d :: r =>
    match (Decimal.ofInt unit).rounded? with
    | none => .error .tooLarge
    | some u => do
      match d.rounded?.bind fun d => (d.mul u).rounded?.bind fun x => (sum.add x).rounded? with
      | some sum => sumSixtieths (60 * unit) sum r
      | none => return .infinite d.negative
  | v :: _ => .ok v

/-- The number of a scalar that stands for one with a point. -/
def real (s : List Char) : Except Fault Value := do
  let (negative, digits) ← signed ((s.filter (· != '_')).map Char.toLower)
  let size ← match String.ofList digits with
    | ".inf" => pure (.infinite false)
    | ".nan" => pure .undefined
    | _ =>
      if digits.contains ':' then do
        sumSixtieths 1 (.ofInt 0) (← sixtieths number digits)
      else number digits
  return if negative then opposite size else size

/-- The truth value of a scalar that stands for one. Case does not count. -/
def truth (s : String) : Except Fault Bool :=
  let word := s.map Char.toLower
  if Meaning.trueWords.contains word then .ok true
  else if Meaning.falseWords.contains word then .ok false
  else .error .unknownWord

def scalarValue (meaning : Meaning) (text : String) : Except Fault Value :=
  match meaning with
  | .null => .ok .null
  | .bool => (truth text).map .bool
  | .int => (whole text.toList).map .int
  | .float => real text.toList
  | .binary =>
    match bytes? text.toList with
    | some bs => .ok (.bytes bs)
    | none => .error .node
  | .timestamp =>
    match MomentText.parse? ((Text.dropSuffix? ['\n'] text.toList).getD text.toList) with
    | some m => m.check.map fun _ => .moment
    | none => .error .noDate
  | .str => .ok (.text text)
  | _ => .error .node

end Introspect.Yaml
