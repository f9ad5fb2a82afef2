import Introspect.Decimal
import Introspect.Yaml.Fault

/-! Dates, and times of a day. -/
namespace Introspect.Yaml

/-- The time in the text of a moment, with the offset of its zone in minutes if that is given by
a number. -/
structure TimeText where
  hour : Nat
  minute : Nat
  second : Nat
  offset : Option Int

/-- The text of a moment in parts. The day is plain if month and day have two digits each. -/
structure MomentText where
  year : Nat
  month : Nat
  day : Nat
  hasPlainDay : Bool
  time : Option TimeText

/-- The digits at the front of a text, at least `least` and at most `most`, and what follows. -/
def digits? (least most : Nat) (s : List Char) : Option (List Char × List Char) :=
  let ds := (s.take most).takeWhile Char.isDigit
  if ds.length < least then none else some (ds, s.drop ds.length)

/-- The number at the front of a text, as `digits?` finds it. -/
def number? (least most : Nat) (s : List Char) : Option (Nat × List Char) :=
  (digits? least most s).map fun x => (Decimal.natOfDigits x.1, x.2)

/-- What follows a character at the front of a text. -/
def behind? (c : Char) (s : List Char) : Option (List Char) :=
  if s.head? = some c then some (s.drop 1) else none

/-- The zone at the end of a text: none, the letter for no offset, or an offset in hours and
minutes. -/
def zone? (s : List Char) : Option (Option Int) :=
  match s with
  | [] => some none
  | _ =>
    match s.dropWhile fun c => c == ' ' || c == '\t' with
    | ['Z'] => some none
    | sign :: r => do
      if sign ≠ '+' && sign ≠ '-' then none
      let (hours, r) ← number? 1 2 r
      let minutes ← if r.isEmpty then some 0 else do
        let (m, r) ← (behind? ':' r).bind (number? 2 2)
        if r.isEmpty then some m else none
      let offset : Int := (60 * hours + minutes : Nat)
      return some (if sign = '-' then -offset else offset)
    | [] => none

/-- The time at the end of a text, behind a letter or blanks. -/
def TimeText.parse? (s : List Char) : Option TimeText := do
  let r ← match s with
    | 'T' :: r => some r
    | 't' :: r => some r
    | s =>
      let r := s.dropWhile fun c => c == ' ' || c == '\t'
      if r.length < s.length then some r else none
  let (hour, r) ← number? 1 2 r
  let (minute, r) ← (behind? ':' r).bind (number? 2 2)
  let (second, r) ← (behind? ':' r).bind (number? 2 2)
  let offset ← zone? (if r.head? = some '.' then (r.drop 1).dropWhile Char.isDigit else r)
  return ⟨hour, minute, second, offset⟩

namespace MomentText

/-- The parts of the text of a moment: a day, with or without a time. -/
def parse? (s : List Char) : Option MomentText := do
  let (year, r) ← number? 4 4 s
  let (month, r) ← (behind? '-' r).bind (digits? 1 2)
  let (day, r) ← (behind? '-' r).bind (digits? 1 2)
  let time ← if r.isEmpty then some none else (TimeText.parse? r).map some
  return ⟨year, Decimal.natOfDigits month, Decimal.natOfDigits day,
    month.length = 2 && day.length = 2, time⟩

/-- A text that is taken for a moment without being marked as one: with a time, or with a plain
day. -/
def isPlain (m : MomentText) : Bool := m.time.isSome || m.hasPlainDay

def daysIn (year month : Nat) : Nat :=
  if month = 2 then
    if year % 4 = 0 && (year % 100 ≠ 0 || year % 400 = 0) then 29 else 28
  else if month = 4 || month = 6 || month = 9 || month = 11 then 30
  else 31

/-- The length of an offset as it is shown, in whole days and in seconds that are not negative. -/
def shownOffset (minutes : Int) : String :=
  let seconds := 60 * minutes
  let left := seconds % 86400
  "datetime.timedelta(days=" ++ toString (seconds / 86400) ++
    (if left = 0 then "" else ", seconds=" ++ toString left) ++ ")"

/-- The first part of a moment that is out of range. An offset is less than a day. -/
def check (m : MomentText) : Except Fault Unit := do
  match m.time.bind (·.offset) with
  | some offset =>
    if 1440 ≤ offset.natAbs then
      throw (.value ("offset must be a timedelta strictly between -timedelta(hours=24) and " ++
        "timedelta(hours=24), not " ++ shownOffset offset ++ "."))
  | none => pure ()
  if m.year = 0 then throw (.value "year 0 is out of range")
  if m.month = 0 || 12 < m.month then throw (.value "month must be in 1..12")
  if m.day = 0 || daysIn m.year m.month < m.day then
    throw (.value "day is out of range for month")
  match m.time with
  | some t => do
    if 23 < t.hour then throw (.value "hour must be in 0..23")
    if 59 < t.minute then throw (.value "minute must be in 0..59")
    if 59 < t.second then throw (.value "second must be in 0..59")
  | none => pure ()

end MomentText
end Introspect.Yaml
