/-! Decimal numbers, the binary number with 53 significant bits nearest to one, and the
shortest decimal text that reads back as the same binary number. -/
namespace Introspect

/-- The number `± digits · 10 ^ exponent`. -/
structure Decimal where
  negative : Bool
  digits : Nat
  exponent : Int
deriving DecidableEq, Repr

namespace Decimal

def ofInt (n : Int) : Decimal := ⟨n < 0, n.natAbs, 0⟩

instance : Inhabited Decimal := ⟨ofInt 0⟩

/-- A number below zero. Minus zero is not. -/
def isNegative (d : Decimal) : Bool := d.negative && d.digits != 0

/-- The number that a run of decimal digits denotes. -/
def natOfDigits (ds : List Char) : Nat :=
  ds.foldl (fun n c => 10 * n + (c.toNat - 48)) 0

/-- An exponent mark, an optional sign and digits. -/
def exponent? : List Char → Option Int
  | [] => some 0
  | c :: r =>
    if c != 'e' && c != 'E' then none
    else
      let digits := match r with
        | '+' :: ds => ds
        | '-' :: ds => ds
        | ds => ds
      if digits.isEmpty || !digits.all Char.isDigit then none
      else if r.head? = some '-' then some (-(natOfDigits digits : Int))
      else some (natOfDigits digits)

/-- Digits with an optional point among or around them, an optional sign in front and an optional
exponent behind. -/
def ofChars? (s : List Char) : Option Decimal :=
  let digits := match s with
    | '+' :: r => r
    | '-' :: r => r
    | r => r
  let whole := digits.takeWhile Char.isDigit
  let behind := match digits.dropWhile Char.isDigit with
    | '.' :: r => (r.takeWhile Char.isDigit, r.dropWhile Char.isDigit)
    | r => ([], r)
  if (whole ++ behind.1).isEmpty then none
  else (exponent? behind.2).map fun e =>
    ⟨s.head? = some '-', natOfDigits (whole ++ behind.1), e - behind.1.length⟩

/-- The size of a binary number `mantissa · 2 ^ exponent`, or a size too large to be one. -/
inductive Binary where
  | finite (mantissa : Nat) (exponent : Int)
  | infinite
deriving DecidableEq, Repr

/-- `num / den` rounded to a whole number, a half going to the even neighbour. -/
def roundDiv (num den : Nat) : Nat :=
  let q := num / den
  let r := num % den
  if 2 * r < den then q
  else if den < 2 * r then q + 1
  else q + q % 2

/-- The fraction `n · base ^ e` as numerator and denominator. -/
def fraction (n base : Nat) (e : Int) : Nat × Nat :=
  if e < 0 then (n, base.pow e.natAbs) else (n * base.pow e.natAbs, 1)

/-- The least number of 53 bits. -/
def leastMantissa : Nat := 0x10000000000000

/-- The binary number with at most 53 bits and an exponent of at least -1074 that is nearest to
`num / den`, ties going to an even mantissa. -/
def nearestBinary (num den : Nat) : Binary :=
  let quotient (e : Int) : Nat × Nat :=
    let unit := fraction 1 2 e
    (num * unit.2, den * unit.1)
  let guess : Int := (num.log2 : Int) - (den.log2 : Int) - 52
  let short := (quotient guess).1 / (quotient guess).2 < leastMantissa
  let e := max (if short then guess - 1 else guess) (-1074)
  let m := roundDiv (quotient e).1 (quotient e).2
  let top := if m = 2 * leastMantissa then e + 1 else e
  if top > 971 then .infinite
  else if m = 2 * leastMantissa then .finite leastMantissa top
  else .finite m top

/-- The binary number nearest to the size of a decimal. Decimals far outside the range are
answered without building their powers. -/
def nearest (d : Decimal) : Binary :=
  let width : Int := (toString d.digits).length
  if d.digits = 0 || d.exponent + width < -400 then .finite 0 (-1074)
  else if d.exponent + width > 400 then .infinite
  else
    let f := fraction d.digits 10 d.exponent
    nearestBinary f.1 f.2

/-- The value of the binary number nearest to a decimal, when that is a whole number. -/
def whole? (d : Decimal) : Option Int :=
  let size : Option Nat := match d.nearest with
    | .infinite => none
    | .finite m e =>
      let f := fraction m 2 e
      if f.1 % f.2 = 0 then some (f.1 / f.2) else none
  size.map fun (n : Nat) => if d.negative then -(n : Int) else n

def ofBinary (negative : Bool) (m : Nat) (e : Int) : Decimal :=
  if e < 0 then ⟨negative, m * Nat.pow 5 e.natAbs, e⟩ else ⟨negative, m * Nat.pow 2 e.natAbs, 0⟩

/-- The binary number nearest to a decimal, none when it is too large to be one. -/
def rounded? (d : Decimal) : Option Decimal :=
  match d.nearest with
  | .finite m e => some (ofBinary d.negative m e)
  | .infinite => none

def add (a b : Decimal) : Decimal :=
  let e := min a.exponent b.exponent
  let size (d : Decimal) : Int :=
    (if d.negative then -1 else 1) * (d.digits * Nat.pow 10 (d.exponent - e).toNat : Nat)
  let n := size a + size b
  ⟨n < 0, n.natAbs, e⟩

def mul (a b : Decimal) : Decimal :=
  ⟨a.negative != b.negative, a.digits * b.digits, a.exponent + b.exponent⟩

/-- Whether `n / d` is nearest to `m · 2 ^ e` among all binary numbers. The two points halfway
to a neighbour count when `m` is even. -/
def readsBack (m : Nat) (e : Int) (n d : Nat) : Bool :=
  let unit := fraction 1 2 (e - 2)
  let point := n * unit.2
  let low := (4 * m - (if m = leastMantissa ∧ e > -1074 then 1 else 2)) * unit.1 * d
  let high := (4 * m + 2) * unit.1 * d
  if m % 2 = 0 then low ≤ point && point ≤ high else low < point && point < high

/-- The multiple of `10 ^ p` nearest to `m · 2 ^ e` when it reads back, else the other
neighbouring multiple when that one does. -/
def onGrid? (m : Nat) (e p : Int) : Option Nat :=
  let value := fraction m 2 e
  let grid := fraction 1 10 p
  let num := value.1 * grid.2
  let den := value.2 * grid.1
  let nearer := roundDiv num den
  let other := if nearer = num / den then nearer + 1 else num / den
  [nearer, other].find? fun k => readsBack m e (k * grid.1) grid.2

/-- The power of ten of the leading digit of a positive binary number, or one below it for an
exact power of ten under one. -/
def leadingPower (m : Nat) (e : Int) : Int :=
  let value := fraction m 2 e
  if value.2 ≤ value.1 then ((toString (value.1 / value.2)).length : Int) - 1
  else -((toString (value.2 / value.1)).length : Int)

/-- The fewest decimal digits that read back as `m · 2 ^ e`, with the power of ten of the last. -/
def shortest (m : Nat) (e : Int) : Nat × Int :=
  let top := leadingPower m e
  let grids := (List.range 18).map fun (n : Nat) => top - (n : Int)
  (grids.findSome? fun p => (onGrid? m e p).map fun k => (k, p)).getD (m, e)

/-- Positional text from 10⁻⁴ up to below 10¹⁶ with at least one digit on each side of the
point; outside that range one leading digit and a signed exponent of two or more digits. -/
def layOut (digits : List Char) (lastPower : Int) : String :=
  let kept := (digits.reverse.dropWhile (· == '0')).reverse
  let power : Int := lastPower + digits.length - 1
  if power < -4 || 16 ≤ power then
    let tail := kept.drop 1
    let mark := if power < 0 then "e-" else "e+"
    let size := toString power.natAbs
    String.ofList (kept.take 1 ++ (if tail.isEmpty then [] else '.' :: tail)) ++ mark ++
      (if size.length < 2 then "0" ++ size else size)
  else if power < 0 then
    String.ofList ('0' :: '.' :: List.replicate (power.natAbs - 1) '0' ++ kept)
  else
    let whole := power.natAbs + 1
    let tail := kept.drop whole
    String.ofList (kept.take whole ++ List.replicate (whole - kept.length) '0' ++
      '.' :: (if tail.isEmpty then ['0'] else tail))

/-- The shortest text that reads back as the binary number nearest to a decimal. -/
def text (d : Decimal) : String :=
  (if d.negative then "-" else "") ++
    match d.nearest with
    | .infinite => "inf"
    | .finite 0 _ => "0.0"
    | .finite m e =>
      let s := shortest m e
      layOut (toString s.1).toList s.2

example : (Decimal.mk false 5 (-2)).text = "0.05" := by decide +kernel
example : (Decimal.mk true 15 (-1)).text = "-1.5" := by decide +kernel
example : (Decimal.mk false 30000000000000004 (-17)).text = "0.30000000000000004" := by
  decide +kernel
example : (Decimal.mk false 1 16).text = "1e+16" := by decide +kernel

end Decimal
end Introspect
