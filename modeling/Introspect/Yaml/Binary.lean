/-! Bytes written with sixty-four characters. -/
namespace Introspect.Yaml

/-- The value of one of the sixty-four characters. -/
def sextet? (c : Char) : Option Nat :=
  if 'A' ≤ c ∧ c ≤ 'Z' then some (c.toNat - 65)
  else if 'a' ≤ c ∧ c ≤ 'z' then some (c.toNat - 71)
  else if '0' ≤ c ∧ c ≤ '9' then some (c.toNat + 4)
  else if c = '+' then some 62
  else if c = '/' then some 63
  else none

/-- The bytes of a text whose last group of four characters has `position` of them so far, with
the bits left over from the last one and the padding since. Other characters are passed over, and
a group ends early when it is filled up with padding. A group must not stay open. -/
def bytesFrom (position left padding : Nat) : List Char → Option (List UInt8)
  | [] => if position = 0 then some [] else none
  | c :: r =>
    if c = '=' then
      if position < 2 then bytesFrom position left padding r
      else if 4 ≤ position + padding + 1 then some []
      else bytesFrom position left (padding + 1) r
    else match sextet? c with
      | none => bytesFrom position left padding r
      | some n =>
        match position with
        | 0 => bytesFrom 1 n 0 r
        | 1 => (bytesFrom 2 (n % 16) 0 r).map ((4 * left + n / 16).toUInt8 :: ·)
        | 2 => (bytesFrom 3 (n % 4) 0 r).map ((16 * left + n / 4).toUInt8 :: ·)
        | _ => (bytesFrom 0 0 0 r).map ((64 * left + n).toUInt8 :: ·)

/-- The bytes that a text of ASCII characters denotes. -/
def bytes? (s : List Char) : Option (List UInt8) :=
  if s.all fun c => c.toNat < 0x80 then bytesFrom 0 0 0 s else none

end Introspect.Yaml
