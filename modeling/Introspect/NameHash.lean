/-! Numbers that stand for names, and the search for two names with one number. -/
namespace Introspect

/-- A function that gives every name a number. -/
abbrev NameHash := String → Int

namespace NameHash

private def crcStep (c : UInt32) : UInt32 :=
  if c &&& 1 = 1 then (c >>> 1) ^^^ 0xEDB88320 else c >>> 1

private def crcByte (c : UInt32) (b : UInt8) : UInt32 :=
  (List.range 8).foldl (fun c _ => crcStep c) (c ^^^ b.toUInt32)

/-- The CRC-32 check sum (reflected polynomial 0xEDB88320) of the UTF-8 form of a name. -/
def crc32 : NameHash := fun name =>
  ((name.toUTF8.foldl crcByte 0xFFFFFFFF) ^^^ 0xFFFFFFFF).toNat

end NameHash

/-- Two different names with one number. `first` is the name seen earlier. -/
structure Collision where
  first : String
  second : String
  value : Int
deriving DecidableEq, Repr

/-- The first name of the list with the given number. -/
def NameHash.holder? (h : NameHash) (seen : List String) (value : Int) : Option String :=
  seen.find? fun n => h n = value

/-- Goes on with `names` after the pairwise compatible names `seen`, given in their order. -/
def NameHash.collisionAfter (h : NameHash) (seen : List String) :
    List String → Option Collision
  | [] => none
  | n :: r =>
    match h.holder? seen (h n) with
    | none => h.collisionAfter (seen ++ [n]) r
    | some m => if m = n then h.collisionAfter seen r else some ⟨m, n, h n⟩

/-- The first name that has an earlier different name of the same number, with the earliest
such name. -/
def NameHash.collision? (h : NameHash) (names : List String) : Option Collision :=
  h.collisionAfter [] names

end Introspect
