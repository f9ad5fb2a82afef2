import Introspect.Text.Cut

/-! Slash-separated file paths: their normal form, their parts, and their places relative to
one another. No path follows a symbolic link. -/
namespace Introspect

/-- How a path begins. Exactly two leading slashes are kept apart from one. -/
inductive Anchor where
  | relative
  | root
  | doubleRoot
deriving DecidableEq, Repr

/-- The text of the part of a path that its parts follow. -/
def Anchor.text : Anchor → String
  | .relative => ""
  | .root => "/"
  | .doubleRoot => "//"

/-- A path without empty components and without `.`; the component `..` stands as it is. -/
structure Path where
  anchor : Anchor
  parts : List String
deriving DecidableEq, Repr

namespace Path

instance : Inhabited Path := ⟨⟨.relative, []⟩⟩

/-- The path from the top of the file system through the given parts. -/
def absolute (parts : List String) : Path := ⟨.root, parts⟩

/-- How a path given as text begins. Three slashes or more count as one. -/
def anchorOf (s : List Char) : Anchor :=
  match (s.takeWhile (· == '/')).length with
  | 0 => .relative
  | 2 => .doubleRoot
  | _ => .root

/-- Reads a path, dropping empty components and `.`. -/
def ofString (s : String) : Path :=
  ⟨anchorOf s.toList, (Text.pieces '/' s).filter fun p => p ≠ "" && p ≠ "."⟩

/-- The text of a path. The path of nothing at all is written `.`. -/
def toString (p : Path) : String :=
  if p.anchor = .relative && p.parts.isEmpty then "."
  else p.anchor.text ++ "/".intercalate p.parts

/-- Whether a path begins at the top of the file system. -/
def isAbsolute (p : Path) : Bool := p.anchor != .relative

/-- The last component, empty for a path without components. -/
def name (p : Path) : String := p.parts.getLast?.getD ""

def parent (p : Path) : Path := { p with parts := p.parts.dropLast }

/-- `q` as seen from `p`: an absolute `q` stays, any other goes below `p`. -/
def join (p q : Path) : Path :=
  if q.isAbsolute then q else { p with parts := p.parts ++ q.parts }

/-- A path below `p` given as text. -/
def child (p : Path) (s : String) : Path := p.join (ofString s)

/-- A name cut before its last dot, unless that dot is the first or the last character. -/
def stemOf (name : String) : String :=
  let cs := name.toList
  let suffix := cs.reverse.takeWhile (· != '.')
  let front := cs.reverse.drop (suffix.length + 1)
  if suffix.isEmpty || front.isEmpty then name else String.ofList front.reverse

/-- The last component without its suffix. -/
def stem (p : Path) : String := stemOf p.name

/-- One component taken from the top: `..` goes back up, and stays at the top there. -/
def descend (above : List String) (part : String) : List String :=
  if part = ".." then above.dropLast else above ++ [part]

/-- The components from the top of the file system with every `..` carried out. A relative path
starts at the working directory. -/
def fold (cwd : List String) (p : Path) : List String :=
  p.parts.foldl descend (if p.isAbsolute then [] else cwd)

/-- The path from the top of the file system without `..`, for a working directory given by its
components. -/
def resolve (cwd : List String) (p : Path) : Path := absolute (p.fold cwd)

/-- The null character stands in a path. The system knows no such path. -/
def hasNull (p : Path) : Bool := p.parts.any fun s => s.toList.contains '\x00'

/-- `c` lies at or below `r`: the components of `r`, once resolved, begin those of `c`. A path
that the system cannot know lies nowhere. -/
def isWithin (cwd : List String) (c r : Path) : Bool :=
  !c.hasNull && !r.hasNull && (r.fold cwd).isPrefixOf (c.fold cwd)

/-- Both paths resolve to the same place. -/
def sameAs (cwd : List String) (a b : Path) : Bool :=
  a.fold cwd == b.fold cwd

/-- The components without those in front that are shared, pairwise. -/
def dropShared : List String → List String → List String × List String
  | a :: as, b :: bs => if a = b then dropShared as bs else (a :: as, b :: bs)
  | as, bs => (as, bs)

/-- The way from `start` to `p`: up out of what is not shared, then down. -/
def relativeTo (cwd : List String) (p start : Path) : Path :=
  let d := dropShared (start.fold cwd) (p.fold cwd)
  ⟨.relative, d.1.map (fun _ => "..") ++ d.2⟩

def precedes (s t : String) : Bool := s.toList.lex t.toList fun c d => c.toNat.blt d.toNat

def le (a b : Path) : Bool :=
  !(b.anchor.text :: b.parts).lex (a.anchor.text :: a.parts) precedes

/-- The name of the user whose home directory a path starts from, empty for the user of the run. -/
def user? (p : Path) : Option String :=
  match p.anchor, p.parts with
  | .relative, part :: _ => Text.afterPrefix? "~" part
  | _, _ => none

@[simp] theorem fold_absolute (cwd parts : List String) (h : ".." ∉ parts) :
    (absolute parts).fold cwd = parts := by
  suffices ∀ above, parts.foldl descend above = above ++ parts by
    simpa [fold, absolute, isAbsolute] using this []
  induction parts with
  | nil => simp
  | cons a r ih =>
    intro above
    simp only [List.mem_cons, not_or] at h
    simp [descend, Ne.symm h.1, ih h.2]

private theorem foldl_descend_clean (parts above : List String) (h : ".." ∉ above) :
    ".." ∉ parts.foldl descend above := by
  induction parts generalizing above with
  | nil => exact h
  | cons a r ih =>
    apply ih
    unfold descend
    split
    · exact fun hm => h ((List.dropLast_sublist above).subset hm)
    · next hne => simp [h, Ne.symm hne]

theorem fold_clean (cwd : List String) (p : Path) (h : ".." ∉ cwd) : ".." ∉ p.fold cwd := by
  unfold fold
  apply foldl_descend_clean
  split
  · simp
  · exact h

theorem resolve_resolve (cwd : List String) (p : Path) (h : ".." ∉ cwd) :
    (p.resolve cwd).resolve cwd = p.resolve cwd := by
  simp [resolve, fold_absolute _ _ (fold_clean cwd p h)]

end Path
end Introspect
