import Introspect.FileTree

/-! Patterns for paths below a directory, and the paths in a file tree that fit them. -/
namespace Introspect

/-- One component of a pattern: every directory at or below, the entries whose names fit, or the
one entry of a name, where `..` leads back up. -/
inductive PathPattern.Part where
  | depths
  | like (pattern : String)
  | named (name : String)
deriving DecidableEq, Repr

/-- A pattern for paths. One that ends in a slash means directories only. -/
structure PathPattern where
  parts : List PathPattern.Part
  directoriesOnly : Bool
deriving DecidableEq, Repr

namespace PathPattern

/-- Two stars in a row, which stand for directories of any depth. -/
def depthMark : String := "**"

def isWild (part : String) : Bool :=
  part.toList.any fun c => c == '*' || c == '?' || c == '['

private def hasDepthMark (part : String) : Bool :=
  (Text.ends part.toList).any fun r => (Text.dropPrefix? depthMark.toList r).isSome

/-- The component that a text stands for. Two stars are no part of a longer one. -/
def Part.ofString? (part : String) : Option Part :=
  if part = depthMark then some .depths
  else if hasDepthMark part then none
  else if isWild part then some (.like part)
  else some (.named part)

def ofString? (s : String) : Option PathPattern := do
  let parts ← (Path.ofString s).parts.mapM Part.ofString?
  return ⟨parts, Text.endsWith "/" s⟩

end PathPattern

namespace FileTree
variable (t : FileTree) (cwd : List String)

/-- What is directly in a directory, by the paths that lead there. -/
def entries (directory : Path) : Except SystemFault (List Path) := do
  let place ← t.locate cwd directory
  return (t.nodes.keys.filter fun p => p.dropLast = place && p ≠ []).map fun p =>
    { directory with parts := directory.parts ++ p.drop place.length }

/-- A directory and every directory below it. -/
def directories (directory : Path) : Except SystemFault (List Path) := do
  let place ← t.locate cwd directory
  return (t.nodes.keys.filter fun p => place.isPrefixOf p && t.isDirectory p).map fun p =>
    { directory with parts := directory.parts ++ p.drop place.length }

/-- The paths that fit the rest of a pattern, below a directory that fits what is before. A
component that more follow leads to directories only. -/
def selectFrom (directoriesOnly : Bool) : List PathPattern.Part → Path →
    Except SystemFault (List Path)
  | [], p => .ok [p]
  | part :: rest, p => do
    let test : Node → Bool :=
      if directoriesOnly || !rest.isEmpty then (· == .directory) else fun _ => true
    let found ← match part with
      | .depths => t.directories cwd p
      | .like pattern => (t.entries cwd p).map (·.filter fun q => Text.fits pattern q.name)
      | .named name => .ok [{ p with parts := p.parts ++ [name] }]
    let found ← found.filterM (t.isThere test cwd)
    return (← found.mapM (selectFrom directoriesOnly rest)).flatten

/-- The paths below a directory, at any depth, that fit a pattern, each once. -/
def select (directory : Path) (pattern : PathPattern) : Except SystemFault (List Path) := do
  return (← t.selectFrom cwd pattern.directoriesOnly (.depths :: pattern.parts) directory).eraseDups

end FileTree
end Introspect
