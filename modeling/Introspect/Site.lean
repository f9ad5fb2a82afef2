import Introspect.Failure

/-! The surroundings of a run that paths depend on. -/
namespace Introspect

/-- The working directory, by its components, the home directory, and those of the known users. -/
structure Site where
  cwd : List String
  home : Path
  accounts : List (String × Path)
deriving DecidableEq

namespace Site

/-- The home directories in a list of users, which has a line for each: the name is its first
field, and the directory its sixth. -/
def accountsOf (users : String) : List (String × Path) :=
  (Text.pieces '\n' users).filterMap fun line =>
    match Text.pieces ':' line with
    | name :: _ :: _ :: _ :: _ :: home :: _ => some (name, Path.ofString home)
    | _ => none

/-- The home directory of a user, who is the one of the run if the name is empty. -/
def homeOf (s : Site) (user : String) : Except Failure Path :=
  if user.isEmpty then .ok s.home
  else if user.toList.contains '\x00' then .error .nullByte
  else match s.accounts.find? fun a => a.1 == user with
    | some a => .ok a.2
    | none => .error .unknownUser

/-- A path that starts at a home directory, from the top of the file system. -/
def expand (s : Site) (p : Path) : Except Failure Path :=
  match p.user? with
  | none => .ok p
  | some user => (s.homeOf user).map fun home => { home with parts := home.parts ++ p.parts.drop 1 }

/-- A path from the top of the file system, with a leading `~` taken for a home directory. -/
def settle (s : Site) (p : Path) : Except Failure Path := do
  let p ← s.expand p
  p.requireKnown
  return p.resolve s.cwd

end Site
end Introspect
