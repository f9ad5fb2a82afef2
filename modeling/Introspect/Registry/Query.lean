import Introspect.Registry.Basic

/-! Questions to a registry: bases and ancestors of classes, what aliases stand for, and the
records of a directory or a file. -/
namespace Introspect

/-- Records picked from a registry, in its order. -/
structure Selection where
  classes : List ClassRecord
  enums : List EnumRecord
  aliases : List AliasRecord
  functions : List FunctionRecord

def Selection.any (s : Selection) : Bool :=
  !(s.classes.isEmpty && s.enums.isEmpty && s.aliases.isEmpty && s.functions.isEmpty)

namespace Registry

/-- The registered direct bases of a class in declaration order. -/
def directBases (r : Registry) (c : ClassRecord) : List ClassRecord :=
  c.baseNames.filterMap r.classes.find?

/-- Whether every base of a class can be looked up. -/
def hasKeys (c : ClassRecord) : Bool := c.bases.all fun b => b.toJson.isKey

/-- The classes of a stack and everything above them, depth first, without those seen. -/
def ancestorsFrom (r : Registry) : Nat → List String → List ClassRecord → List ClassRecord
  | 0, _, _ => []
  | _, _, [] => []
  | n + 1, seen, c :: stack =>
    if c.qualifiedName ∈ seen then ancestorsFrom r n seen stack
    else c :: ancestorsFrom r n (c.qualifiedName :: seen) (r.directBases c ++ stack)

/-- The number of base links of all registered classes. -/
def linkCount (r : Registry) : Nat :=
  r.classes.items.foldl (fun n c => n + c.baseNames.length) 0

/-- All registered ancestors of a class, depth first in declaration order, each once. Every base
link is followed at most once from a registered class and once from `c` itself. -/
def ancestors (r : Registry) (c : ClassRecord) : List ClassRecord :=
  r.ancestorsFrom (r.linkCount + c.baseNames.length + 1) [c.qualifiedName] (r.directBases c)

/-- The registered direct bases of a class, or all its ancestors, when every base on the way can
be looked up. -/
def askBases (r : Registry) (c : ClassRecord) (recursive : Bool) :
    Except Failure (List ClassRecord) :=
  let above := if recursive then r.ancestors c else []
  if (c :: above).all hasKeys then .ok (if recursive then above else r.directBases c)
  else .error .wrongShape

/-- Follows aliases of aliases until `answer` knows one. A name met before ends the search. -/
def followFrom {α : Type} (r : Registry) (answer : AliasRecord → Option α) :
    Nat → List String → AliasRecord → Option α
  | 0, _, _ => none
  | n + 1, seen, a =>
    if a.qualifiedName ∈ seen then none
    else match answer a with
      | some x => some x
      | none =>
        match r.aliases.find? a.target.qualifiedName with
        | none => none
        | some b => followFrom r answer n (a.qualifiedName :: seen) b

/-- Follows aliases of aliases from `a` on. No more aliases can be met than are registered,
besides `a` itself. -/
def follow {α : Type} (r : Registry) (answer : AliasRecord → Option α) (a : AliasRecord) :
    Option α :=
  r.followFrom answer (r.aliases.size + 1) [] a

/-- The class that an alias stands for in the end. -/
def underlyingClass (r : Registry) (a : AliasRecord) : Option ClassRecord :=
  r.follow (fun b => b.className?.bind r.classes.find?) a

/-- The enum that an alias stands for in the end. -/
def underlyingEnum (r : Registry) (a : AliasRecord) : Option EnumRecord :=
  r.follow (fun b => b.enumName?.bind r.enums.find?) a

/-- What an alias stands for in the end by `target`, when every target on the way can be looked
up. -/
def askTarget {α : Type} (r : Registry) (target : AliasRecord → Given (Option String))
    (find : String → Option α) (a : AliasRecord) : Except Failure (Option α) :=
  let answer (b : AliasRecord) : Option (Except Failure α) :=
    let g := target b
    if g.toJson.isKey then (g.proper?.join.bind find).map .ok else some (.error .wrongShape)
  match r.follow answer a with
  | none => .ok none
  | some (.ok x) => .ok (some x)
  | some (.error e) => .error e

/-- The records whose metadata satisfies a test. -/
def select (r : Registry) (keep : Metadata → Bool) : Selection :=
  ⟨r.classes.items.filter (keep ·.metadata), r.enums.items.filter (keep ·.metadata),
    r.aliases.items.filter (keep ·.metadata), r.functions.items.filter (keep ·.metadata)⟩

/-- The records declared at or below a directory. -/
def within (r : Registry) (cwd : List String) (directory : Path) : Selection :=
  r.select fun m => m.file.isWithin cwd directory

/-- The records declared in a file; with `reflectedOnly`, only those marked for reflection. -/
def inFile (r : Registry) (cwd : List String) (file : Path) (reflectedOnly : Bool) :
    Selection :=
  r.select fun m => (!reflectedOnly || m.isReflected) && m.file.sameAs cwd file

/-- The records declared in a file, unless paths that the system cannot know had to be compared. -/
def askFile (r : Registry) (cwd : List String) (file : Path) (reflectedOnly : Bool) :
    Except Failure Selection :=
  let unknown := r.select fun m =>
    (!reflectedOnly || m.isReflected) && (file.hasNull || m.file.hasNull)
  if unknown.any then .error .nullByte else .ok (r.inFile cwd file reflectedOnly)

end Registry
end Introspect
