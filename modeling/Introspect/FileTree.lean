import Introspect.Failure
import Introspect.Table
import Introspect.Text.Wildcard

/-! A tree of files and directories as a value. Places are given by their components from the
top. -/
namespace Introspect

/-- What is at a place. -/
inductive Node where
  | file (text : String)
  | directory
deriving DecidableEq, Repr

/-- The places in use. -/
structure FileTree where
  nodes : Table (List String) Node

namespace FileTree
variable (t : FileTree)

def empty : FileTree := ⟨Table.empty.insert [] .directory⟩

instance : Inhabited FileTree := ⟨empty⟩

/-- What is at a place, if anything. -/
def find? (place : List String) : Option Node := t.nodes.find? place

def isDirectory (place : List String) : Bool := t.find? place == some .directory

def text? (place : List String) : Option String :=
  match t.find? place with
  | some (.file s) => some s
  | _ => none

/-- Every place above another one, the top first. -/
def above (place : List String) : List (List String) :=
  (List.range place.length).map fun n => place.take n

/-- How many bytes the name of an entry may have. -/
def nameLimit : Nat := 255

/-- How many bytes a path may have. -/
def pathLimit : Nat := 4095

/-- Where the rest of a path leads from a place. Every component is looked up in a directory that
is there; what the last one leads to need not be. -/
def follow (path : Path) : List String → List String → Except SystemFault (List String)
  | place, [] => .ok place
  | place, part :: rest =>
    match t.find? place with
    | none => .error (.notFound path)
    | some (.file _) => .error (.notDirectory path)
    | some .directory =>
      if nameLimit < part.utf8ByteSize then .error (.nameTooLong path)
      else follow path (Path.descend place part) rest

def locate (cwd : List String) (path : Path) : Except SystemFault (List String) :=
  if pathLimit < path.toString.utf8ByteSize then .error (.nameTooLong path)
  else t.follow path (if path.isAbsolute then [] else cwd) path.parts

def lookUp (cwd : List String) (path : Path) : Except SystemFault Node := do
  match t.find? (← t.locate cwd path) with
  | some n => .ok n
  | none => .error (.notFound path)

/-- Whether what is at a path passes a test. Nothing passes one, but a path that is too long has
no answer. -/
def isThere (test : Node → Bool) (cwd : List String) (path : Path) : Except SystemFault Bool :=
  match t.lookUp cwd path with
  | .ok n => .ok (test n)
  | .error (.nameTooLong p) => .error (.nameTooLong p)
  | .error _ => .ok false

def read (cwd : List String) (path : Path) : Except SystemFault String := do
  match ← t.lookUp cwd path with
  | .file s => .ok s
  | .directory => .error (.isDirectory path)

/-- Puts a text into a file, which is created when its directory is there. -/
def write (cwd : List String) (path : Path) (text : String) : Except SystemFault FileTree := do
  let place ← t.locate cwd path
  if t.isDirectory place then .error (.isDirectory path)
  else .ok ⟨t.nodes.insert place (.file text)⟩

/-- Creates a directory in one that is there, unless it is there itself. -/
def ensureDirectory (cwd : List String) (path : Path) : Except SystemFault FileTree := do
  let place ← t.locate cwd path
  match t.find? place with
  | some .directory => .ok t
  | some (.file _) => .error (.exists path)
  | none => .ok ⟨t.nodes.insert place .directory⟩

/-- Creates a directory and all missing ones above it. Those made before a fault stay. -/
def makeDirectory (t : FileTree) (cwd : List String) (path : Path) :
    FileTree × Option SystemFault :=
  match t.ensureDirectory cwd path with
  | .ok t => (t, none)
  | .error (.notFound p) =>
    if _ : path.parts = [] then (t, some (.notFound p))
    else
      match makeDirectory t cwd path.parent with
      | (t, some fault) => (t, some fault)
      | (t, none) =>
        match t.ensureDirectory cwd path with
        | .ok t => (t, none)
        | .error fault => (t, some fault)
  | .error fault => (t, some fault)
termination_by path.parts.length
decreasing_by
  have := List.length_pos_iff.2 ‹¬path.parts = []›
  simp only [Path.parent, List.length_dropLast]
  omega

/-- Removes a file. There need not be one. -/
def remove (cwd : List String) (path : Path) : Except SystemFault FileTree :=
  match t.locate cwd path with
  | .error (.notFound _) => .ok t
  | .error fault => .error fault
  | .ok place =>
    if t.isDirectory place then .error (.isDirectory path) else .ok ⟨t.nodes.erase place⟩

/-- Removes whatever is at a place, with everything below it. -/
def prune (place : List String) : FileTree :=
  ⟨(t.nodes.entries.filter fun e => place.isPrefixOf e.1).foldl (fun n e => n.erase e.1) t.nodes⟩

/-- The places strictly below a directory. -/
def below (place : List String) : List (List String) :=
  if t.isDirectory place then
    t.nodes.keys.filter fun p => place.isPrefixOf p && place.length < p.length
  else []

/-- The places strictly below a directory whose names fit a pattern. -/
def search (place : List String) (pattern : String) : List (List String) :=
  (t.below place).filter fun p => Text.fits pattern (p.getLast?.getD "")

/-- Removes the empty files among some places. -/
def removeEmptyFiles (places : List (List String)) : FileTree :=
  places.foldl (fun t p => if t.text? p == some "" then ⟨t.nodes.erase p⟩ else t) t

/-- Removes a directory when nothing is in it. -/
def removeIfEmpty (place : List String) : FileTree :=
  if t.isDirectory place && (t.below place).isEmpty then ⟨t.nodes.erase place⟩ else t

/-- Removes every directory strictly below a place that has nothing in it, or nothing but such
directories. The deepest come first. -/
def removeEmptyDirectories (place : List String) : FileTree :=
  let directories := (t.below place).filter t.isDirectory
  (directories.mergeSort fun a b => decide (b.length ≤ a.length)).foldl removeIfEmpty t

end FileTree
end Introspect
