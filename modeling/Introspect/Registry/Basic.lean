import Introspect.Catalog
import Introspect.Failure
import Introspect.Record

/-! Registries: all records of one file or one module, each category keyed by qualified name,
with the numbers that stand for type names and function names. -/
namespace Introspect

/-- The records of a file or a module. `typeHolders` and `functionHolders` say which name a
number stands for. -/
structure Registry where
  hash : NameHash
  types : Catalog CppType.qualifiedName
  classes : Catalog ClassRecord.qualifiedName
  enums : Catalog EnumRecord.qualifiedName
  aliases : Catalog AliasRecord.qualifiedName
  functions : Catalog FunctionRecord.qualifiedName
  typeHolders : Table Int String
  functionHolders : Table Int String

namespace Registry

def empty (hash : NameHash) : Registry :=
  ⟨hash, .empty, .empty, .empty, .empty, .empty, .empty, .empty⟩

instance : Inhabited Registry := ⟨empty NameHash.crc32⟩

/-- Gives a name its number, unless the number already stands for another name. -/
def claim (hash : NameHash) (kind : NameKind) (holders : Table Int String) (name : String) :
    Except Failure (Table Int String) :=
  match holders.find? (hash name) with
  | none => .ok (holders.insert (hash name) name)
  | some holder =>
    if holder = name then .ok holders else .error (.collision kind ⟨holder, name, hash name⟩)

/-- Adds a type, replacing one of the same name. -/
def addType (r : Registry) (t : CppType) : Except Failure Registry := do
  let holders ← claim r.hash .type r.typeHolders t.qualifiedName
  return { r with types := r.types.insert t, typeHolders := holders }

/-- Adds a type unless one of its name is there. -/
def ensureType (r : Registry) (t : CppType) : Except Failure Registry :=
  if r.types.contains t.qualifiedName then .ok r else r.addType t

/-- Refuses names of one class that share a number. -/
def requireDistinct (r : Registry) (kind : NameKind) (names : List String) :
    Except Failure Unit :=
  match r.hash.collision? names with
  | none => .ok ()
  | some c => .error (.collision kind c)

/-- Adds a class and, where needed, its type. Neither two fields nor two methods may share a
number. -/
def addClass (r : Registry) (c : ClassRecord) : Except Failure Registry := do
  r.requireDistinct .field (c.fields.map (·.name))
  r.requireDistinct .method (c.methods.map (·.name))
  let r ← r.ensureType c.type
  return { r with classes := r.classes.insert c }

/-- Adds an enum and, where needed, its type. -/
def addEnum (r : Registry) (e : EnumRecord) : Except Failure Registry := do
  let r ← r.ensureType e.type
  return { r with enums := r.enums.insert e }

/-- Adds an alias and, where needed, its type. -/
def addAlias (r : Registry) (a : AliasRecord) : Except Failure Registry := do
  let r ← r.ensureType a.type
  return { r with aliases := r.aliases.insert a }

/-- Adds a function, replacing one of the same name. -/
def addFunction (r : Registry) (f : FunctionRecord) : Except Failure Registry := do
  let holders ← claim r.hash .function r.functionHolders f.qualifiedName
  return { r with functions := r.functions.insert f, functionHolders := holders }

end Registry
end Introspect
