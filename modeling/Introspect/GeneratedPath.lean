import Introspect.Path

/-! Where generated files lie, and which source file a generated file belongs to. -/
namespace Introspect.GeneratedPath

def registryExtension : String := ".reflregistry.json"

/-- The end of the name of the generated header of a file. -/
def headerExtension : String := ".reflgen.h"

/-- The end of the name of the generated source of a file. -/
def sourceExtension : String := ".reflgen.cpp"

/-- The end of the name of the generated header of a module. -/
def moduleHeaderExtension : String := ".reflmodule.h"

/-- The end of the name of the generated source of a module. -/
def moduleSourceExtension : String := ".reflmodule.cpp"

/-- Ends of the names of files that are no headers but have registries all the same. -/
def implementationExtensions : List String := [".cpp", ".cc", ".cxx"]

/-- The file generated for a source file: at the place under the output directory that the
source has under the module directory, with another extension. -/
def ofSource (cwd : List String) (source moduleDirectory output : Path) (extension : String) :
    Path :=
  let source := source.resolve cwd
  let place := source.parent.relativeTo cwd moduleDirectory
  ((output.join place).child (source.stem ++ extension)).resolve cwd

/-- The name of a generated file without its extension. An empty extension takes the whole
name. -/
def stemOf? (name extension : String) : Option String :=
  if extension.isEmpty then some "" else Text.beforeSuffix? extension name

/-- The files that a generated file may belong to, in the order of the extensions. -/
def candidates (cwd : List String) (generated moduleDirectory output : Path) (extension : String)
    (sourceExtensions : List String) : List Path :=
  let generated := generated.resolve cwd
  match stemOf? generated.name extension with
  | none => []
  | some stem =>
    let place := generated.parent.relativeTo cwd output
    sourceExtensions.map fun e =>
      ((moduleDirectory.join place).child (stem ++ e)).resolve cwd

/-- The file of another directory as seen from the module directory. -/
def includePath (cwd : List String) (source moduleDirectory : Path) : String :=
  (source.relativeTo cwd moduleDirectory).toString

end Introspect.GeneratedPath
