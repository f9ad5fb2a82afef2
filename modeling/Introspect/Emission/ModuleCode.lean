import Introspect.Emission.FileCode

/-! The header and the source generated for a module, which register everything once. -/
namespace Introspect.Emission

def entryPoint (moduleName : String) : String := "RegisterModule_" ++ moduleName

/-- The classes that a module registers: reflected ones with a body marker inside the module
directory, generic templates left out. -/
def moduleClasses (cwd : List String) (r : Registry) (moduleDirectory : Path) :
    List ClassRecord :=
  (r.within cwd moduleDirectory).classes.filter fun c =>
    c.type.isInstantiable && c.metadata.isReflected && c.bodyLine.isPresent

/-- The enums that a module registers: reflected ones inside the module directory. -/
def moduleEnums (cwd : List String) (r : Registry) (moduleDirectory : Path) : List EnumRecord :=
  (r.within cwd moduleDirectory).enums.filter (·.metadata.isReflected)

/-- Texts in ascending order, each once. -/
def sortedOnce (l : List String) : List String :=
  l.eraseDups.mergeSort fun a b => decide (a ≤ b)

/-- The header and the source generated for a module. -/
def moduleCode (cwd : List String) (r : Registry) (moduleName : String)
    (moduleDirectory output : Path) : List GeneratedFile :=
  let classes := moduleClasses cwd r moduleDirectory
  let enums := moduleEnums cwd r moduleDirectory
  let files := classes.map (·.metadata.file) ++ enums.map (·.metadata.file)
  let paths := sortedOnce (files.map fun f => GeneratedPath.includePath cwd f moduleDirectory)
  let entry := "void " ++ entryPoint moduleName ++ "()"
  let header : List Code :=
    [.line "#pragma once", .blank, .scope runtimeNamespace [.line (entry ++ ";")]]
  let source : List Code :=
    .includes (moduleName ++ GeneratedPath.moduleHeaderExtension) false ::
      paths.map (fun p => .includes p false) ++
      [.blank,
        .scope runtimeNamespace [.braced entry
          (classes.map (fun c => .line ("GetReflectedClass<" ++ c.type.id.globalText ++ ">();")) ++
            enums.map fun e => .line ("GetReflectedEnum<" ++ e.type.id.globalText ++ ">();"))]]
  [⟨output.child (moduleName ++ GeneratedPath.moduleHeaderExtension), render header⟩,
    ⟨output.child (moduleName ++ GeneratedPath.moduleSourceExtension), render source⟩]

end Introspect.Emission
