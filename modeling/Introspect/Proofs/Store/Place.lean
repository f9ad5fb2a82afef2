import Mathlib.Data.List.TakeWhile
import Introspect.Proofs.GeneratedPath
import Introspect.Store.Collect

/-! Where the registry files of a module lie: those of its sources, and its own. -/
namespace Introspect

/-! ## Names with directories in front -/

namespace Path

/-- What a text has up to its last slash. -/
def front (s : String) : String := String.ofList (s.toList.reverse.dropWhile (· != '/')).reverse

/-- What a text has behind its last slash. -/
def base (s : String) : String := String.ofList (s.toList.reverse.takeWhile (· != '/')).reverse

theorem front_append_base (s : String) : front s ++ base s = s := by
  apply String.toList_inj.1
  rw [String.toList_append, front, base, String.toList_ofList, String.toList_ofList,
    ← List.reverse_append, List.takeWhile_append_dropWhile, List.reverse_reverse]

theorem slash_base (s : String) : '/' ∉ (base s).toList := by
  rw [base, String.toList_ofList, List.mem_reverse]
  intro h
  simpa using List.mem_takeWhile_imp h

theorem front_of_single {s : String} (h : '/' ∉ s.toList) : front s = "" := by
  have hdrop : s.toList.reverse.dropWhile (· != '/') = [] := by
    rw [List.dropWhile_eq_nil_iff]
    intro c hc
    simp only [bne_iff_ne]
    rintro rfl
    exact h (List.mem_reverse.1 hc)
  rw [front, hdrop]
  rfl

theorem base_of_single {s : String} (h : '/' ∉ s.toList) : base s = s := by
  have hboth := front_append_base s
  rwa [front_of_single h, String.empty_append] at hboth

/-- Up to its last slash a text ends in it, or has nothing. -/
private theorem front_cases (s : String) : front s = "" ∨ ∃ f, (front s).toList = f ++ ['/'] := by
  cases hdrop : s.toList.reverse.dropWhile (· != '/') with
  | nil =>
    refine .inl ?_
    rw [front, hdrop]
    rfl
  | cons c r =>
    have hne : s.toList.reverse.dropWhile (· != '/') ≠ [] := by simp [hdrop]
    have hc : c = '/' := by simpa [hdrop] using List.head_dropWhile_not _ hne
    refine .inr ⟨r.reverse, ?_⟩
    rw [front, hdrop, hc, String.toList_ofList, List.reverse_cons]

private theorem anchorOf_front_append (s : String) {name : String} (hname : IsName name) :
    anchorOf ((front s).toList ++ name.toList) = anchorOf (front s).toList := by
  have hstop : name.toList.takeWhile (· == '/') = [] := by
    rw [List.takeWhile_eq_nil_iff]
    intro hpos hslash
    simp only [beq_iff_eq] at hslash
    exact hname.single (hslash ▸ List.getElem_mem hpos)
  have hfront : ((front s).toList ++ name.toList).takeWhile (· == '/') =
      (front s).toList.takeWhile (· == '/') := by
    rw [List.takeWhile_append, hstop]
    split
    · next hlength =>
      rw [List.append_nil]
      exact (((List.takeWhile_prefix _).eq_of_length hlength)).symm
    · rfl
  rw [anchorOf, hfront, anchorOf]

/-- A name behind a last slash is the last component. -/
theorem ofString_front_append (s : String) {name : String} (hname : IsName name) :
    ofString (front s ++ name) = (ofString (front s)).onward [name] := by
  have hsingle : name.toList.splitOn '/' = [name.toList] := List.splitOn_eq_singleton hname.single
  have hkept : [name].filter (fun p => p ≠ "" && p ≠ ".") = [name] := by
    simp [hname.nonempty, hname.here]
  have hparts : (Text.pieces '/' (front s ++ name)).filter (fun p => p ≠ "" && p ≠ ".") =
      (Text.pieces '/' (front s)).filter (fun p => p ≠ "" && p ≠ ".") ++ [name] := by
    rw [Text.pieces, Text.pieces, String.toList_append]
    rcases front_cases s with hempty | ⟨f, hf⟩
    · rw [hempty]
      simpa [hsingle] using hkept
    · rw [hf, List.append_assoc, List.singleton_append, List.splitOn_append_cons_self,
        List.splitOn_append_cons_self, hsingle, List.splitOn_nil]
      simpa using hkept
  rw [ofString, ofString, onward, String.toList_append, anchorOf_front_append s hname, hparts]

end Path

/-! ## Registry files -/

namespace Store
variable {cwd : List String} {source source' moduleDirectory output : Path} {moduleName : String}
  {place place' : List String} {name name' : String}

/-- Where the registry of a source is. -/
def registryPath (cwd : List String) (moduleDirectory output source : Path) : Path :=
  GeneratedPath.ofSource cwd source moduleDirectory output GeneratedPath.registryExtension

/-- The source is a file of the module: it has a name in a directory that lies some way below the
module directory. -/
structure Lies (cwd : List String) (moduleDirectory source : Path) (place : List String)
    (name : String) : Prop where
  fold : source.fold cwd = moduleDirectory.fold cwd ++ (place ++ [name])
  names : ∀ s ∈ place ++ [name], Path.IsName s

theorem slash_registryExtension : '/' ∉ GeneratedPath.registryExtension.toList := by decide

theorem length_registryExtension : 2 < GeneratedPath.registryExtension.toList.length := by decide

theorem registryPath_eq (hdown : ".." ∉ moduleDirectory.fold cwd)
    (h : Lies cwd moduleDirectory source place name) :
    registryPath cwd moduleDirectory output source = .absolute (output.fold cwd ++
      (place ++ [Path.stemOf name ++ GeneratedPath.registryExtension])) :=
  GeneratedPath.ofSource_below hdown h.fold h.names slash_registryExtension
    length_registryExtension

theorem isName_registry {stem : String} (hstem : '/' ∉ stem.toList) :
    Path.IsName (stem ++ GeneratedPath.registryExtension) :=
  GeneratedPath.isName_append hstem slash_registryExtension length_registryExtension

theorem straight_registryPath (hcwd : ∀ s ∈ cwd, Path.IsName s) (houtput : output.Clean)
    (hdown : ".." ∉ moduleDirectory.fold cwd) (h : Lies cwd moduleDirectory source place name) :
    (registryPath cwd moduleDirectory output source).Straight := by
  rw [registryPath_eq hdown h]
  refine ⟨rfl, fun s hs => ?_⟩
  rcases List.mem_append.1 hs with hs | hs
  · exact (houtput.straight hcwd).names s hs
  · rcases List.mem_append.1 hs with hs | hs
    · exact h.names s (by simp [hs])
    · obtain rfl := List.mem_singleton.1 hs
      exact isName_registry (Path.slash_stemOf (h.names name (by simp)).single)

theorem fold_child_append (cwd : List String) (output : Path) (moduleName : String)
    {extension : String} (hslash : '/' ∉ extension.toList) (hlong : 2 < extension.toList.length) :
    (output.child (moduleName ++ extension)).fold cwd =
      (output.child (Path.front moduleName)).fold cwd ++ [Path.base moduleName ++ extension] := by
  have hname := GeneratedPath.isName_append (Path.slash_base moduleName) hslash hlong
  have htext : moduleName ++ extension =
      Path.front moduleName ++ (Path.base moduleName ++ extension) := by
    rw [← String.append_assoc, Path.front_append_base]
  have honward : ∀ p q : Path, p.join (q.onward [Path.base moduleName ++ extension]) =
      (p.join q).onward [Path.base moduleName ++ extension] := by
    intro p q
    have habsolute : (q.onward [Path.base moduleName ++ extension]).isAbsolute =
      q.isAbsolute := rfl
    simp only [Path.join, habsolute]
    split
    · rfl
    · simp [Path.onward]
  rw [Path.child, htext, Path.ofString_front_append _ hname, honward,
    Path.fold_onward cwd _ hname.up]
  rfl

/-- The registry of the module has the name behind the last slash of the module's name, in the
directory that what is before leads to from the output directory. -/
theorem fold_aggregatePath (cwd : List String) (moduleName : String) (output : Path) :
    (aggregatePath moduleName output).fold cwd =
      (output.child (Path.front moduleName)).fold cwd ++
        [Path.base moduleName ++ GeneratedPath.registryExtension] :=
  fold_child_append cwd output moduleName slash_registryExtension length_registryExtension

end Store
end Introspect
