import Introspect.Proofs.Pass.Frame
import Introspect.Proofs.Store.Find

/-! Which files of a module share a registry file, and what the passes over them do to it. -/
namespace Introspect.Pass
open FileTree Job Store

variable {s : Settings} {w w' : Workspace} {cwd : List String} {source source' : Path}
  {place place' : List String} {name name' : String}

/-- Where the registry of the module is. -/
def aggregate (s : Settings) (cwd : List String) : Path :=
  (aggregatePath s.moduleName s.outputDirectory).resolve cwd

/-- Each of two sources has a registry file of its own, which is not that of the module. -/
structure Separate (s : Settings) (cwd : List String) (source source' : Path) : Prop where
  each : registryPath cwd s.moduleDirectory s.outputDirectory source ≠
    registryPath cwd s.moduleDirectory s.outputDirectory source'
  first : registryPath cwd s.moduleDirectory s.outputDirectory source ≠ aggregate s cwd
  second : registryPath cwd s.moduleDirectory s.outputDirectory source' ≠ aggregate s cwd

/-- A file of the module is called like the module: its name has the stem of the module's, and the
module's name leads from the output directory to the directory of what is generated for it. -/
def Namesake (s : Settings) (cwd : List String) (place : List String) (name : String) : Prop :=
  s.outputDirectory.fold cwd ++ place =
      (s.outputDirectory.child (Path.front s.moduleName)).fold cwd ∧
    Path.stemOf name = Path.base s.moduleName

/-- A file is called like a module whose name leads nowhere if its stem is that name and it lies in
the module directory itself. -/
theorem namesake_iff (hname : '/' ∉ s.moduleName.toList) :
    Namesake s cwd place name ↔ place = [] ∧ Path.stemOf name = s.moduleName := by
  have hchild : s.outputDirectory.child "" = s.outputDirectory := by
    simp [Path.child, Path.join, Path.ofString, Text.pieces, Path.isAbsolute, Path.anchorOf]
  rw [Namesake, Path.front_of_single hname, Path.base_of_single hname, hchild]
  simp

private theorem concat_inj {a b : List String} {x y : String} (h : a ++ [x] = b ++ [y]) :
    a = b ∧ x = y :=
  (List.append_inj' h rfl).imp_right List.singleton_inj.1

theorem registryPath_eq_iff (hdown : ".." ∉ s.moduleDirectory.fold cwd)
    (h : Lies cwd s.moduleDirectory source place name)
    (h' : Lies cwd s.moduleDirectory source' place' name') :
    registryPath cwd s.moduleDirectory s.outputDirectory source =
        registryPath cwd s.moduleDirectory s.outputDirectory source' ↔
      place = place' ∧ Path.stemOf name = Path.stemOf name' := by
  rw [registryPath_eq hdown h, registryPath_eq hdown h', Path.absolute, Path.absolute,
    Path.mk.injEq, List.append_cancel_left_eq]
  simp only [true_and]
  constructor
  · intro he
    obtain ⟨hplace, hname⟩ := concat_inj he
    exact ⟨hplace, String.append_left_inj _ |>.1 hname⟩
  · rintro ⟨rfl, hstem⟩
    rw [hstem]

theorem registryPath_eq_aggregate_iff (hdown : ".." ∉ s.moduleDirectory.fold cwd)
    (h : Lies cwd s.moduleDirectory source place name) :
    registryPath cwd s.moduleDirectory s.outputDirectory source = aggregate s cwd ↔
      Namesake s cwd place name := by
  rw [registryPath_eq hdown h, aggregate, Path.resolve, fold_aggregatePath, Path.absolute,
    Path.absolute, Path.mk.injEq, ← List.append_assoc]
  simp only [true_and]
  constructor
  · intro he
    obtain ⟨hplace, hname⟩ := concat_inj he
    exact ⟨hplace, String.append_left_inj _ |>.1 hname⟩
  · rintro ⟨hplace, hstem⟩
    rw [hplace, hstem]

/-! ## Passes -/

/-- Wherever a pass over one source ends, what is in the registry file of another stays there. -/
def Spares (s : Settings) (w : Workspace) (source source' : Path) : Prop :=
  ∀ hash frontEnd w', EndsIn (reflectFile s hash frontEnd source) w w' → ∀ text,
    w.tree.find? (registryPath w.site.cwd s.moduleDirectory s.outputDirectory source').parts =
        some (.file text) →
      w'.tree.find? (registryPath w.site.cwd s.moduleDirectory s.outputDirectory source').parts =
        some (.file text)

/-- When a pass over one source succeeds, its registry is in the registry file of another. -/
def Supplants (s : Settings) (w : Workspace) (source source' : Path) : Prop :=
  ∀ hash frontEnd r w', (reflectFile s hash frontEnd source).run w = .ok r w' →
    w'.tree.find? (registryPath w.site.cwd s.moduleDirectory s.outputDirectory source').parts =
      some (.file (Document.toText r (some indentation)))

/-- A collection comes upon the registry file of a source, if there is one, and does not take it for
that of the module. -/
def Sees (s : Settings) (w : Workspace) (source : Path) : Prop :=
  w.tree.find? (registryPath w.site.cwd s.moduleDirectory s.outputDirectory source).parts ≠ none →
    ∀ files v, (find s.outputDirectory).run w = .ok files v →
      registryPath w.site.cwd s.moduleDirectory s.outputDirectory source ∈ files ∧
        (registryPath w.site.cwd s.moduleDirectory s.outputDirectory source).sameAs w.site.cwd
          (aggregatePath s.moduleName s.outputDirectory) = false

/-- A collection passes over the registry file of a source. -/
def PassesOver (s : Settings) (w : Workspace) (source : Path) : Prop :=
  ∀ hash strict r, (collectFile ⟨s.moduleName, s.moduleDirectory, s.outputDirectory,
    s.sourceExtensions, hash, strict⟩ r (registryPath w.site.cwd s.moduleDirectory
      s.outputDirectory source)).run w = .ok r w

private theorem not_suffix_registry {stem e : String}
    (he : e = GeneratedPath.headerExtension ∨ e = GeneratedPath.sourceExtension) :
    ¬ e.toList <:+ (stem ++ GeneratedPath.registryExtension).toList := by
  intro hsuffix
  rw [String.toList_append] at hsuffix
  have hshort : e.toList.length ≤ GeneratedPath.registryExtension.toList.length := by
    rcases he with rfl | rfl <;> decide
  have hends := List.suffix_of_suffix_length_le hsuffix (List.suffix_append _ _) hshort
  revert hends
  rcases he with rfl | rfl <;> decide

private theorem registryPath_not_mem_outputs (hdown : ".." ∉ s.moduleDirectory.fold cwd)
    (h : Lies cwd s.moduleDirectory source place name)
    (h' : Lies cwd s.moduleDirectory source' place' name')
    (hne : registryPath cwd s.moduleDirectory s.outputDirectory source ≠
      registryPath cwd s.moduleDirectory s.outputDirectory source') :
    (registryPath cwd s.moduleDirectory s.outputDirectory source').parts ∉
      outputs s cwd source := by
  intro hmem
  have hother : ∀ e : String, e = GeneratedPath.headerExtension ∨
      e = GeneratedPath.sourceExtension → '/' ∉ e.toList → 2 < e.toList.length →
      Pass.place s cwd source e ≠
        (registryPath cwd s.moduleDirectory s.outputDirectory source').parts := by
    intro e he hslash hlength hplace
    rw [Pass.place, GeneratedPath.ofSource_below hdown h.fold h.names hslash hlength,
      registryPath_eq hdown h'] at hplace
    have hlast : place ++ [Path.stemOf name ++ e] =
        place' ++ [Path.stemOf name' ++ GeneratedPath.registryExtension] :=
      List.append_cancel_left hplace
    have hname := (concat_inj hlast).2
    have hends : e.toList <:+ (Path.stemOf name' ++ GeneratedPath.registryExtension).toList := by
      rw [← hname, String.toList_append]
      exact List.suffix_append _ _
    exact not_suffix_registry he hends
  simp only [outputs, List.map_cons, List.map_nil, List.mem_cons, List.not_mem_nil,
    or_false] at hmem
  rcases hmem with hheader | hsource | hregistry
  · exact hother _ (.inl rfl) (by decide) (by decide) hheader.symm
  · exact hother _ (.inr rfl) (by decide) (by decide) hsource.symm
  · have hparts : (registryPath cwd s.moduleDirectory s.outputDirectory source').parts =
        (registryPath cwd s.moduleDirectory s.outputDirectory source).parts := hregistry
    rw [registryPath_eq hdown h, registryPath_eq hdown h'] at hparts hne
    exact hne (congrArg Path.absolute hparts.symm)

private theorem not_expendable (hdown : ".." ∉ s.moduleDirectory.fold cwd)
    (h : Lies cwd s.moduleDirectory source place name) :
    ¬ Expendable s (registryPath cwd s.moduleDirectory s.outputDirectory source).parts := by
  rintro ⟨-, e, he, hsuffix⟩
  rw [registryPath_eq hdown h, Path.absolute, ← List.append_assoc, List.getLast?_concat,
    Option.getD_some] at hsuffix
  exact not_suffix_registry ((mem_expendable.1 he).imp And.left And.left) hsuffix

theorem spares_of_ne (hs : s.Resolved) (hw : w.WellFormed) (hsource : source.Clean)
    (h : Lies w.site.cwd s.moduleDirectory source place name)
    (h' : Lies w.site.cwd s.moduleDirectory source' place' name')
    (hne : registryPath w.site.cwd s.moduleDirectory s.outputDirectory source ≠
      registryPath w.site.cwd s.moduleDirectory s.outputDirectory source') :
    Spares s w source source' := by
  intro hash frontEnd w' hends text htext
  have hdown : ".." ∉ s.moduleDirectory.fold w.site.cwd := Path.fold_clean _ _ (up_cwd hw)
  have hchange := change_of_endsIn hs hw hsource hends
    (registryPath_not_mem_outputs hdown h h' hne)
  cases hchange with
  | kept same => rw [same, htext]
  | placeholder header meets place before after =>
    rw [htext] at before
    cases before
  | swept expendable before after => exact absurd expendable (not_expendable hdown h')
  | made leads before after =>
    rw [htext] at before
    cases before
  | cleared below before after bare =>
    rw [htext] at before
    cases before

theorem supplants_of_eq (hs : s.Resolved) (hw : w.WellFormed) (hsource : source.Clean)
    (h : Lies w.site.cwd s.moduleDirectory source place name)
    (heq : registryPath w.site.cwd s.moduleDirectory s.outputDirectory source =
      registryPath w.site.cwd s.moduleDirectory s.outputDirectory source') :
    Supplants s w source source' := by
  intro hash frontEnd r w' hrun
  have hdown : ".." ∉ s.moduleDirectory.fold w.site.cwd := Path.fold_clean _ _ (up_cwd hw)
  rw [← heq]
  obtain ⟨t₁, t₂, t₃, -, -, -, -, hfiled, hturns, -⟩ :=
    stages_of_reflectFile hs hw hsource covers_meets hrun
  have hmem : (Pass.place s w.site.cwd (source.resolve w.site.cwd) GeneratedPath.registryExtension,
      Document.toText r (some indentation)) ∈
        files s w.site.cwd (source.resolve w.site.cwd) r := List.mem_cons_self ..
  have hplace : Pass.place s w.site.cwd source GeneratedPath.registryExtension =
      (registryPath w.site.cwd s.moduleDirectory s.outputDirectory source).parts := rfl
  have hfile := hfiled.text _ hmem
  dsimp only at hfile
  rw [place_resolve hw, hplace] at hfile
  rcases hturns.tree.change
    (registryPath w.site.cwd s.moduleDirectory s.outputDirectory source).parts with
    hsame | ⟨hexpendable, -⟩ | ⟨-, hdirectory, -⟩
  · exact hsame.trans hfile
  · exact absurd hexpendable (not_expendable hdown h)
  · have hboth := hdirectory.symm.trans hfile
    cases hboth

theorem sees_of_ne (hs : s.Resolved) (hw : w.WellFormed)
    (h : Lies w.site.cwd s.moduleDirectory source place name)
    (hne : registryPath w.site.cwd s.moduleDirectory s.outputDirectory source ≠
      aggregate s w.site.cwd) : Sees s w source := by
  have hdown : ".." ∉ s.moduleDirectory.fold w.site.cwd := Path.fold_clean _ _ (up_cwd hw)
  intro hfound files v hrun
  obtain ⟨-, hfinds, hknown⟩ := find_ok hw.tree hrun
  have hstraight := straight_registryPath hw.names hs.outputDirectory.clean hdown h
  refine ⟨?_, hstraight.sameAs_eq_false_iff.2 hne⟩
  rw [registryPath_eq hdown h] at hfound ⊢
  have hdirectory : w.tree.find? s.outputDirectory.parts = some .directory := by
    rw [← hs.outputDirectory.fold w.site.cwd]
    exact hw.tree.above hfound (List.prefix_append _ _) (by simp [Path.absolute])
  have hregistry : IsRegistry w.tree w.site.cwd s.outputDirectory
      (s.outputDirectory.fold w.site.cwd ++ (place ++ [Path.stemOf name ++
        GeneratedPath.registryExtension])) :=
    ⟨isThere_of_directory hw.tree hs.outputDirectory hdirectory hknown, hfound, _, _, rfl⟩
  refine (hfinds.mem _).2 ⟨_, hregistry, ?_⟩
  rw [beneath_straight hs.outputDirectory]
  rw [hs.outputDirectory.fold]
  exact List.prefix_append _ _

theorem passesOver_of_eq (hw : w.WellFormed)
    (heq : registryPath w.site.cwd s.moduleDirectory s.outputDirectory source =
      aggregate s w.site.cwd) : PassesOver s w source := by
  intro hash strict r
  have hsame : (aggregate s w.site.cwd).sameAs w.site.cwd
      (aggregatePath s.moduleName s.outputDirectory) = true := by
    have hresolve := congrArg Path.parts (Path.resolve_resolve w.site.cwd
      (aggregatePath s.moduleName s.outputDirectory) (up_cwd hw))
    rw [Path.sameAs, beq_iff_eq]
    exact hresolve
  rw [heq, collectFile, run_bind_of_ok run_cwd, if_pos hsame]
  rfl

/-- Two files of a module have registry files of their own unless they share directory and stem or
one of them is called like the module. Then no pass over one touches the registry of the other, and
a collection sees both. Two that share a registry file supplant each other in it, and the registry
of a file that is called like the module is passed over. -/
theorem separate_iff (hw : w.WellFormed) (hsource : source.Clean) (hsource' : source'.Clean)
    (h : Lies w.site.cwd s.moduleDirectory source place name)
    (h' : Lies w.site.cwd s.moduleDirectory source' place' name') :
    (Separate s w.site.cwd source source' ↔
      ¬ (place = place' ∧ Path.stemOf name = Path.stemOf name') ∧
        ¬ Namesake s w.site.cwd place name ∧ ¬ Namesake s w.site.cwd place' name') ∧
    (s.Resolved → Separate s w.site.cwd source source' →
      Spares s w source source' ∧ Spares s w source' source ∧ Sees s w source ∧
        Sees s w source') ∧
    (s.Resolved → place = place' → Path.stemOf name = Path.stemOf name' →
      Supplants s w source source' ∧ Supplants s w source' source) ∧
    (Namesake s w.site.cwd place name → PassesOver s w source) := by
  have hdown : ".." ∉ s.moduleDirectory.fold w.site.cwd := Path.fold_clean _ _ (up_cwd hw)
  refine ⟨?_, fun hs hseparate => ?_, fun hs hplace hstem => ?_, fun hnamesake => ?_⟩
  · rw [← registryPath_eq_iff hdown h h', ← registryPath_eq_aggregate_iff hdown h,
      ← registryPath_eq_aggregate_iff hdown h']
    exact ⟨fun hseparate => ⟨hseparate.each, hseparate.first, hseparate.second⟩,
      fun hapart => ⟨hapart.1, hapart.2.1, hapart.2.2⟩⟩
  · exact ⟨spares_of_ne hs hw hsource h h' hseparate.each,
      spares_of_ne hs hw hsource' h' h hseparate.each.symm,
      sees_of_ne hs hw h hseparate.first, sees_of_ne hs hw h' hseparate.second⟩
  · have heq := (registryPath_eq_iff hdown h h').2 ⟨hplace, hstem⟩
    exact ⟨supplants_of_eq hs hw hsource h heq, supplants_of_eq hs hw hsource' h' heq.symm⟩
  · exact passesOver_of_eq hw ((registryPath_eq_aggregate_iff hdown h).2 hnamesake)

/-- A file directly in the module directory. -/
private theorem lies_beside {name : String} (h : Path.IsName name) :
    Lies obstructed.site.cwd beside.moduleDirectory (.absolute ["module", name]) [] name := by
  refine ⟨?_, by simpa using h⟩
  rw [Path.fold_absolute]
  · rfl
  · simpa using Ne.symm h.up

private theorem clean_beside {name : String} (h : Path.IsName name) :
    (Path.absolute ["module", name]).Clean := by
  intro part hpart
  rcases List.mem_cons.1 hpart with rfl | hpart
  · exact .inr (by decide)
  · obtain rfl := List.mem_singleton.1 hpart
    exact .inr h

/-- The registries of two headers with different stems are apart. -/
theorem separate_iff_headers : obstructed.WellFormed ∧
    (Path.absolute ["module", "a.h"]).Clean ∧ (Path.absolute ["module", "b.h"]).Clean ∧
    Lies obstructed.site.cwd beside.moduleDirectory (.absolute ["module", "a.h"]) [] "a.h" ∧
    Lies obstructed.site.cwd beside.moduleDirectory (.absolute ["module", "b.h"]) [] "b.h" ∧
    Separate beside obstructed.site.cwd (.absolute ["module", "a.h"])
      (.absolute ["module", "b.h"]) ∧
    Spares beside obstructed (.absolute ["module", "a.h"]) (.absolute ["module", "b.h"]) := by
  have ha : Path.IsName "a.h" := by decide
  have hb : Path.IsName "b.h" := by decide
  obtain ⟨hiff, heffects, -⟩ := separate_iff (s := beside) wellFormed_obstructed
    (clean_beside ha) (clean_beside hb) (lies_beside ha) (lies_beside hb)
  have hsingle : '/' ∉ beside.moduleName.toList := by decide
  have hseparate := hiff.2 (by rw [namesake_iff hsingle, namesake_iff hsingle]; decide +kernel)
  exact ⟨wellFormed_obstructed, clean_beside ha, clean_beside hb, lies_beside ha, lies_beside hb,
    hseparate, (heffects resolved_beside hseparate).1⟩

/-- A header and an implementation file with its stem share a registry file, in which the passes
over them supplant each other, and a header called like the module has the registry file of the
module, which a collection passes over. -/
theorem not_separate_namesakes : beside.Resolved ∧ obstructed.WellFormed ∧
    (Lies obstructed.site.cwd beside.moduleDirectory (.absolute ["module", "Player.h"]) []
        "Player.h" ∧
      Lies obstructed.site.cwd beside.moduleDirectory (.absolute ["module", "Player.cpp"]) []
        "Player.cpp" ∧
      Lies obstructed.site.cwd beside.moduleDirectory (.absolute ["module", "Module.h"]) []
        "Module.h") ∧
    (".h" ∈ beside.sourceExtensions ∧ ".cpp" ∈ GeneratedPath.implementationExtensions) ∧
    (¬ Separate beside obstructed.site.cwd (.absolute ["module", "Player.h"])
        (.absolute ["module", "Player.cpp"]) ∧
      Supplants beside obstructed (.absolute ["module", "Player.cpp"])
        (.absolute ["module", "Player.h"])) ∧
    ¬ Separate beside obstructed.site.cwd (.absolute ["module", "Player.h"])
        (.absolute ["module", "Module.h"]) ∧
      PassesOver beside obstructed (.absolute ["module", "Module.h"]) := by
  have hheader : Path.IsName "Player.h" := by decide
  have hsource : Path.IsName "Player.cpp" := by decide
  have hmodule : Path.IsName "Module.h" := by decide
  have hdown : ".." ∉ beside.moduleDirectory.fold obstructed.site.cwd := by decide
  have heq := (registryPath_eq_iff (s := beside) hdown (lies_beside hsource)
    (lies_beside hheader)).2 (by decide +kernel)
  have hnamesake := (registryPath_eq_aggregate_iff (s := beside) hdown (lies_beside hmodule)).2
    ((namesake_iff (by decide)).2 (by decide +kernel))
  refine ⟨resolved_beside, wellFormed_obstructed,
    ⟨lies_beside hheader, lies_beside hsource, lies_beside hmodule⟩, by decide,
    ⟨fun hseparate => hseparate.each heq.symm, ?_⟩, fun hseparate => hseparate.second hnamesake,
    passesOver_of_eq wellFormed_obstructed hnamesake⟩
  exact supplants_of_eq resolved_beside wellFormed_obstructed (clean_beside hsource)
    (lies_beside hsource) heq

end Introspect.Pass
