import Introspect.Proofs.Pass.Run

/-! What a pass over one file changes, wherever it ends. -/
namespace Introspect.Pass
open FileTree Job

variable {s : Settings} {w w' v : Workspace} {cwd : List String} {t t' t₁ : FileTree}
  {input : Path} {hash : NameHash} {frontEnd : FrontEnd} {r : Registry} {q : List String}

/-- A pass over an input may meet a header where there is one, or will be once there are more
directories and empty files and other outputs of the input. -/
def Meets (s : Settings) (cwd : List String) (input : Path) (t : FileTree) (header : Path) :
    Prop :=
  ∃ t', Grows (· ∈ outputs s cwd input) (fun _ => True) (fun _ => True) t t' ∧
    IsHeader s cwd t' header

/-- The place is on the way to a generated file, or to the output directory. -/
def Leads (s : Settings) (cwd : List String) (input : Path) (t : FileTree) (q : List String) :
    Prop :=
  q <+: s.outputDirectory.parts ∨ (∃ p ∈ outputs s cwd input, Below q p) ∨
    ∃ header, Meets s cwd input t header ∧ Below q (headerPlace s cwd header)

/-- What a pass over an input has done before it cleans up, as far as it got: apart from the
outputs, some placeholders and some directories are new. -/
def Grown (s : Settings) (cwd : List String) (input : Path) (t : FileTree) :
    FileTree → FileTree → Prop :=
  Grows (· ∈ outputs s cwd input)
    (fun q => ∃ header, Meets s cwd input t header ∧ q = headerPlace s cwd header)
    (Leads s cwd input t)

/-- What may become of a place that is no output of the input: a header gets an empty generated
header where nothing was, an empty generated file goes, a directory is made on the way to a
generated file, and a directory below the output directory goes with nothing left in it. -/
inductive Change (s : Settings) (cwd : List String) (input : Path) (t t' : FileTree)
    (q : List String) : Prop where
  | kept (same : t'.find? q = t.find? q)
  | placeholder (header : Path) (meets : Meets s cwd input t header)
      (place : q = headerPlace s cwd header) (before : t.find? q = none)
      (after : t'.find? q = some (.file ""))
  | swept (expendable : Expendable s q) (before : t.find? q = some (.file ""))
      (after : t'.find? q = none)
  | made (leads : Leads s cwd input t q) (before : t.find? q = none)
      (after : t'.find? q = some .directory)
  | cleared (below : Below s.outputDirectory.parts q) (before : t.find? q = some .directory)
      (after : t'.find? q = none) (bare : t'.Bare q)

/-- No text but an empty one is at a place. -/
def NoText (t : FileTree) (q : List String) : Prop :=
  ∀ text, t.find? q = some (.file text) → text = ""

/-- The work ends in a workspace, with success or not. -/
def EndsIn {α : Type} (x : Job α) (w w' : Workspace) : Prop :=
  (∃ a, x.run w = .ok a w') ∨ ∃ e, x.run w = .error e w'

theorem Change.of_grown (h : Grown s cwd input t t t') (hq : q ∉ outputs s cwd input) :
    Change s cwd input t t' q := by
  rcases h q with hsame | hq' | ⟨hnone, ⟨hfile, header, hmeets, hplace⟩ | ⟨hdirectory, hleads⟩⟩
  · exact .kept hsame
  · exact absurd hq' hq
  · exact .placeholder header hmeets hplace hnone hfile
  · exact .made hleads hnone hdirectory

theorem Change.of_swept (h : Grown s cwd input t t t₁) (h' : Swept s t₁ t')
    (hq : q ∉ outputs s cwd input) : Change s cwd input t t' q := by
  have hswept := h'.change q
  rcases h q with hsame | hq' | ⟨hnone, ⟨hfile, header, hmeets, hplace⟩ | ⟨hdirectory, hleads⟩⟩
  · rw [hsame] at hswept
    rcases hswept with hkept | ⟨hexpendable, hempty, hgone⟩ | ⟨hbelow, hdirectory, hgone, hbare⟩
    · exact .kept hkept
    · exact .swept hexpendable hempty hgone
    · exact .cleared hbelow hdirectory hgone hbare
  · exact absurd hq' hq
  · rcases hswept with hkept | ⟨-, -, hgone⟩ | ⟨-, hdirectory, -⟩
    · exact .placeholder header hmeets hplace hnone (hkept.trans hfile)
    · exact .kept (hgone.trans hnone.symm)
    · rw [hfile] at hdirectory
      cases hdirectory
  · rcases hswept with hkept | ⟨-, hempty, -⟩ | ⟨-, -, hgone, -⟩
    · exact .made hleads hnone (hkept.trans hdirectory)
    · rw [hdirectory] at hempty
      cases hempty
    · exact .kept (hgone.trans hnone.symm)

/-! ## Every outcome -/

/-- A pass meets no other headers. -/
theorem covers_meets :
    Covers s cwd input t fun _ => Meets s cwd input t := by
  intro t₁ t' _ _ hcleared hplaced header hheader
  refine ⟨t', Grows.trans (hcleared.clearing.mono (fun _ h => h) ?_ ?_)
    (hplaced.mono (fun _ h => h.elim) ?_ ?_), hheader⟩ <;> exact fun _ _ => trivial

/-- What clearing and placeholders come to. -/
theorem Grown.of_clearing (h : Clearing s cwd input t t₁)
    (h' : Placed s cwd (Meets s cwd input t) t₁ t') : Grown s cwd input t t t' :=
  Grows.trans (h.mono (fun _ h => h) (fun _ h => h.elim) fun _ h => .inl h)
    (h'.mono (fun _ h => h.elim) (fun _ h => h) fun _ h => .inr (.inr h))

theorem Grown.of_prepared {t₁ : FileTree}
    (h : Prepared s cwd input (Meets s cwd input t) t t₁ t') : Grown s cwd input t t t' :=
  .of_clearing h.cleared.clearing h.placed

theorem Grown.resolve (hw : w.WellFormed)
    (h : Grown s w.site.cwd (input.resolve w.site.cwd) t t t') :
    Grown s w.site.cwd input t t t' := by
  unfold Grown Leads Meets at h ⊢
  rwa [outputs_resolve hw] at h

private theorem ends_reflectFile (hs : s.Resolved) (hw : w.WellFormed) (hinput : input.Clean) :
    Ends (reflectFile s hash frontEnd input) w
      (fun _ w' => ∃ t₁, Grown s w.site.cwd (input.resolve w.site.cwd) w.tree w.tree t₁ ∧
        Swept s t₁ w'.tree)
      (fun w' => Grown s w.site.cwd (input.resolve w.site.cwd) w.tree w.tree w'.tree) := by
  have hclean := Clean.resolve hw hinput
  rw [reflectFile_eq]
  refine ends_bind (R := fun _ v => v = w) (ends_requireKnown (fun _ => rfl) (.refl _ _ _ _)) ?_
  rintro _ v hv
  rw [hv]
  refine ends_bind_of_ok run_cwd ?_
  generalize input.resolve w.site.cwd = input at hclean ⊢
  refine ends_bind ((ends_prepare hs hw hclean covers_meets).mono (fun _ _ h => h) ?_) ?_
  · intro v hv
    obtain ⟨t₁, hclearing, hplaced⟩ := hv.tree
    exact .of_clearing hclearing hplaced
  intro _ w₁ h₁
  obtain ⟨t₁, -, hprepared⟩ := h₁.tree
  refine ends_bind ((still_examine s hash frontEnd input).ends
    (Q := fun _ v => v.tree = w₁.tree ∧ v.site = w₁.site) (fun _ v _ htree hsite => ⟨htree, hsite⟩)
    fun v htree _ => htree ▸ Grown.of_prepared hprepared) ?_
  rintro r w₂ ⟨htree, hsite⟩
  have h₂ := h₁.of_eq htree hsite
  have hgrown : Grown s w.site.cwd input w.tree w.tree w₂.tree := htree ▸ .of_prepared hprepared
  have hemit := ends_emit hs (h₂.workspace hw) hclean r
  rw [h₂.site] at hemit
  refine ends_bind (hemit.mono (fun _ _ h => h) fun w₃ h₃ => ?_) fun _ w₃ h₃ => ?_
  · exact hgrown.trans (h₃.tree.mono (fun _ h => h) (fun _ h => h.elim) fun _ h => .inr (.inl h))
  have hgrown₃ : Grown s w.site.cwd input w.tree w.tree w₃.tree := hgrown.trans (h₃.tree.grows
    (fun f hf => mem_places_files.1 (List.mem_map_of_mem hf))
    fun f hf q hq => .inr (.inl ⟨f.1, mem_places_files.1 (List.mem_map_of_mem hf), hq⟩))
  have hclear := ends_cleanUp hs (h₃.workspace (h₂.workspace hw))
  refine ends_bind (hclear.mono (fun _ _ h => h) fun w₄ h₄ => h₄.1 ▸ hgrown₃) fun _ w₄ h₄ => ?_
  exact ends_bind_of_ok (run_report _) (ends_pure ⟨w₃.tree, hgrown₃, h₄.tree⟩)

/-- Wherever a pass ends, every place but the outputs of its input is as it was, or has changed in
one of the ways that are allowed. -/
theorem change_of_endsIn (hs : s.Resolved) (hw : w.WellFormed) (hinput : input.Clean)
    (h : EndsIn (reflectFile s hash frontEnd input) w w') (hq : q ∉ outputs s w.site.cwd input) :
    Change s w.site.cwd input w.tree w'.tree q := by
  have hends : Ends (reflectFile s hash frontEnd input) w _ _ := ends_reflectFile hs hw hinput
  rcases h with ⟨r, hrun⟩ | ⟨e, hrun⟩
  · obtain ⟨t₁, hgrown, hswept⟩ := hends.of_ok hrun
    exact .of_swept (.resolve hw hgrown) hswept hq
  · exact .of_grown (.resolve hw (hends.of_error hrun)) hq

/-! ## Failure -/

/-- Before the input is examined, there is no text left at the places of its outputs. -/
theorem Prepared.noText {K : Path → Prop} {t₂ : FileTree} (h : Prepared s cwd input K t t₁ t₂)
    (hq : q ∈ outputs s cwd input) : NoText t₂ q := by
  intro text htext
  rcases h.placed q with hsame | hfalse | ⟨-, ⟨hempty, -⟩ | ⟨hdirectory, -⟩⟩
  · rw [hsame, h.cleared.gone q hq] at htext
    cases htext
  · exact hfalse.elim
  · rw [hempty] at htext
    cases htext
    rfl
  · rw [hdirectory] at htext
    cases htext

private theorem noText_of_examine (hs : s.Resolved) (hw : w.WellFormed) (hinput : input.Clean)
    (hknown : input.hasNull = false) {w₁ w₂ : Workspace} {e : Failure}
    (hprepare : (prepare s (input.resolve w.site.cwd)).run w = .ok () w₁)
    (hexamine : (examine s hash frontEnd (input.resolve w.site.cwd)).run w₁ = .error e w₂) :
    (reflectFile s hash frontEnd input).run w = .error e w₂ ∧
      ∀ q ∈ outputs s w.site.cwd input, NoText w₂.tree q := by
  constructor
  · rw [reflectFile_eq, run_bind_of_ok (run_requireKnown_ok_iff (u := ()) |>.2 ⟨hknown, rfl⟩),
      run_bind_of_ok run_cwd]
    dsimp only
    rw [run_bind_of_ok hprepare, run_bind_of_error hexamine]
  · intro q hq
    have h₁ := (ends_prepare hs hw (Clean.resolve hw hinput) covers_meets).of_ok hprepare
    obtain ⟨t₁, -, hprepared⟩ := h₁.tree
    rw [((still_examine s hash frontEnd _ w₁).of_error hexamine).1]
    rw [← outputs_resolve hw] at hq
    exact hprepared.noText hq

/-! ## Success -/

/-- What comes of a header when a pass succeeds: its generated header is a file, unless it is empty
and not kept; else something stands in its place or no file can have its name. -/
inductive Served (s : Settings) (cwd : List String) (input : Path) (t t' : FileTree)
    (header : Path) : Prop where
  | file (text : String) (there : t'.find? (headerPlace s cwd header) = some (.file text))
  | unkept (setting : s.deleteEmptyHeaders = true)
      (gone : t'.find? (headerPlace s cwd header) = none)
  | directory (before : t.find? (headerPlace s cwd header) = some .directory)
  | onTheWay (leads : Leads s cwd input t (headerPlace s cwd header))
  | tooLong (long : nameLimit < ((headerPlace s cwd header).getLast?.getD "").utf8ByteSize)

/-- The name of a generated header has no other extension. -/
theorem deleteEmptyHeaders_of_expendable (hcwd : ∀ s ∈ cwd, Path.IsName s) {header : Path}
    (hheader : header.Clean) (h : Expendable s (headerPlace s cwd header)) :
    s.deleteEmptyHeaders = true := by
  obtain ⟨-, e, he, hsuffix⟩ := h
  rcases mem_expendable.1 he with ⟨-, hdelete⟩ | ⟨rfl, -⟩
  · exact hdelete
  · exfalso
    rw [headerPlace, place, GeneratedPath.parts_ofSource hcwd hheader slash_headerExtension
      length_headerExtension, List.getLast?_concat, Option.getD_some,
      String.toList_append] at hsuffix
    have hboth := List.suffix_of_suffix_length_le (List.suffix_append _ _) hsuffix (by decide)
    revert hboth
    decide

private theorem served_of_ok (hs : s.Resolved) (hw : w.WellFormed)
    (hinput : IsSource s w.site.cwd input)
    (h : (reflectFile s hash frontEnd input).run w = .ok r w') {header : Path}
    (hheader : IsHeader s w.site.cwd w.tree header) :
    Served s w.site.cwd input w.tree w'.tree header := by
  obtain ⟨t₁, t₂, t₃, ht₁, ht₂, ht₃, hprepared, hfiled, hturns, -⟩ :=
    stages_of_reflectFile hs hw hinput.clean covers_meets h
  have hclean := hheader.clean hw.tree
  have hgrown := Grown.resolve hw (.of_prepared hprepared)
  have hcleared := hprepared.cleared
  -- The header is no output of the input, so clearing does not remove it.
  have houtside : header.fold w.site.cwd ∉ outputs s w.site.cwd (input.resolve w.site.cwd) := by
    rw [outputs_resolve hw]
    exact fun hmem => hheader.outside hs hw.tree hcleared.known
      (below_of_mem_outputs hs hw.names hinput hmem).1
  have hheader₁ : IsHeader s w.site.cwd t₁ header := by
    refine hheader.mono hw.tree hcleared.directories fun n hn => ?_
    rcases hcleared.other _ houtside with hsame | ⟨hnone, -⟩
    · rw [hsame, hn]
    · rw [hn] at hnone
      cases hnone
  rcases (hprepared.occupied header hheader₁).present with hfound | hlong
  · have hfound₃ : ∃ n, t₃.find? (headerPlace s w.site.cwd header) = some n ∧
        (n = .directory → t₂.find? (headerPlace s w.site.cwd header) = some .directory ∧
          headerPlace s w.site.cwd header ∉ outputs s w.site.cwd input) := by
      by_cases hmem : headerPlace s w.site.cwd header ∈ outputs s w.site.cwd input
      · rw [← outputs_resolve hw, ← mem_places_files (r := r), List.mem_map] at hmem
        obtain ⟨f, hf, hplace⟩ := hmem
        exact ⟨.file f.2, hplace ▸ hfiled.text f hf, nofun⟩
      · have hout := hmem
        rw [← outputs_resolve hw, ← mem_places_files (r := r)] at hout
        obtain ⟨n, hn⟩ := Option.ne_none_iff_exists'.1 hfound
        rcases hfiled.other _ hout with hsame | ⟨hnone, -⟩
        · exact ⟨n, hsame.trans hn, fun he => ⟨he ▸ hn, hmem⟩⟩
        · exact absurd hnone hfound
    obtain ⟨n, hn, hdirectory⟩ := hfound₃
    cases n with
    | directory =>
      obtain ⟨h₂, hout⟩ := hdirectory rfl
      rcases hgrown (headerPlace s w.site.cwd header) with
        hsame | hmem | ⟨-, ⟨hfile, -⟩ | ⟨-, hleads⟩⟩
      · exact .directory (hsame ▸ h₂)
      · exact absurd hmem hout
      · rw [hfile] at h₂
        cases h₂
      · exact .onTheWay hleads
    | file text =>
      rcases hturns.tree.change (headerPlace s w.site.cwd header) with
        hsame | ⟨hexpendable, -, hgone⟩ | ⟨-, hdirectory, -⟩
      · exact .file text (hsame.trans hn)
      · exact .unkept (deleteEmptyHeaders_of_expendable hw.names hclean hexpendable) hgone
      · rw [hn] at hdirectory
        cases hdirectory
  · exact .tooLong hlong

private theorem output_of_stages (hs : s.Resolved) (hw : w.WellFormed)
    (hinput : IsSource s w.site.cwd input) {K : Path → Prop} {t₂ t₃ : FileTree}
    (hprepared : Prepared s w.site.cwd (input.resolve w.site.cwd) K t t₁ t₂)
    (hfiled : FiledAll (files s w.site.cwd (input.resolve w.site.cwd) r) t₂ t₃) :
    t₃.find? s.outputDirectory.parts = some .directory := by
  have h₂ := hprepared.placed.of_found hprepared.cleared.output
  have hout : s.outputDirectory.parts ∉
      (files s w.site.cwd (input.resolve w.site.cwd) r).map Prod.fst := by
    rw [mem_places_files, outputs_resolve hw]
    exact fun hmem => (below_of_mem_outputs hs hw.names hinput hmem).2 rfl
  rcases hfiled.other _ hout with hsame | ⟨hnone, -⟩
  · rw [hsame, h₂]
  · rw [h₂] at hnone
    cases hnone

/-- A module of two headers, with a directory where the generated header of the first belongs. -/
def obstructed : Workspace :=
  .start ⟨[], default, []⟩ ⟨.ofList [([], .directory), (["module"], .directory),
    (["module", "a.h"], .file ""), (["module", "b.h"], .file ""), (["generated"], .directory),
    (["generated", "a.reflgen.h"], .directory)]⟩

/-- Settings for a module next to its output directory. -/
def beside : Settings :=
  { Settings.default ⟨[], default, []⟩ with
    moduleDirectory := .absolute ["module"]
    outputDirectory := .absolute ["generated"]
    sourceExtensions := [".h"] }

/-- A front end that finds nothing in a file. -/
def silent : FrontEnd := ⟨⟨#[], #[], 0⟩, [], false⟩

theorem resolved_beside : beside.Resolved := ⟨⟨rfl, by decide⟩, ⟨rfl, by decide⟩⟩

theorem wellFormed_obstructed : obstructed.WellFormed :=
  ⟨.of_keys (by decide) (by decide), by decide⟩

theorem isSource_second :
    IsSource beside obstructed.site.cwd (.absolute ["module", "b.h"]) :=
  ⟨by unfold Path.Clean; decide, by decide, ⟨by decide, by decide⟩, by decide⟩

private theorem isHeader_first :
    IsHeader beside obstructed.site.cwd obstructed.tree (.absolute ["module", "a.h"]) := by
  have hfound : (match (headers beside ".h").run obstructed with
      | .ok found _ => found.contains (.absolute ["module", "a.h"])
      | .error _ _ => false) = true := by decide +kernel
  split at hfound
  · next found v hrun =>
    obtain ⟨pattern, hpattern, hheaders⟩ :=
      headers_ok resolved_beside wellFormed_obstructed hrun
    exact ⟨".h", by decide, pattern, hpattern,
      (hheaders _).1 (by simpa using hfound)⟩
  · cases hfound

private theorem exists_run_obstructed : ∃ r w',
    (reflectFile beside .crc32 silent (.absolute ["module", "b.h"])).run obstructed = .ok r w' ∧
      w'.tree.find? (headerPlace beside obstructed.site.cwd (.absolute ["module", "a.h"])) =
        none := by
  have hrun : (match (reflectFile beside .crc32 silent (.absolute ["module", "b.h"])).run
        obstructed with
      | .ok _ w' => w'.tree.find? (headerPlace beside obstructed.site.cwd
          (.absolute ["module", "a.h"])) == none
      | .error _ _ => false) = true := by decide +kernel
  split at hrun
  · next r w' h => exact ⟨r, w', h, by simpa using hrun⟩
  · cases hrun

end Introspect.Pass
