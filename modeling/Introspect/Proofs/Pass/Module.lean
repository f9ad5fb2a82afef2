import Introspect.Proofs.Pass.Frame
import Introspect.Proofs.Store.Regather
import Introspect.Proofs.Store.Written

/-! The pass over a module as a whole: when it is run again, it comes to the same and leaves every
file as it is. -/
namespace Introspect.Pass
open FileTree Job Store

variable {s : Settings} {hash : NameHash} {w v : Workspace} {r : Registry}
  {files : List Emission.GeneratedFile} {u : List String → Registry}

/-! ## Generated files -/

/-- Where a generated file is. -/
def fileplace (cwd : List String) (f : Emission.GeneratedFile) : List String := f.path.fold cwd

/-- Files that are written hold their texts, and otherwise some directories are new. -/
theorem emits_of_writeFiles (hw : w.WellFormed) (hrooted : ∀ f ∈ files, f.path.Rooted)
    (hnodup : (files.map (fileplace w.site.cwd)).Nodup)
    (h : (writeFiles files).run w = .ok () v) :
    v.WellFormed ∧ Emits (files.map (fileplace w.site.cwd)) w v ∧
      ∀ f ∈ files, Holds f.path f.text v := by
  induction files generalizing w with
  | nil =>
    cases h
    exact ⟨hw, .refl _, nofun⟩
  | cons f files ih =>
    rw [List.map_cons, List.nodup_cons] at hnodup
    rw [writeFiles, forM_cons] at h
    obtain ⟨⟨⟩, w₁, hfirst, hrest⟩ := run_bind_ok_iff.1 h
    have hputs := run_writeText_ok_iff.1 hfirst
    have hemits := hputs.emits
    rw [← hemits.site] at hnodup
    obtain ⟨hv, hothers, hholds⟩ := ih (hputs.wellFormed hw (hrooted f (List.mem_cons_self ..)))
      (fun g hg => hrooted g (List.mem_cons_of_mem _ hg)) hnodup.2 hrest
    refine ⟨hv, ?_, fun g hg => ?_⟩
    · have hboth := hemits.append hothers
      rwa [hemits.site] at hboth
    · rcases List.mem_cons.1 hg with rfl | hg
      · exact hothers.holds hputs.holds hnodup.1
      · exact hholds g hg

/-- Files whose places are free can be written. -/
theorem exists_writeFiles (h : ∀ f ∈ files, Free f.path w) :
    ∃ v, (writeFiles files).run w = .ok () v := by
  induction files generalizing w with
  | nil => exact ⟨w, rfl⟩
  | cons f files ih =>
    obtain ⟨w₁, hputs, hfree⟩ := (h f (List.mem_cons_self ..)).puts f.text
    obtain ⟨v, hrest⟩ := ih fun g hg => hfree _ (h g (List.mem_cons_of_mem _ hg))
    refine ⟨v, ?_⟩
    rw [writeFiles, forM_cons, run_bind_of_ok (run_writeText_ok_iff.2 hputs)]
    exact hrest

/-- Files that hold their texts already can be written again. -/
theorem exists_writeFiles_again (h : ∀ f ∈ files, Holds f.path f.text w) :
    ∃ v, (writeFiles files).run w = .ok () v ∧ Same w v := by
  induction files generalizing w with
  | nil => exact ⟨w, rfl, .refl w⟩
  | cons f files ih =>
    obtain ⟨w₁, hputs, hsame⟩ := (h f (List.mem_cons_self ..)).puts_again
    obtain ⟨v, hrest, hsame'⟩ := ih fun g hg => (h g (List.mem_cons_of_mem _ hg)).of_same hsame
    refine ⟨v, ?_, hsame.trans hsame'⟩
    rw [writeFiles, forM_cons, run_bind_of_ok (run_writeText_ok_iff.2 hputs)]
    exact hrest

/-! ## The files of a module -/

/-- What the pass over a module collects. -/
def collection (s : Settings) (hash : NameHash) : Collection :=
  ⟨s.moduleName, s.moduleDirectory, s.outputDirectory, s.sourceExtensions, hash, s.strictMerge⟩

/-- Where the files of the module are, apart from those of its sources: its registry, its header
and its source. -/
def modulePlaces (s : Settings) (cwd : List String) : List (List String) :=
  [GeneratedPath.registryExtension, GeneratedPath.moduleHeaderExtension,
    GeneratedPath.moduleSourceExtension].map fun e =>
      (s.outputDirectory.child (s.moduleName ++ e)).fold cwd

private theorem modulePlaces_eq (s : Settings) (cwd : List String) : modulePlaces s cwd =
    [GeneratedPath.registryExtension, GeneratedPath.moduleHeaderExtension,
      GeneratedPath.moduleSourceExtension].map fun e =>
        (s.outputDirectory.child (Path.front s.moduleName)).fold cwd ++
          [Path.base s.moduleName ++ e] := by
  have hplain : ∀ e ∈ [GeneratedPath.registryExtension, GeneratedPath.moduleHeaderExtension,
      GeneratedPath.moduleSourceExtension], '/' ∉ e.toList ∧ 2 < e.toList.length := by decide
  exact List.map_congr_left fun e he =>
    fold_child_append cwd s.outputDirectory s.moduleName (hplain e he).1 (hplain e he).2

theorem nodup_modulePlaces (s : Settings) (cwd : List String) : (modulePlaces s cwd).Nodup := by
  rw [modulePlaces_eq]
  refine List.Nodup.map (fun e e' he => ?_) (by decide)
  exact (String.append_right_inj _).1 (List.singleton_inj.1 (List.append_cancel_left he))

/-- None of them is the registry file of a source. -/
theorem foreign_modulePlaces (s : Settings) (hash : NameHash) (cwd : List String) :
    Foreign (collection s hash) cwd (modulePlaces s cwd) := by
  have hother : ∀ e, e.toList.getLast? ≠ some 'n' → e.toList ≠ [] → ∀ front stem,
      (s.outputDirectory.child (Path.front s.moduleName)).fold cwd ++
        [Path.base s.moduleName ++ e] ≠ front ++ [stem ++ GeneratedPath.registryExtension] := by
    intro e hlast hne front stem he
    have hname := congrArg (fun t => t.toList.getLast?)
      (List.singleton_inj.1 (List.append_inj_right' he rfl))
    rw [String.toList_append, String.toList_append, List.getLast?_append_of_ne_nil _ hne,
      List.getLast?_append_of_ne_nil _ (by decide)] at hname
    exact hlast (hname.trans (by decide))
  intro q hq
  rw [modulePlaces_eq] at hq
  obtain ⟨e, he, rfl⟩ := List.mem_map.1 hq
  rcases List.mem_cons.1 he with rfl | he
  · exact .inl (fold_aggregatePath cwd s.moduleName s.outputDirectory).symm
  · have hlast : ∀ e ∈ [GeneratedPath.moduleHeaderExtension, GeneratedPath.moduleSourceExtension],
        e.toList.getLast? ≠ some 'n' ∧ e.toList ≠ [] := by decide
    exact .inr (hother e (hlast e he).1 (hlast e he).2)

theorem rooted_child (hp : s.outputDirectory.Straight) (name : String) :
    (s.outputDirectory.child name).Rooted := by
  refine ⟨?_, hp.clean.join (Path.clean_ofString name)⟩
  unfold Path.child Path.join
  split
  · assumption
  · exact hp.rooted.absolute

/-! ## What is written -/

/-- Adds what was collected to the registry of the module, and writes the code of the module. -/
def emitModule (s : Settings) (r : Registry) : Job Registry := do
  discard (append (aggregatePath s.moduleName s.outputDirectory) r s.patience)
  writeFiles
    (Emission.moduleCode (← Job.cwd) r s.moduleName s.moduleDirectory s.outputDirectory)
  Job.report [.moduleReflected s.moduleName r.classes.size]
  return r

/-- A pass over a module collects, and then writes. -/
theorem reflectModule_eq :
    reflectModule s hash = collect (collection s hash) >>= emitModule s := rfl

/-- The files of a module hold what some registry and the code for what was collected say. -/
structure Emitted (s : Settings) (r combined : Registry) (w : Workspace) : Prop where
  registry : Holds (aggregatePath s.moduleName s.outputDirectory)
    (Document.toText combined (some indentation)) w
  code : ∀ f ∈ Emission.moduleCode w.site.cwd r s.moduleName s.moduleDirectory s.outputDirectory,
    Holds f.path f.text w

/-- What was collected comes on top of what the registry file of the module held, if there was
one. -/
theorem emitted_of_run {r' : Registry} (hs : s.Resolved) (hw : w.WellFormed)
    (h : (emitModule s r).run w = .ok r' v) :
    r' = r ∧ v.WellFormed ∧ Emits (modulePlaces s w.site.cwd) w v ∧ 0 < s.patience.attempts ∧
      ∃ stored combined, combined = ((Registry.empty r.hash).union stored).union r ∧
        (stored = .empty r.hash ∨
          (read (aggregatePath s.moduleName s.outputDirectory) r.hash s.patience).run w =
            .ok stored w) ∧ Emitted s r combined v := by
  obtain ⟨⟨⟩, w₁, hdiscard, hrest⟩ := run_bind_ok_iff.1 h
  obtain ⟨combined, happend⟩ := exists_of_run_discard hdiscard
  obtain ⟨stored, hcombined, hattempts, hputs, hstored⟩ := exists_of_run_append happend
  rw [run_bind_of_ok run_cwd] at hrest
  obtain ⟨⟨⟩, w₂, hwrite, hreport⟩ := run_bind_ok_iff.1 hrest
  cases hreport
  have hplaces := nodup_modulePlaces s w.site.cwd
  rw [modulePlaces, List.map_cons, List.nodup_cons] at hplaces
  have hfirst := hputs.emits
  obtain ⟨hv, hcode, hholds⟩ := emits_of_writeFiles
    (hputs.wellFormed hw (rooted_child hs.outputDirectory _))
    (fun f hf => by
      rcases List.mem_pair.1 hf with rfl | rfl <;> exact rooted_child hs.outputDirectory _)
    (hfirst.site ▸ hplaces.2) hwrite
  have hregistry := hcode.holds hputs.holds (hfirst.site ▸ hplaces.1)
  have hboth : Emits (modulePlaces s w.site.cwd) w w₂ := by
    have happended := hfirst.append hcode
    rwa [hfirst.site] at happended
  rw [← hcode.site] at hholds
  exact ⟨rfl, ⟨hv.tree, hv.cwd⟩, ⟨hboth.site, hboth.files, hboth.other⟩, hattempts, stored, combined,
    hcombined, hstored, ⟨hregistry.known, hregistry.directory, hregistry.file⟩,
    fun f hf => ⟨(hholds f hf).known, (hholds f hf).directory, (hholds f hf).file⟩⟩

theorem Emitted.of_same {combined : Registry} (h : Emitted s r combined w) (hv : Same w v) :
    Emitted s r combined v where
  registry := h.registry.of_same hv
  code f hf := (h.code f (hv.site ▸ hf)).of_same hv

/-- All of it can be written where there is a registry file that can be read, and where the code of
the module has its places. -/
theorem exists_emitModule {path : Path} {text : String} {stored : Registry}
    (hpath : path = aggregatePath s.moduleName s.outputDirectory) (h : Holds path text w)
    (hattempts : 0 < s.patience.attempts)
    (hread : (read path r.hash s.patience).run w = .ok stored w)
    (hcode : ∀ f ∈ Emission.moduleCode w.site.cwd r s.moduleName s.moduleDirectory
      s.outputDirectory, Free f.path w) :
    ∃ v, (emitModule s r).run w = .ok r v := by
  subst hpath
  obtain ⟨w₁, hputs, hfree⟩ := h.free.puts
    (Document.toText (((Registry.empty r.hash).union stored).union r) (some indentation))
  have happend : (append (aggregatePath s.moduleName s.outputDirectory) r s.patience).run w =
      .ok (((Registry.empty r.hash).union stored).union r) w₁ := by
    rw [append, run_bind_of_ok h.run_isPresent, if_pos rfl, run_bind_of_ok hread]
    exact run_bind_of_ok (run_write_ok_iff.2 ⟨hattempts, hputs⟩)
  rw [← hputs.emits.site] at hcode
  obtain ⟨w₂, hwrite⟩ := exists_writeFiles fun f hf => hfree _ (hcode f hf)
  refine ⟨{ w₂ with events := w₂.events ++ [.moduleReflected s.moduleName r.classes.size] }, ?_⟩
  rw [emitModule, run_bind_of_ok (run_discard_of_ok happend), run_bind_of_ok run_cwd,
    run_bind_of_ok hwrite]
  rfl

/-- It can be written again, where what is read back changes nothing. -/
theorem exists_emitModule_again {combined stored : Registry} (h : Emitted s r combined w)
    (hattempts : 0 < s.patience.attempts)
    (hread : Document.ofText r.hash (Document.toText combined (some indentation)) = .ok stored)
    (hagain : Document.toText (((Registry.empty r.hash).union stored).union r)
      (some indentation) = Document.toText combined (some indentation)) :
    ∃ v, (emitModule s r).run w = .ok r v ∧ Same w v := by
  obtain ⟨_, w₁, happend, hsame⟩ := exists_run_append_again h.registry hattempts hread hagain
  have hcode := h.code
  rw [← hsame.site] at hcode
  obtain ⟨w₂, hwrite, hsame'⟩ := exists_writeFiles_again fun f hf => (hcode f hf).of_same hsame
  have hboth := hsame.trans hsame'
  refine ⟨{ w₂ with events := w₂.events ++ [.moduleReflected s.moduleName r.classes.size] }, ?_,
    hboth.site, hboth.find?⟩
  rw [emitModule, run_bind_of_ok (run_discard_of_ok happend), run_bind_of_ok run_cwd,
    run_bind_of_ok hwrite]
  rfl

/-- The pass leaves a workspace behind in which the files form a tree. -/
theorem workspace_of_run (hs : s.Resolved) (hw : w.WellFormed)
    (hapart : Apart (collection s hash) w.site.cwd w.tree)
    (h : (reflectModule s hash).run w = .ok r v) : v.WellFormed ∧ v.site = w.site := by
  rw [reflectModule_eq] at h
  obtain ⟨r₁, w₁, hcollect, hemit⟩ := run_bind_ok_iff.1 h
  obtain ⟨hlacks, -⟩ := settled_of_run_collect hs.moduleDirectory.clean hw hapart hcollect
  obtain ⟨rfl, hv, hemits, -⟩ := emitted_of_run hs (hlacks.wellFormed hw) hemit
  exact ⟨hv, hemits.site.trans hlacks.site⟩

/-! ## Modules whose names are single -/

theorem directories_of_writeFiles {d : Path} {q : List String} (hd : d.Straight)
    (hparent : ∀ f ∈ files, f.path.parent = d) (h : (writeFiles files).run w = .ok () v)
    (hq : v.tree.find? q = some .directory) :
    w.tree.find? q = some .directory ∨ q <+: d.parts := by
  induction files generalizing w with
  | nil =>
    cases h
    exact .inl hq
  | cons f files ih =>
    obtain ⟨hfirst, hothers⟩ := List.forall_mem_cons.1 hparent
    rw [writeFiles, forM_cons] at h
    obtain ⟨⟨⟩, w₁, hwrite, hrest⟩ := run_bind_ok_iff.1 h
    rcases ih hothers hrest with hq | hprefix
    · have hputs := run_writeText_ok_iff.1 hwrite
      have hmade := hputs.directories (hfirst ▸ hd) hq
      rwa [hfirst] at hmade
    · exact .inr hprefix

section single
variable (hs : s.Resolved) (hname : '/' ∉ s.moduleName.toList)
include hname

private theorem parent_child {e : String} (hslash : '/' ∉ e.toList) (hlong : 2 < e.toList.length) :
    (s.outputDirectory.child (s.moduleName ++ e)).parent = s.outputDirectory := by
  rw [Path.child, Path.ofString_name (GeneratedPath.isName_append hname hslash hlong)]
  exact congrArg (fun parts => (⟨s.outputDirectory.anchor, parts⟩ : Path)) List.dropLast_concat

include hs

/-- Only the output directory is made, and what is above. -/
theorem directories_of_emitModule {r' : Registry} {q : List String}
    (h : (emitModule s r).run w = .ok r' v) (hq : v.tree.find? q = some .directory) :
    w.tree.find? q = some .directory ∨ q <+: s.outputDirectory.parts := by
  obtain ⟨⟨⟩, w₁, hdiscard, hrest⟩ := run_bind_ok_iff.1 h
  obtain ⟨combined, happend⟩ := exists_of_run_discard hdiscard
  obtain ⟨-, -, -, hputs, -⟩ := exists_of_run_append happend
  rw [run_bind_of_ok run_cwd] at hrest
  obtain ⟨⟨⟩, w₂, hwrite, hreport⟩ := run_bind_ok_iff.1 hrest
  cases hreport
  have hcode := directories_of_writeFiles hs.outputDirectory (fun f hf => by
    rcases List.mem_pair.1 hf with rfl | rfl <;>
      exact parent_child hname (by decide) (by decide)) hwrite hq
  have hparent : (aggregatePath s.moduleName s.outputDirectory).parent = s.outputDirectory :=
    parent_child hname slash_registryExtension length_registryExtension
  rcases hcode with hq | hprefix
  · have hmade := hputs.directories (by rw [hparent]; exact hs.outputDirectory) hq
    rwa [hparent] at hmade
  · exact .inr hprefix

/-- They do not get in the way. -/
theorem clear_of_emitModule {r' : Registry} (hw : w.WellFormed)
    (h : (emitModule s r).run w = .ok r' v) : Clear (collection s hash) w v := by
  obtain ⟨rfl, hv, hemits, -, -, combined, -, -, hemitted⟩ := emitted_of_run hs hw h
  have houtput : (collection s hash).output.Straight := hs.outputDirectory
  have hmade := fun q => directories_of_emitModule (q := q) hs hname h
  have hbelow : ∀ q, IsPart (collection s hash) v.site.cwd v.tree q →
      ¬ q <+: s.outputDirectory.parts := by
    rintro q hq hprefix
    obtain ⟨place, stem, rfl⟩ := hq.registry.named
    have hlength := hprefix.length_le
    rw [houtput.fold] at hlength
    simp [collection] at hlength
  have habove : ∀ {q}, IsPart (collection s hash) v.site.cwd v.tree q →
      ∀ k, k <+: s.outputDirectory.parts → w.tree.find? k = some .directory := by
    intro q hq k hprefix
    have hmem := (foreign_modulePlaces s hash v.site.cwd).not_mem hq
    rw [hemits.site] at hmem
    have hpresent : w.tree.find? q ≠ none := by
      rcases hemits.other q hmem with hsame | ⟨hnone, hd⟩
      · exact hsame ▸ hq.registry.present
      · rw [(hmade q hd).resolve_right (hbelow q hq)] at hnone
        cases hnone
    obtain ⟨place, stem, he⟩ := hq.registry.named
    rw [houtput.fold] at he
    have hk : k <+: q := hprefix.trans (he ▸ List.prefix_append _ _)
    exact hw.tree.above hpresent hk fun heq => hbelow q hq (heq ▸ hprefix)
  refine ⟨fun q hq hd => (hmade q hd).resolve_right (hbelow q hq), ?_, ?_⟩
  · have hparent : (aggregatePath s.moduleName s.outputDirectory).parent = s.outputDirectory :=
      parent_child hname slash_registryExtension length_registryExtension
    obtain ⟨d, hd, -⟩ := hemitted.registry.directory
    have hnull := FileTree.hasNull_parent hemitted.registry.known
    rw [hparent] at hd hnull
    exact ⟨_, (run_isThere_ok_iff hnull).2 ⟨isThere_of_locate hd, rfl⟩⟩
  · intro place stem hq e _
    exact exists_run_hasSource_of_directories hemits.site.symm fun q hd =>
      (hmade q hd).elim id (habove hq q)

/-- Where the name of the module has no directories in front, the directories that the pass makes
do not get in the way. -/
theorem clear_of_single (hw : w.WellFormed) (hapart : Apart (collection s hash) w.site.cwd w.tree)
    (h : (reflectModule s hash).run w = .ok r v) : Clear (collection s hash) w v := by
  have hmodule : (collection s hash).moduleDirectory.Clean := hs.moduleDirectory.clean
  rw [reflectModule_eq] at h
  obtain ⟨r₁, w₁, hcollect, hemit⟩ := run_bind_ok_iff.1 h
  obtain ⟨hlacks, -⟩ := settled_of_run_collect hmodule hw hapart hcollect
  exact (clear_of_emitModule hs hname (hlacks.wellFormed hw) hemit).congr hlacks.site.symm
    fun q => (hlacks.directories q).symm

end single

/-! ## Again -/

/-- What the registry files of sources come to together is put together from what was written. -/
theorem exists_ofText_collected {c : Collection} {files : List Path} (hmodule : c.moduleDirectory.Clean)
    (hw : w.WellFormed) (hwritten : Written c w u) (h : Gathers c w files (.empty c.hash) r)
    {stored combined : Registry} (hstored : IsRestored c w u stored)
    (hcombined : combined = ((Registry.empty r.hash).union stored).union r) :
    ∃ t, Document.ofText r.hash (Document.toText combined (some indentation)) = .ok t ∧
      Document.toText (((Registry.empty r.hash).union t).union r) (some indentation) =
        Document.toText combined (some indentation) := by
  obtain ⟨kept, rs, -, hkept, hread, hr⟩ := h.exists_stored hmodule hw
  have hfiles : ∀ p ∈ kept, IsRegistry w.tree w.site.cwd c.output (p.fold w.site.cwd) := by
    intro p hp
    obtain ⟨-, q, hpart, -, rfl⟩ := (hkept p).1 hp
    rw [Collection.path, hpart.registry.fold_beneath hw.tree]
    exact hpart.registry
  have hrestored := List.forall_mem_cons.2 ⟨hstored, hwritten.restored_all hfiles hread⟩
  have hhash : r.hash = c.hash := hr ▸ Registry.hash_foldl rs
  rw [hhash] at hcombined ⊢
  exact Document.exists_ofText_again (hwritten.combinable hrestored) (Json.isBlank_blanks (some 2))
    hr hcombined

/-- When the pass over a module succeeded, it does so again, comes to the same and leaves every file
as it is: where the registry files were written of registries whose names have numbers of their own,
no source of a registry file is itself a registry file that goes, and the directories that were made
do not get in the way. -/
theorem reflectModule_again (hs : s.Resolved) (hw : w.WellFormed)
    (hwritten : Written (collection s hash) w u)
    (hapart : Apart (collection s hash) w.site.cwd w.tree)
    (h : (reflectModule s hash).run w = .ok r v) (hclear : Clear (collection s hash) w v) :
    ∃ v', (reflectModule s hash).run v = .ok r v' ∧ Same v v' := by
  have hmodule : (collection s hash).moduleDirectory.Clean := hs.moduleDirectory.clean
  rw [reflectModule_eq] at h
  obtain ⟨r₁, w₁, hcollect, hemit⟩ := run_bind_ok_iff.1 h
  obtain ⟨hlacks, hown, hknown, files, hfinds, hgathers⟩ :=
    settled_of_run_collect hmodule hw hapart hcollect
  have hw₁ := hlacks.wellFormed hw
  obtain ⟨rfl, hv, hemits, hattempts, stored, combined, hcombined, hstored, hemitted⟩ :=
    emitted_of_run hs hw₁ hemit
  have hwritten₁ := hwritten.of_lacks hlacks
  obtain ⟨-, rs, -, -, -, hr⟩ := hgathers.exists_stored hmodule hw₁
  have hhash : r.hash = hash := hr ▸ Registry.hash_foldl rs
  have hrestored : IsRestored (collection s hash) w₁ u stored := by
    rcases hstored with rfl | hread
    · exact .inl (by rw [hhash]; rfl)
    · exact hwritten₁.restored (.inr rfl) (hhash ▸ hread)
  obtain ⟨t, hof, htext⟩ := exists_ofText_collected hmodule hw₁ hwritten₁ hgathers hrestored
    hcombined
  obtain ⟨v₁, hcollect', hsame⟩ := exists_run_collect_of_emits hs.outputDirectory hmodule hw₁ hv
    hemits (foreign_modulePlaces s hash _) hknown (hclear.congr hlacks.site hlacks.directories)
    (hlacks.not_stale hapart) hown hfinds hgathers
  obtain ⟨v', hemit', hsame'⟩ := exists_emitModule_again (hemitted.of_same hsame) hattempts hof htext
  exact ⟨v', (run_bind_of_ok hcollect').trans hemit', hsame.trans hsame'⟩

/-! ## A door -/

/-- A module of one header with its registry file, where the registry of the module has an older
record. -/
def doorway : Workspace :=
  .start ⟨[], default, []⟩ ⟨.ofList [([], .directory), (["module"], .directory),
    (["module", "Door.h"], .file ""), (["generated"], .directory),
    (["generated", "Door.reflregistry.json"],
      .file (Document.toText (Registry.handles .int32) (some indentation))),
    (["generated", "Module.reflregistry.json"],
      .file (Document.toText (Registry.handles .record) (some indentation)))]⟩

/-- What the registry files of the module were written of. -/
def doorRecords (q : List String) : Registry :=
  Registry.handles (if q = ["generated", "Door.reflregistry.json"] then .int32 else .record)

theorem wellFormed_doorway : doorway.WellFormed :=
  ⟨.of_keys (by decide) (by decide), by decide⟩

private theorem registry_doorway {q : List String}
    (h : IsRegistry doorway.tree doorway.site.cwd (besides [".h"]).output q) :
    q = ["generated", "Door.reflregistry.json"] ∨ q = ["generated", "Module.reflregistry.json"] := by
  have hmem := (mem_search_registries h.reached).2 h
  have hfound : doorway.tree.search ((besides [".h"]).output.fold doorway.site.cwd)
      ("*" ++ GeneratedPath.registryExtension) = [["generated", "Door.reflregistry.json"],
        ["generated", "Module.reflregistry.json"]] := by decide
  rw [hfound] at hmem
  exact List.mem_pair.1 hmem

private theorem stored_doorway {q : List String}
    (h : IsStored (besides [".h"]) doorway q) :
    q = ["generated", "Door.reflregistry.json"] ∨ q = ["generated", "Module.reflregistry.json"] := by
  rcases h.registry with hregistry | rfl
  · exact registry_doorway hregistry
  · exact .inr (by decide)

private theorem wellFormed_handles (kind : TypeKind) {numbers : Int → Prop} :
    (Registry.handles kind).WellFormed numbers := by
  refine ⟨?_, by simp [Registry.handles, Registry.empty],
    by simp [Registry.handles, Registry.empty], by simp [Registry.handles, Registry.empty],
    by simp [Registry.handles, Registry.empty]⟩
  intro t ht
  obtain rfl := List.mem_singleton.1 ht
  exact ⟨⟨"Handle", rfl⟩, ⟨"", rfl⟩⟩

/-- Files with the texts of such registries have no names with the same number. -/
private theorem written_handles {c : Collection} {kind : List String → TypeKind}
    (h : ∀ q, IsStored c w q → ∀ text, w.tree.find? q = some (.file text) →
      text = Document.toText (Registry.handles (kind q)) (some indentation)) :
    Written c w fun q => .handles (kind q) where
  text := h
  wellFormed _ _ := wellFormed_handles _
  names q _ t ht := by
    have hitems : (Document.typeTable (Registry.handles (kind q))).items =
        [Registry.handle (kind q)] := rfl
    rw [hitems] at ht
    obtain rfl := List.mem_singleton.1 ht
    exact ⟨⟨"Handle", rfl⟩, ⟨"", rfl⟩⟩
  types qs _ := by
    intro a ha b hb _
    obtain ⟨q, -, ha⟩ := List.mem_flatMap.1 ha
    obtain ⟨k, -, hb⟩ := List.mem_flatMap.1 hb
    rw [List.mem_singleton.1 ha, List.mem_singleton.1 hb]
    rfl
  functions qs _ := by
    intro a ha
    obtain ⟨q, -, ha⟩ := List.mem_flatMap.1 ha
    cases ha

private theorem written_doorway : Written (besides [".h"]) doorway doorRecords := by
  refine written_handles fun q hq text hfile => ?_
  have hdoor : doorway.tree.find? ["generated", "Door.reflregistry.json"] =
    some (.file (Document.toText (Registry.handles .int32) (some indentation))) := rfl
  have hown : doorway.tree.find? ["generated", "Module.reflregistry.json"] =
    some (.file (Document.toText (Registry.handles .record) (some indentation))) := rfl
  rcases stored_doorway hq with rfl | rfl
  · exact (Node.file.inj (Option.some.inj (hdoor.symm.trans hfile))).symm
  · exact (Node.file.inj (Option.some.inj (hown.symm.trans hfile))).symm

private theorem isPart_doorway {q : List String}
    (h : IsPart (besides [".h"]) doorway.site.cwd doorway.tree q) :
    q = ["generated", "Door.reflregistry.json"] := by
  rcases registry_doorway h.registry with rfl | rfl
  · rfl
  · exact absurd rfl h.other

private theorem not_stale_doorway (q : List String) :
    ¬ Stale (besides [".h"]) doorway.site.cwd doorway.tree q := by
  intro h
  obtain rfl := isPart_doorway h.part
  have hsource : doorway.tree.find? (GeneratedPath.candidate doorway.site.cwd
    (besides [".h"]).moduleDirectory [] "Door" ".h").parts = some (.file "") := by decide
  rw [h.gone [] "Door" rfl ".h" (by decide)] at hsource
  cases hsource

private theorem isRegistry_doorway (name : String) (h : name ∈ ["Door", "Module"]) :
    IsRegistry doorway.tree doorway.site.cwd (besides [".h"]).output
      ["generated", name ++ GeneratedPath.registryExtension] := by
  have hpresent : ∀ name ∈ ["Door", "Module"], doorway.tree.find?
      ["generated", name ++ GeneratedPath.registryExtension] ≠ none := by decide
  exact ⟨by decide, hpresent name h, [], name, rfl⟩

private theorem noCollisions_handles (kind : TypeKind) : (Registry.handles kind).NoCollisions where
  types := by
    intro a ha b hb _
    rw [List.mem_singleton.1 ha, List.mem_singleton.1 hb]
  functions := by simp [Registry.handles, Registry.empty, NameHash.Separates]
  fields := by simp [Registry.handles, Registry.empty]
  methods := by simp [Registry.handles, Registry.empty]

private theorem exists_read_doorway {kind : TypeKind} {p : Path}
    (h : Holds p (Document.toText (Registry.handles kind) (some indentation)) w)
    (patience : Patience) (hp : 0 < patience.attempts) :
    ∃ t, (read p .crc32 patience).run w = .ok t w := by
  obtain ⟨t, ht, -⟩ := h.read hp (wellFormed_handles kind) (Registry.coherent_handles kind)
    (noCollisions_handles kind)
  exact ⟨t, ht⟩

private theorem holds_door : Holds (.absolute ["generated", "Door.reflregistry.json"])
    (Document.toText (Registry.handles .int32) (some indentation)) doorway :=
  ⟨rfl, ⟨["generated"], rfl, rfl⟩, ["generated", "Door.reflregistry.json"], rfl, rfl⟩

private theorem holds_own : Holds (aggregatePath "Module" (.absolute ["generated"]))
    (Document.toText (Registry.handles .record) (some indentation)) doorway :=
  ⟨rfl, ⟨["generated"], rfl, rfl⟩, ["generated", "Module.reflregistry.json"], rfl, rfl⟩

private theorem free_header : Free ((Path.absolute ["generated"]).child
    ("Module" ++ GeneratedPath.moduleHeaderExtension)) doorway :=
  ⟨rfl, ⟨["generated"], rfl, rfl⟩, ["generated", "Module.reflmodule.h"], rfl, by decide⟩

private theorem free_source : Free ((Path.absolute ["generated"]).child
    ("Module" ++ GeneratedPath.moduleSourceExtension)) doorway :=
  ⟨rfl, ⟨["generated"], rfl, rfl⟩, ["generated", "Module.reflmodule.cpp"], rfl, by decide⟩

private theorem exists_gathers_doorway : ∃ files r,
    Finds doorway.tree doorway.site.cwd (besides [".h"]).output files ∧
      Gathers (besides [".h"]) doorway files (.empty .crc32) r := by
  have hmodule : (besides [".h"]).moduleDirectory.Clean := by unfold Path.Clean; decide
  have hdoor := isRegistry_doorway "Door" (by decide)
  obtain ⟨found, hsource, hsome⟩ := lookUp_of_answer (b := true) hmodule wellFormed_doorway hdoor
    (by decide)
  obtain ⟨source, rfl⟩ := Option.isSome_iff_exists.1 hsome
  obtain ⟨t, hread⟩ := exists_read_doorway holds_door Settings.defaultPatience
    (by decide)
  have hfinds : Finds doorway.tree doorway.site.cwd (besides [".h"]).output
      [.absolute ["generated", "Door.reflregistry.json"],
        .absolute ["generated", "Module.reflregistry.json"]] :=
    finds_of_sorted (by decide) (by decide) (by decide)
  exact ⟨_, _, hfinds, .part ⟨hdoor, by decide⟩ hsource hread (Registry.merge_lenient _ t)
    (.own (isRegistry_doorway "Module" (by decide)) (by decide) .nil)⟩

private theorem exists_run_doorway :
    ∃ r v, (reflectModule beside .crc32).run doorway = .ok r v := by
  have hmodule : (besides [".h"]).moduleDirectory.Clean := by unfold Path.Clean; decide
  obtain ⟨files, r, hfinds, hgathers⟩ := exists_gathers_doorway
  obtain ⟨w, hcollect, hlacks⟩ := hgathers.run_collect hmodule wellFormed_doorway
    (fun _ _ _ _ _ => not_stale_doorway _) (by decide) ⟨true, rfl⟩ hfinds
  have hsame : Same doorway w := ⟨hlacks.site, fun q => hlacks.same q (not_stale_doorway q)⟩
  have hhash : r.hash = .crc32 := by
    obtain ⟨-, rs, -, -, -, hr⟩ := hgathers.exists_stored hmodule wellFormed_doorway
    exact hr ▸ Registry.hash_foldl rs
  have hown := holds_own.of_same hsame
  obtain ⟨t, hread⟩ := exists_read_doorway hown beside.patience (by decide)
  have hcode : ∀ f ∈ Emission.moduleCode w.site.cwd r beside.moduleName beside.moduleDirectory
      beside.outputDirectory, Free f.path w := by
    intro f hf
    rcases List.mem_pair.1 hf with rfl | rfl
    · exact free_header.of_same hsame
    · exact free_source.of_same hsame
  obtain ⟨v, hemit⟩ := exists_emitModule (s := beside) rfl hown (by decide) (hhash ▸ hread) hcode
  exact ⟨r, v, (run_bind_of_ok hcollect).trans hemit⟩

/-- The registry of the door comes in on top of the older record, and again. -/
theorem reflectModule_again_doorway : beside.Resolved ∧ doorway.WellFormed ∧
    Written (collection beside .crc32) doorway doorRecords ∧
    Apart (collection beside .crc32) doorway.site.cwd doorway.tree ∧ ∃ r v,
      (reflectModule beside .crc32).run doorway = .ok r v ∧
      Clear (collection beside .crc32) doorway v ∧
      ∃ v', (reflectModule beside .crc32).run v = .ok r v' ∧ Same v v' := by
  obtain ⟨r, v, hrun⟩ := exists_run_doorway
  have hapart : Apart (collection beside .crc32) doorway.site.cwd doorway.tree :=
    fun _ _ _ _ _ => not_stale_doorway _
  have hclear := clear_of_single resolved_beside (by decide) wellFormed_doorway hapart hrun
  exact ⟨resolved_beside, wellFormed_doorway, written_doorway, hapart, r, v, hrun, hclear,
    reflectModule_again resolved_beside wellFormed_doorway written_doorway hapart hrun hclear⟩

/-! ## Modules that do not repeat -/

/-- A module without files. -/
def bare : Workspace :=
  .start ⟨[], default, []⟩ ⟨.ofList [([], .directory), (["module"], .directory),
    (["generated"], .directory)]⟩

/-- The name of the module has a directory in front that is named like a registry file. -/
def disguised : Settings := { beside with moduleName := "A.reflregistry.json/M" }

theorem resolved_disguised : disguised.Resolved :=
  ⟨resolved_beside.moduleDirectory, resolved_beside.outputDirectory⟩

theorem wellFormed_bare : bare.WellFormed := ⟨.of_keys (by decide) (by decide), by decide⟩

private theorem not_registry_bare {q : List String} :
    ¬ IsRegistry bare.tree bare.site.cwd disguised.outputDirectory q := by
  intro h
  have hmem := (mem_search_registries h.reached).2 h
  have hfound : bare.tree.search (disguised.outputDirectory.fold bare.site.cwd)
      ("*" ++ GeneratedPath.registryExtension) = [] := by decide
  rw [hfound] at hmem
  cases hmem

private theorem written_bare :
    Written (collection disguised .crc32) bare fun _ => .empty .crc32 := by
  have hstored : ∀ q, ¬ IsStored (collection disguised .crc32) bare q := by
    rintro q ⟨hregistry | rfl, text, hfile⟩
    · exact not_registry_bare hregistry
    · have hnone : bare.tree.find? ((collection disguised .crc32).own bare.site.cwd) = none := by
        decide
      rw [hnone] at hfile
      cases hfile
  have hnone : ∀ qs : List (List String),
      (∀ q ∈ qs, IsStored (collection disguised .crc32) bare q) → qs = [] := fun qs hqs =>
    List.eq_nil_iff_forall_not_mem.2 fun q hq => hstored q (hqs q hq)
  exact ⟨fun q hq => absurd hq (hstored q), fun q hq => absurd hq (hstored q),
    fun q hq => absurd hq (hstored q), fun qs hqs => hnone qs hqs ▸ nofun,
    fun qs hqs => hnone qs hqs ▸ nofun⟩

private theorem exists_run_bare : ∃ r v, (reflectModule disguised .crc32).run bare = .ok r v ∧
    v.tree.isThere (· == .directory) v.site.cwd disguised.outputDirectory = .ok true ∧
    v.tree.search ["generated"] ("*" ++ GeneratedPath.registryExtension) =
      [["generated", "A.reflregistry.json"],
        ["generated", "A.reflregistry.json", "M.reflregistry.json"]] ∧
    v.tree.find? ["generated", "A.reflregistry.json"] = some .directory := by
  have hrun : (match (reflectModule disguised .crc32).run bare with
      | .ok _ v => decide (v.tree.isThere (· == .directory) v.site.cwd
          disguised.outputDirectory = .ok true) &&
        decide (v.tree.search ["generated"] ("*" ++ GeneratedPath.registryExtension) =
          [["generated", "A.reflregistry.json"],
            ["generated", "A.reflregistry.json", "M.reflregistry.json"]]) &&
        decide (v.tree.find? ["generated", "A.reflregistry.json"] = some .directory)
      | .error _ _ => false) = true := by decide +kernel
  split at hrun
  · next r v h => exact ⟨r, v, h, by simpa [and_assoc] using hrun⟩
  · cases hrun

/-- The directory is taken for a registry file, and cannot be removed. -/
private theorem not_run_disguised {r' : Registry} {v' : Workspace}
    (h : (reflectModule disguised .crc32).run bare = .ok r v)
    (hreached : v.tree.isThere (· == .directory) v.site.cwd disguised.outputDirectory = .ok true)
    (hfound : v.tree.search ["generated"] ("*" ++ GeneratedPath.registryExtension) =
      [["generated", "A.reflregistry.json"],
        ["generated", "A.reflregistry.json", "M.reflregistry.json"]])
    (hdirectory : v.tree.find? ["generated", "A.reflregistry.json"] = some .directory) :
    (reflectModule disguised .crc32).run v ≠ .ok r' v' := by
  intro h'
  rw [reflectModule_eq] at h'
  obtain ⟨r₁, w₁, hcollect, -⟩ := run_bind_ok_iff.1 h'
  have hmodule : (collection disguised .crc32).moduleDirectory.Clean :=
    resolved_disguised.moduleDirectory.clean
  obtain ⟨hv, hsite⟩ := workspace_of_run resolved_disguised wellFormed_bare
    (fun _ _ hpart => absurd hpart.registry not_registry_bare) h
  have hpart : IsPart (collection disguised .crc32) v.site.cwd v.tree
      ["generated", "A.reflregistry.json"] := by
    refine ⟨⟨hreached, by simp [hdirectory], [], "A", rfl⟩, ?_⟩
    rw [hsite]
    decide
  refine not_run_collect_of_directory hmodule hv ?_ hpart hdirectory hcollect
  intro place stem hother e he hstale
  have hmem := (mem_search_registries hother.registry.reached).2 hother.registry
  have hown : (collection disguised .crc32).own v.site.cwd =
      ["generated", "A.reflregistry.json", "M.reflregistry.json"] := by
    rw [hsite]
    decide
  have houtput : (collection disguised .crc32).output.fold v.site.cwd = ["generated"] := rfl
  have hne := hown ▸ hother.other
  rw [houtput] at hmem hne
  rw [hfound] at hmem
  have hplace : ["generated"] ++ (place ++ [stem ++ GeneratedPath.registryExtension]) =
      ["generated"] ++ ([] ++ ["A" ++ GeneratedPath.registryExtension]) :=
    (List.mem_pair.1 hmem).resolve_right hne
  obtain ⟨rfl, rfl⟩ := registry_unique hplace
  have hcandidate : ∀ e ∈ (collection disguised .crc32).allExtensions,
      (GeneratedPath.candidate bare.site.cwd (collection disguised .crc32).moduleDirectory [] "A"
        e).parts.head? = some "module" := by decide
  obtain ⟨place, stem, heq⟩ := hstale.part.registry.named
  have hhead := hcandidate e he
  rw [hsite] at heq
  have hgenerated : some "generated" = some "module" := (heq ▸ hhead :)
  exact absurd hgenerated (by decide)

/-- A module directory that lies among the generated files. -/
def enclosed : Workspace :=
  .start ⟨[], default, []⟩ ⟨.ofList [([], .directory), (["generated"], .directory),
    (["generated", "sub"], .directory),
    (["generated", "Leaf.reflregistry.json"],
      .file (Document.toText (Registry.handles .record) (some indentation))),
    (["generated", "Module.reflregistry.json"],
      .file (Document.toText (Registry.handles .record) (some indentation))),
    (["generated", "sub", "Leaf.reflregistry.json"],
      .file (Document.toText (Registry.handles .record) (some indentation)))]⟩

/-- The registry files of the module have registry files for sources. -/
def within : Settings :=
  { beside with
    moduleDirectory := .absolute ["generated", "sub"]
    sourceExtensions := [".reflregistry.json"] }

/-- The same without the file that goes first. -/
private def reduced : Workspace := { enclosed with
  events := [.staleRegistryRemoved (.absolute ["generated", "sub", "Leaf.reflregistry.json"])]
  tree := enclosed.tree.cut ["generated", "sub", "Leaf.reflregistry.json"] }

theorem resolved_within : within.Resolved :=
  ⟨⟨rfl, by decide⟩, resolved_beside.outputDirectory⟩

theorem wellFormed_enclosed : enclosed.WellFormed := ⟨.of_keys (by decide) (by decide), by decide⟩

private theorem wellFormed_reduced : reduced.WellFormed :=
  ⟨.of_keys (by decide) (by decide), by decide⟩

private theorem registry_enclosed {q : List String}
    (h : IsRegistry enclosed.tree enclosed.site.cwd within.outputDirectory q) :
    q ∈ [["generated", "Leaf.reflregistry.json"], ["generated", "Module.reflregistry.json"],
      ["generated", "sub", "Leaf.reflregistry.json"]] := by
  have hmem := (mem_search_registries h.reached).2 h
  have hfound : enclosed.tree.search (within.outputDirectory.fold enclosed.site.cwd)
      ("*" ++ GeneratedPath.registryExtension) = [["generated", "Leaf.reflregistry.json"],
        ["generated", "Module.reflregistry.json"],
        ["generated", "sub", "Leaf.reflregistry.json"]] := by decide
  rwa [hfound] at hmem

private theorem written_enclosed :
    Written (collection within .crc32) enclosed fun _ => .handles .record := by
  refine written_handles fun q hq text hfile => ?_
  have hplaces : ∀ q ∈ [["generated", "Leaf.reflregistry.json"],
      ["generated", "Module.reflregistry.json"], ["generated", "sub", "Leaf.reflregistry.json"]],
      enclosed.tree.find? q =
        some (.file (Document.toText (Registry.handles .record) (some indentation))) := by
    simp only [List.forall_mem_cons]
    exact ⟨rfl, rfl, rfl, nofun⟩
  have hmem : q ∈ [["generated", "Leaf.reflregistry.json"],
      ["generated", "Module.reflregistry.json"],
      ["generated", "sub", "Leaf.reflregistry.json"]] := by
    rcases hq.registry with hregistry | rfl
    · exact registry_enclosed hregistry
    · decide
  exact (Node.file.inj (Option.some.inj ((hplaces q hmem).symm.trans hfile))).symm

/-- The file below the module directory goes, and the other one had it for a source. -/
private theorem run_collect_enclosed :
    ∃ r, (collect (collection within .crc32)).run enclosed = .ok r reduced ∧ r.hash = .crc32 := by
  have hmodule := resolved_within.moduleDirectory.clean
  have hleaf : IsRegistry enclosed.tree enclosed.site.cwd within.outputDirectory
      ["generated", "Leaf.reflregistry.json"] := ⟨by decide, by decide, [], "Leaf", rfl⟩
  have hown : IsRegistry enclosed.tree enclosed.site.cwd within.outputDirectory
      ["generated", "Module.reflregistry.json"] := ⟨by decide, by decide, [], "Module", rfl⟩
  have hsub : IsRegistry enclosed.tree enclosed.site.cwd within.outputDirectory
      ["generated", "sub", "Leaf.reflregistry.json"] := ⟨by decide, by decide, ["sub"], "Leaf", rfl⟩
  obtain ⟨found, hsource, hsome⟩ := lookUp_of_answer (c := collection within .crc32) (b := true)
    hmodule wellFormed_enclosed hleaf (by decide)
  obtain ⟨found', hnone, hnot⟩ := lookUp_of_answer (c := collection within .crc32) (b := false)
    hmodule wellFormed_enclosed hsub (by decide)
  obtain rfl : found' = none := by simpa using hnot
  have hholds : Holds (.absolute ["generated", "Leaf.reflregistry.json"])
      (Document.toText (Registry.handles .record) (some indentation)) enclosed :=
    ⟨rfl, ⟨["generated"], rfl, rfl⟩, ["generated", "Leaf.reflregistry.json"], rfl, rfl⟩
  obtain ⟨t, hread⟩ := exists_read_doorway hholds Settings.defaultPatience
    (by decide)
  have hfinds : Finds enclosed.tree enclosed.site.cwd within.outputDirectory
      [.absolute ["generated", "Leaf.reflregistry.json"],
        .absolute ["generated", "Module.reflregistry.json"],
        .absolute ["generated", "sub", "Leaf.reflregistry.json"]] :=
    finds_of_sorted (by decide) (by decide) (by decide)
  have hfirst := run_collectFile_live (c := collection within .crc32) (r := .empty .crc32)
    wellFormed_enclosed hleaf (by decide) hsource hsome hread (Registry.merge_lenient _ t)
  have hsecond := run_collectFile_own (c := collection within .crc32)
    (r := (Registry.empty .crc32).union t) wellFormed_enclosed hown (by decide)
  have hthird := run_collectFile_stale (c := collection within .crc32)
    (r := (Registry.empty .crc32).union t) wellFormed_enclosed hsub (by decide) hnone rfl (by decide)
  refine ⟨(Registry.empty .crc32).union t, ?_, rfl⟩
  rw [run_collect_of_finds (c := collection within .crc32) wellFormed_enclosed (by decide)
    ⟨true, rfl⟩ hfinds, List.foldlM_cons]
  refine (run_bind_of_ok hfirst).trans ?_
  rw [List.foldlM_cons]
  refine (run_bind_of_ok hsecond).trans ?_
  rw [List.foldlM_cons]
  exact run_bind_of_ok hthird

private theorem exists_emitModule_reduced (h : r.hash = .crc32) :
    ∃ v, (emitModule within r).run reduced = .ok r v := by
  have hown : Holds (aggregatePath "Module" (.absolute ["generated"]))
      (Document.toText (Registry.handles .record) (some indentation)) reduced :=
    ⟨rfl, ⟨["generated"], rfl, rfl⟩, ["generated", "Module.reflregistry.json"], rfl, rfl⟩
  obtain ⟨t, hread⟩ := exists_read_doorway hown within.patience (by decide)
  refine exists_emitModule (s := within) rfl hown (by decide) (h ▸ hread) fun f hf => ?_
  rcases List.mem_pair.1 hf with rfl | rfl
  · exact ⟨rfl, ⟨["generated"], rfl, rfl⟩, ["generated", "Module.reflmodule.h"], rfl, by decide⟩
  · exact ⟨rfl, ⟨["generated"], rfl, rfl⟩, ["generated", "Module.reflmodule.cpp"], rfl, by decide⟩

private theorem isPart_reduced {q : List String}
    (h : IsPart (collection within .crc32) reduced.site.cwd reduced.tree q) :
    q = ["generated", "Leaf.reflregistry.json"] := by
  have hmem := (mem_search_registries h.registry.reached).2 h.registry
  have hfound : reduced.tree.search ((collection within .crc32).output.fold reduced.site.cwd)
      ("*" ++ GeneratedPath.registryExtension) = [["generated", "Leaf.reflregistry.json"],
        ["generated", "Module.reflregistry.json"]] := by decide
  rw [hfound] at hmem
  exact (List.mem_pair.1 hmem).resolve_right h.other

/-- After the code of the module was written, the other file has no source. -/
private theorem stale_reduced (h : (emitModule within r).run reduced = .ok r v) :
    v.WellFormed ∧ Apart (collection within .crc32) v.site.cwd v.tree ∧
      Stale (collection within .crc32) v.site.cwd v.tree ["generated", "Leaf.reflregistry.json"] := by
  have hsingle : '/' ∉ within.moduleName.toList := by decide
  obtain ⟨-, hv, hemits, -⟩ := emitted_of_run resolved_within wellFormed_reduced h
  have hclear : Clear (collection within .crc32) reduced v :=
    clear_of_emitModule resolved_within hsingle wellFormed_reduced h
  have hpart := fun q => isPart_iff_of_emits (q := q) (c := collection within .crc32)
    resolved_within.outputDirectory wellFormed_reduced hemits
    (foreign_modulePlaces within .crc32 _) ⟨true, rfl⟩ hclear
  have hcandidates : ∀ e ∈ (collection within .crc32).allExtensions,
      (GeneratedPath.candidate reduced.site.cwd (collection within .crc32).moduleDirectory [] "Leaf"
          e).parts ∉ modulePlaces within reduced.site.cwd ∧
        reduced.tree.find? (GeneratedPath.candidate reduced.site.cwd
          (collection within .crc32).moduleDirectory [] "Leaf" e).parts = none ∧
        ¬ (GeneratedPath.candidate reduced.site.cwd (collection within .crc32).moduleDirectory []
          "Leaf" e).parts <+: within.outputDirectory.parts := by decide
  have hplace : ∀ {place : List String} {stem : String},
      ["generated", "Leaf.reflregistry.json"] =
        (collection within .crc32).output.fold v.site.cwd ++
          (place ++ [stem ++ GeneratedPath.registryExtension]) → place = [] ∧ stem = "Leaf" :=
    fun he => @registry_unique _ _ [] _ "Leaf" he.symm
  refine ⟨hv, ?_, (hpart _).2 ⟨⟨by decide, by decide, [], "Leaf", rfl⟩, by decide⟩, ?_⟩
  · intro place stem hother e he hstale
    obtain ⟨rfl, rfl⟩ := hplace (isPart_reduced ((hpart _).1 hother)).symm
    have hne : ∀ e ∈ (collection within .crc32).allExtensions,
        (GeneratedPath.candidate reduced.site.cwd (collection within .crc32).moduleDirectory []
          "Leaf" e).parts ≠ ["generated", "Leaf.reflregistry.json"] := by decide
    refine hne e he ?_
    have hleaf := isPart_reduced ((hpart _).1 hstale.part)
    rwa [hemits.site] at hleaf
  · intro place stem he e hmem
    obtain ⟨rfl, rfl⟩ := hplace he
    obtain ⟨hother, hnone, hbeside⟩ := hcandidates e hmem
    rw [hemits.site]
    rcases hemits.other _ hother with hsame | ⟨-, hdirectory⟩
    · exact hsame.trans hnone
    · rcases directories_of_emitModule resolved_within hsingle h hdirectory with hd | hprefix
      · rw [hnone] at hd
        cases hd
      · exact absurd hprefix hbeside

/-- Then it goes. -/
private theorem not_same_reduced {r' : Registry} {v' : Workspace}
    (h : (emitModule within r).run reduced = .ok r v)
    (h' : (reflectModule within .crc32).run v = .ok r' v') : ¬ Same v v' := by
  intro hsame
  obtain ⟨-, -, hemits, -⟩ := emitted_of_run resolved_within wellFormed_reduced h
  obtain ⟨hv, hapart, hstale⟩ := stale_reduced h
  rw [reflectModule_eq] at h'
  obtain ⟨r₁, w₁, hcollect, hemit⟩ := run_bind_ok_iff.1 h'
  obtain ⟨hlacks, -⟩ := settled_of_run_collect resolved_within.moduleDirectory.clean hv hapart
    hcollect
  obtain ⟨rfl, -, hemits', -⟩ := emitted_of_run resolved_within (hlacks.wellFormed hv) hemit
  have hother : ["generated", "Leaf.reflregistry.json"] ∉ modulePlaces within reduced.site.cwd := by
    decide
  have hfile : v.tree.find? ["generated", "Leaf.reflregistry.json"] =
      some (.file (Document.toText (Registry.handles .record) (some indentation))) :=
    hemits.of_found hother rfl
  have hother' := hother
  rw [← hemits.site, ← hlacks.site] at hother'
  have hgone := hlacks.gone _ hstale
  rcases hemits'.other _ hother' with hsame' | ⟨-, hdirectory⟩
  · rw [hsame.find?, hgone, hfile] at hsame'
    cases hsame'
  · rw [hsame.find?, hfile] at hdirectory
    cases hdirectory

/-- A directory that is made on the way to the files of the module and is named like a registry file
stops the pass the next time; and when a registry file is the source of another one and goes, the
other one goes the next time. -/
theorem not_reflectModule_again_bare_enclosed :
    (disguised.Resolved ∧ bare.WellFormed ∧
      Written (collection disguised .crc32) bare (fun _ => .empty .crc32) ∧
      ∃ r v, (reflectModule disguised .crc32).run bare = .ok r v ∧
        ∀ r' v', (reflectModule disguised .crc32).run v ≠ .ok r' v') ∧
    within.Resolved ∧ enclosed.WellFormed ∧
      Written (collection within .crc32) enclosed (fun _ => .handles .record) ∧
      ∃ r v, (reflectModule within .crc32).run enclosed = .ok r v ∧
        ∀ r' v', (reflectModule within .crc32).run v = .ok r' v' → ¬ Same v v' := by
  obtain ⟨r, v, hrun, hreached, hfound, hdirectory⟩ := exists_run_bare
  refine ⟨⟨resolved_disguised, wellFormed_bare, written_bare, r, v, hrun, fun r' v' =>
    not_run_disguised hrun hreached hfound hdirectory⟩, resolved_within, wellFormed_enclosed,
    written_enclosed, ?_⟩
  obtain ⟨r, hcollect, hhash⟩ := run_collect_enclosed
  obtain ⟨v, hemit⟩ := exists_emitModule_reduced hhash
  exact ⟨r, v, (run_bind_of_ok hcollect).trans hemit, fun r' v' => not_same_reduced hemit⟩

end Introspect.Pass
