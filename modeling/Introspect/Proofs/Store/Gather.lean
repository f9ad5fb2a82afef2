import Introspect.Proofs.Registry.Merge
import Introspect.Proofs.Store.Source

/-! What one registry file after another comes to: which of them are removed, and which are read and
put together. -/
namespace Introspect.Store
open FileTree Job GeneratedPath

variable {c : Collection} {w v v' : Workspace} {t : FileTree} {cwd q : List String}
  {files : List Path} {r r' : Registry} {D : List String → Prop} {found : Option Path}

/-! ## Registry files and their sources -/

/-- Where the registry of the module is. -/
def Collection.own (c : Collection) (cwd : List String) : List String :=
  (aggregatePath c.moduleName c.output).fold cwd

/-- The path by which a collection comes upon a registry file. -/
def Collection.path (c : Collection) (cwd q : List String) : Path := beneath cwd c.output q

/-- A registry file below the output directory, other than that of the module. -/
structure IsPart (c : Collection) (cwd : List String) (t : FileTree) (q : List String) : Prop where
  registry : IsRegistry t cwd c.output q
  other : q ≠ c.own cwd

/-- Nothing is left where a source of the registry file could be. -/
def Gone (c : Collection) (cwd : List String) (t : FileTree) (q : List String) : Prop :=
  ∀ place stem, q = c.output.fold cwd ++ (place ++ [stem ++ registryExtension]) →
    ∀ e ∈ c.allExtensions, t.find? (candidate cwd c.moduleDirectory place stem e).parts = none

/-- A registry file other than that of the module whose source is gone. -/
structure Stale (c : Collection) (cwd : List String) (t : FileTree) (q : List String) : Prop where
  part : IsPart c cwd t q
  gone : Gone c cwd t q

/-- No source of a registry file is itself a registry file whose source is gone. -/
def Apart (c : Collection) (cwd : List String) (t : FileTree) : Prop :=
  ∀ place stem, IsPart c cwd t (c.output.fold cwd ++ (place ++ [stem ++ registryExtension])) →
    ∀ e ∈ c.allExtensions, ¬ Stale c cwd t (candidate cwd c.moduleDirectory place stem e).parts

/-- Looks for the source of a registry file. -/
def Collection.lookUp (c : Collection) (cwd q : List String) : Job (Option Path) :=
  sourceOf? (c.path cwd q) c.moduleDirectory c.output registryExtension c.allExtensions

theorem registry_unique {front place place' : List String} {stem stem' : String}
    (h : front ++ (place ++ [stem ++ registryExtension]) =
      front ++ (place' ++ [stem' ++ registryExtension])) : place = place' ∧ stem = stem' := by
  obtain ⟨hplace, hname⟩ := List.append_inj' (List.append_cancel_left h) rfl
  exact ⟨hplace, String.append_left_inj _ |>.1 (List.singleton_inj.1 hname)⟩

theorem IsRegistry.names (ht : t.WellFormed) {output : Path} {front place : List String}
    {name : String} (h : IsRegistry t cwd output (front ++ (place ++ [name]))) :
    ∀ s ∈ place, Path.IsName s := fun s hs =>
  (ht.names _ h.present s (List.mem_append_right _ (List.mem_append_left _ hs))).1

theorem run_lookUp_ok_iff (hw : w.WellFormed) {place : List String} {stem : String}
    (hq : IsRegistry w.tree w.site.cwd c.output q)
    (he : q = c.output.fold w.site.cwd ++ (place ++ [stem ++ registryExtension])) :
    (c.lookUp w.site.cwd q).run w = .ok found v ↔
      ((c.allExtensions.map (candidate w.site.cwd c.moduleDirectory place stem)).findM?
        (hasSource c.moduleDirectory)).run w = .ok found v := by
  have hplace := (he ▸ hq).names hw.tree
  have hfold : (c.path w.site.cwd q).fold w.site.cwd =
      c.output.fold w.site.cwd ++ (place ++ [stem ++ registryExtension]) :=
    (hq.fold_beneath hw.tree).trans he
  rw [Collection.lookUp, run_sourceOf?_ok_iff hw hplace hfold, Collection.path]
  simp [hq.hasNull_beneath hw.tree, hasNull_of_isThere hw.tree hq.reached]

/-- What the lookup of a registry file's source says about the file. -/
theorem gone_of_lookUp (hmodule : c.moduleDirectory.Clean) (hw : w.WellFormed)
    (hq : IsRegistry w.tree w.site.cwd c.output q)
    (h : (c.lookUp w.site.cwd q).run w = .ok found v) :
    v = w ∧ (found = none ↔ Gone c w.site.cwd w.tree q) := by
  obtain ⟨place, stem, rfl⟩ := hq.named
  have hfold := hq.fold_beneath hw.tree
  obtain ⟨rfl, hleads⟩ := leadsTo_of_sourceOf? hw hmodule (hq.names hw.tree) hfold h
  refine ⟨rfl, ?_⟩
  cases hleads with
  | nowhere absent =>
    refine iff_of_true rfl fun place' stem' he => ?_
    obtain ⟨rfl, rfl⟩ := registry_unique he
    exact absent
  | source mem present => exact iff_of_false nofun fun hgone => present (hgone _ _ rfl _ mem)

/-! ## Files that went -/

/-- A workspace in which some registry files are gone that had no source. -/
structure Lacks (c : Collection) (w v : Workspace) (D : List String → Prop) : Prop where
  site : v.site = w.site
  stale : ∀ q, D q → Stale c w.site.cwd w.tree q ∧ w.tree.find? q ≠ some .directory
  gone : ∀ q, D q → v.tree.find? q = none
  same : ∀ q, ¬ D q → v.tree.find? q = w.tree.find? q

theorem Lacks.refl (c : Collection) (w : Workspace) : Lacks c w w fun _ => False :=
  ⟨rfl, nofun, nofun, fun _ _ => rfl⟩

namespace Lacks
variable (h : Lacks c w v D)
include h

theorem congr {D' : List String → Prop} (hD : ∀ q, D q ↔ D' q) : Lacks c w v D' := by
  obtain rfl : D = D' := funext fun q => propext (hD q)
  exact h

/-- One more file is gone that had no source. -/
theorem cut (hstale : Stale c w.site.cwd w.tree q) (hfile : w.tree.find? q ≠ some .directory)
    (es : List Event) :
    Lacks c w { v with events := es, tree := v.tree.cut q } fun k => D k ∨ k = q where
  site := h.site
  stale := by
    rintro k (hk | rfl)
    exacts [h.stale k hk, ⟨hstale, hfile⟩]
  gone := by
    rintro k (hk | rfl)
    · rw [find?_cut, h.gone k hk, ite_self]
    · rw [find?_cut, if_pos rfl]
  same := by
    intro k hk
    obtain ⟨hD, hne⟩ := not_or.1 hk
    rw [find?_cut, if_neg (Ne.symm hne), h.same k hD]

theorem directories (p : List String) :
    w.tree.find? p = some .directory ↔ v.tree.find? p = some .directory := by
  by_cases hp : D p
  · simp [h.gone p hp, (h.stale p hp).2]
  · rw [h.same p hp]

theorem wellFormed (hw : w.WellFormed) : v.WellFormed := by
  have hfound : ∀ q, v.tree.find? q ≠ none → w.tree.find? q ≠ none := by
    intro q hq
    by_cases hD : D q
    · exact absurd (h.gone q hD) hq
    · rwa [← h.same q hD]
  refine ⟨⟨(h.directories _).1 hw.tree.top, fun p name hname => ?_, fun p hp => ?_, fun p hp => ?_⟩,
    h.site ▸ hw.cwd⟩
  · exact (h.directories p).1 (hw.tree.parent p name (hfound _ hname))
  · exact hw.tree.names p (hfound p hp)
  · exact hw.tree.short p (hfound p hp)

private theorem locate {p : Path} {place : List String} :
    v.tree.locate w.site.cwd p = .ok place ↔ w.tree.locate w.site.cwd p = .ok place :=
  ⟨locate_mono fun p => (h.directories p).2, locate_mono fun p => (h.directories p).1⟩

private theorem isDirectory {p : Path} : v.tree.isThere (· == .directory) w.site.cwd p =
    w.tree.isThere (· == .directory) w.site.cwd p := by
  refine isThere_eq_of_directories h.directories fun q _ => Bool.eq_iff_iff.2 ?_
  simpa [Option.any_eq_true] using (h.directories q).symm

theorem run_isDirectory {p : Path} {b : Bool} (hrun : (Job.isDirectory p).run w = .ok b w) :
    (Job.isDirectory p).run v = .ok b v := by
  cases hnull : p.hasNull with
  | true =>
    rw [Job.isDirectory, Job.isThere, if_pos hnull] at hrun ⊢
    cases hrun
    rfl
  | false =>
    refine (run_isThere_ok_iff hnull).2 ⟨?_, rfl⟩
    rw [h.site, h.isDirectory]
    exact ((run_isThere_ok_iff hnull).1 hrun).1

theorem registry_iff : IsRegistry v.tree v.site.cwd c.output q ↔
    IsRegistry w.tree w.site.cwd c.output q ∧ ¬ D q := by
  rw [h.site]
  constructor
  · rintro ⟨hreached, hpresent, hnamed⟩
    have hD : ¬ D q := fun hD => hpresent (h.gone q hD)
    exact ⟨⟨h.isDirectory ▸ hreached, h.same q hD ▸ hpresent, hnamed⟩, hD⟩
  · rintro ⟨⟨hreached, hpresent, hnamed⟩, hD⟩
    exact ⟨h.isDirectory.trans hreached, (h.same q hD).trans_ne hpresent, hnamed⟩

theorem isPart_iff : IsPart c v.site.cwd v.tree q ↔ IsPart c w.site.cwd w.tree q ∧ ¬ D q := by
  constructor
  · rintro ⟨hregistry, hother⟩
    obtain ⟨hregistry, hD⟩ := h.registry_iff.1 hregistry
    exact ⟨⟨hregistry, h.site ▸ hother⟩, hD⟩
  · rintro ⟨⟨hregistry, hother⟩, hD⟩
    exact ⟨h.registry_iff.2 ⟨hregistry, hD⟩, h.site ▸ hother⟩

/-- What is still there is read as before. -/
theorem read {hash : NameHash} {patience : Patience} {s : Registry} (hw : w.WellFormed)
    (hq : IsRegistry w.tree w.site.cwd c.output q) (hD : ¬ D q) :
    (Store.read (c.path w.site.cwd q) hash patience).run v = .ok s v ↔
      (Store.read (c.path w.site.cwd q) hash patience).run w = .ok s w := by
  have hread : ∀ text, v.tree.read v.site.cwd (c.path w.site.cwd q) = .ok text ↔
      w.tree.read w.site.cwd (c.path w.site.cwd q) = .ok text := by
    intro text
    simp only [read_eq_ok_iff, h.site, h.locate]
    refine exists_congr fun place => and_congr_right fun hplace => ?_
    have hq' : place = q := (locate_ok hplace).trans (hq.fold_beneath hw.tree)
    rw [hq', h.same q hD]
  simp only [run_read_ok_iff, hread, true_and]

/-- Where nothing that could be its source has gone, a registry file has the source that it had. -/
theorem lookUp (hmodule : c.moduleDirectory.Clean) (hw : w.WellFormed)
    (hapart : Apart c w.site.cwd w.tree) (hq : IsPart c w.site.cwd w.tree q) (hD : ¬ D q) :
    (c.lookUp v.site.cwd q).run v = .ok found v ↔ (c.lookUp w.site.cwd q).run w = .ok found w := by
  have hqv := (h.registry_iff.2 ⟨hq.registry, hD⟩)
  obtain ⟨place, stem, he⟩ := hq.registry.named
  have hplace := (he ▸ hq.registry).names hw.tree
  have hsame : ∀ p ∈ c.allExtensions.map (candidate w.site.cwd c.moduleDirectory place stem),
      ∀ b, (hasSource c.moduleDirectory p).run v = .ok b v ↔
        (hasSource c.moduleDirectory p).run w = .ok b w := by
    intro p hp b
    obtain ⟨e, hmem, rfl⟩ := List.mem_map.1 hp
    have hkept : ¬ D (candidate w.site.cwd c.moduleDirectory place stem e).parts := fun hD =>
      hapart place stem (he ▸ hq) e hmem (h.stale _ hD).1
    have hthere : v.tree.isThere (fun _ => true) v.site.cwd
          (candidate w.site.cwd c.moduleDirectory place stem e) =
        w.tree.isThere (fun _ => true) w.site.cwd
          (candidate w.site.cwd c.moduleDirectory place stem e) := by
      rw [h.site]
      refine isThere_eq_of_directories h.directories fun k hk => ?_
      rw [(locate_straight (straight_candidate hw.names hmodule hplace stem e) hk).1,
        h.same _ hkept]
    rw [run_hasSource_ok_iff, run_hasSource_ok_iff, hthere]
    simp only [and_true]
  rw [run_lookUp_ok_iff (h.wellFormed hw) hqv (h.site.symm ▸ he), run_lookUp_ok_iff hw hq.registry he,
    h.site]
  constructor
  · exact run_findM?_congr hasSource_still fun p hp b => (hsame p hp b).1
  · exact run_findM?_congr hasSource_still fun p hp b => (hsame p hp b).2

end Lacks

/-! ## One file after another -/

/-- What is made of some registry files, one after another, as they were before the first: that of
the module is passed over, one without a source goes, and any other is read and merged. -/
inductive Gathers (c : Collection) (w : Workspace) : List Path → Registry → Registry → Prop where
  | nil {r : Registry} : Gathers c w [] r r
  | own {q : List String} {files : List Path} {r r' : Registry}
      (registry : IsRegistry w.tree w.site.cwd c.output q) (own : q = c.own w.site.cwd)
      (rest : Gathers c w files r r') : Gathers c w (c.path w.site.cwd q :: files) r r'
  | stale {q : List String} {files : List Path} {r r' : Registry}
      (stale : Stale c w.site.cwd w.tree q)
      (source : (c.lookUp w.site.cwd q).run w = .ok none w)
      (leads : w.tree.locate w.site.cwd (c.path w.site.cwd q) = .ok q)
      (file : w.tree.find? q ≠ some .directory)
      (rest : Gathers c w files r r') : Gathers c w (c.path w.site.cwd q :: files) r r'
  | part {q : List String} {files : List Path} {r r₁ r' s : Registry} {source : Path}
      (part : IsPart c w.site.cwd w.tree q)
      (source : (c.lookUp w.site.cwd q).run w = .ok (some source) w)
      (read : (read (c.path w.site.cwd q) c.hash Settings.defaultPatience).run w = .ok s w)
      (merge : r.merge s c.strict = (r₁, none))
      (rest : Gathers c w files r₁ r') : Gathers c w (c.path w.site.cwd q :: files) r r'

private theorem run_mergeFile_ok_iff {file : Path} : (mergeFile c r file).run w = .ok r' v ↔
    ∃ s, (read file c.hash Settings.defaultPatience).run w = .ok s w ∧
      r.merge s c.strict = (r', none) ∧ v = w := by
  constructor
  · intro h
    obtain ⟨s, w₁, hread, hrest⟩ := run_bind_ok_iff.1 h
    obtain ⟨-, -, rfl, -⟩ := run_read_ok_iff.1 hread
    split at hrest
    · next merged hmerge =>
      cases hrest
      exact ⟨s, hread, hmerge, rfl⟩
    · cases hrest
  · rintro ⟨s, hread, hmerge, rfl⟩
    rw [mergeFile, run_bind_of_ok hread, hmerge]
    rfl

section one
variable (hw : w.WellFormed) (hq : IsRegistry w.tree w.site.cwd c.output q)
include hw hq

private theorem sameAs_own_iff : (c.path w.site.cwd q).sameAs w.site.cwd
    (aggregatePath c.moduleName c.output) = true ↔ q = c.own w.site.cwd := by
  rw [Path.sameAs, Collection.path, hq.fold_beneath hw.tree, beq_iff_eq, Collection.own]

/-- The registry file of the module is passed over. -/
theorem run_collectFile_own (hown : q = c.own w.site.cwd) :
    (collectFile c r (c.path w.site.cwd q)).run w = .ok r w := by
  rw [collectFile, run_bind_of_ok run_cwd, if_pos ((sameAs_own_iff hw hq).2 hown)]
  rfl

private theorem run_collectFile_part (hother : q ≠ c.own w.site.cwd)
    (h : (c.lookUp w.site.cwd q).run w = .ok found w) :
    (collectFile c r (c.path w.site.cwd q)).run w =
      if found.isSome then (mergeFile c r (c.path w.site.cwd q)).run w
      else (dropFile r (c.path w.site.cwd q)).run w :=
  run_collectFile (Bool.not_eq_true _ ▸ mt (sameAs_own_iff hw hq).1 hother) h

/-- Where a registry file other than that of the module was dealt with, its source was looked up. -/
theorem exists_of_run_collectFile (hmodule : c.moduleDirectory.Clean)
    (hother : q ≠ c.own w.site.cwd)
    (h : (collectFile c r (c.path w.site.cwd q)).run w = .ok r' v) :
    ∃ found, (c.lookUp w.site.cwd q).run w = .ok found w := by
  rw [collectFile, run_bind_of_ok run_cwd, if_neg (mt (sameAs_own_iff hw hq).1 hother)] at h
  obtain ⟨found, w₁, hsource, -⟩ := run_bind_ok_iff.1 h
  obtain ⟨rfl, -⟩ := gone_of_lookUp hmodule hw hq hsource
  exact ⟨found, hsource⟩

/-- A registry file that is there is removed where its path leads to it, and nothing else changes. -/
private theorem run_dropFile_iff : (dropFile r (c.path w.site.cwd q)).run w = .ok r' v ↔
    r' = r ∧ w.tree.locate w.site.cwd (c.path w.site.cwd q) = .ok q ∧
      w.tree.find? q ≠ some .directory ∧
      v = { w with
        events := w.events ++ [.staleRegistryRemoved (c.path w.site.cwd q)]
        tree := w.tree.cut q } := by
  have hlocate := hq.locate_beneath hw.tree
  have hfound : ∀ p, w.tree.locate w.site.cwd (c.path w.site.cwd q) ≠ .error (.notFound p) := by
    intro p he
    rw [Collection.path, hlocate] at he
    split at he <;> cases he
  have hknown : (c.path w.site.cwd q).hasNull = false := hq.hasNull_beneath hw.tree
  simp only [run_dropFile_ok_iff, remove_eq_ok_iff hfound, hknown, true_and]
  refine and_congr_right fun _ => ⟨?_, ?_⟩
  · rintro ⟨t, ⟨place, hplace, hfile, rfl⟩, rfl⟩
    obtain rfl : place = q := (locate_ok hplace).trans (hq.fold_beneath hw.tree)
    exact ⟨hplace, hfile, rfl⟩
  · rintro ⟨hleads, hfile, rfl⟩
    exact ⟨_, ⟨q, hleads, hfile, rfl⟩, rfl⟩

/-- A registry file without a source goes. -/
theorem run_collectFile_stale (hother : q ≠ c.own w.site.cwd)
    (hsource : (c.lookUp w.site.cwd q).run w = .ok none w)
    (hleads : w.tree.locate w.site.cwd (c.path w.site.cwd q) = .ok q)
    (hfile : w.tree.find? q ≠ some .directory) :
    (collectFile c r (c.path w.site.cwd q)).run w = .ok r { w with
      events := w.events ++ [.staleRegistryRemoved (c.path w.site.cwd q)]
      tree := w.tree.cut q } := by
  rw [run_collectFile_part hw hq hother hsource, if_neg (by simp), run_dropFile_iff hw hq]
  exact ⟨rfl, hleads, hfile, rfl⟩

/-- A registry file with a source is read and merged. -/
theorem run_collectFile_live {s : Registry} (hother : q ≠ c.own w.site.cwd)
    (hsource : (c.lookUp w.site.cwd q).run w = .ok found w) (hsome : found.isSome = true)
    (hread : (read (c.path w.site.cwd q) c.hash Settings.defaultPatience).run w = .ok s w)
    (hmerge : r.merge s c.strict = (r', none)) :
    (collectFile c r (c.path w.site.cwd q)).run w = .ok r' w := by
  rw [run_collectFile_part hw hq hother hsource, if_pos hsome, run_mergeFile_ok_iff]
  exact ⟨s, hread, hmerge, rfl⟩

end one

theorem path_injective (hw : w.WellFormed) {k : List String}
    (hq : IsRegistry w.tree w.site.cwd c.output q) (hk : IsRegistry w.tree w.site.cwd c.output k)
    (h : c.path w.site.cwd k = c.path w.site.cwd q) : k = q := by
  rw [← hk.fold_beneath hw.tree, ← hq.fold_beneath hw.tree]
  exact congrArg (Path.fold w.site.cwd) h

/-- When all registry files without a source are gone, none of the others has lost its own. -/
theorem Lacks.not_stale (hv : Lacks c w v fun q => Stale c w.site.cwd w.tree q)
    (hapart : Apart c w.site.cwd w.tree) (q : List String) :
    ¬ Stale c v.site.cwd v.tree q := by
  rintro ⟨hpart, hgone⟩
  obtain ⟨hpart, hlive⟩ := hv.isPart_iff.1 hpart
  refine hlive ⟨hpart, fun place stem he e hmem => ?_⟩
  rw [← hv.same _ (hapart place stem (he ▸ hpart) e hmem)]
  have hgone' := hgone place stem (hv.site.symm ▸ he) e hmem
  rwa [hv.site] at hgone'

section all
variable (hmodule : c.moduleDirectory.Clean) (hw : w.WellFormed)
  (hapart : Apart c w.site.cwd w.tree)
include hmodule hw hapart

/-- The files are put together alike where some that had no source are gone, none of them among
those to come. -/
theorem Gathers.run (h : Gathers c w files r r') (hnodup : files.Nodup) (hv : Lacks c w v D)
    (hcome : ∀ k, D k → c.path w.site.cwd k ∉ files) :
    ∃ v', (files.foldlM (collectFile c) r).run v = .ok r' v' ∧ Lacks c w v' fun k =>
      D k ∨ c.path w.site.cwd k ∈ files ∧ Stale c w.site.cwd w.tree k := by
  induction h generalizing v D with
  | nil => exact ⟨v, rfl, hv.congr (by simp)⟩
  | @own q files r r' hq hown rest ih =>
    obtain ⟨hnew, hrestnodup⟩ := List.nodup_cons.1 hnodup
    have hD : ¬ D q := fun hD => hcome q hD (List.mem_cons_self ..)
    have hstep := run_collectFile_own (r := r) (hv.wellFormed hw) (hv.registry_iff.2 ⟨hq, hD⟩)
      (hv.site ▸ hown)
    rw [hv.site] at hstep
    obtain ⟨v', hrun, hv'⟩ := ih hrestnodup hv fun k hk hmem =>
      hcome k hk (List.mem_cons_of_mem _ hmem)
    refine ⟨v', by rw [List.foldlM_cons, run_bind_of_ok hstep, hrun], hv'.congr fun k => ?_⟩
    refine or_congr_right (and_congr_left fun hk => ?_)
    rw [List.mem_cons, or_iff_right]
    exact fun he => hk.part.other (path_injective hw hq hk.part.registry he ▸ hown)
  | @stale q files r r' hstale source leads file rest ih =>
    obtain ⟨hnew, hrestnodup⟩ := List.nodup_cons.1 hnodup
    have hD : ¬ D q := fun hD => hcome q hD (List.mem_cons_self ..)
    have hpart := hv.isPart_iff.2 ⟨hstale.part, hD⟩
    have hpath : c.path v.site.cwd q = c.path w.site.cwd q := by rw [hv.site]
    have hstep := run_collectFile_stale (r := r) (hv.wellFormed hw) hpart.registry hpart.other
      ((hv.lookUp hmodule hw hapart hstale.part hD).2 source)
      (by rw [hv.site, hv.locate]; exact leads) (hv.same q hD ▸ file)
    rw [hpath] at hstep
    have hcut := hv.cut hstale file (v.events ++ [.staleRegistryRemoved (c.path w.site.cwd q)])
    have hcome' : ∀ k, D k ∨ k = q → c.path w.site.cwd k ∉ files := by
      rintro k (hk | rfl)
      exacts [fun hmem => hcome k hk (List.mem_cons_of_mem _ hmem), hnew]
    obtain ⟨v', hrun, hv'⟩ := ih hrestnodup hcut hcome'
    refine ⟨v', by rw [List.foldlM_cons, run_bind_of_ok hstep, hrun], hv'.congr fun k => ?_⟩
    rw [or_assoc, List.mem_cons, or_and_right]
    refine or_congr_right (or_congr_left ⟨?_, ?_⟩)
    · rintro rfl
      exact ⟨rfl, hstale⟩
    · rintro ⟨he, hk⟩
      exact path_injective hw hstale.part.registry hk.part.registry he
  | @part q files r r₁ r' s found part source read merge rest ih =>
    obtain ⟨hnew, hrestnodup⟩ := List.nodup_cons.1 hnodup
    have hD : ¬ D q := fun hD => hcome q hD (List.mem_cons_self ..)
    have hpart := hv.isPart_iff.2 ⟨part, hD⟩
    have hpath : c.path v.site.cwd q = c.path w.site.cwd q := by rw [hv.site]
    have hstep := run_collectFile_live (hv.wellFormed hw) hpart.registry hpart.other
      ((hv.lookUp hmodule hw hapart part hD).2 source) rfl
      (hpath ▸ (hv.read hw part.registry hD).2 read) merge
    rw [hpath] at hstep
    obtain ⟨v', hrun, hv'⟩ := ih hrestnodup hv fun k hk hmem =>
      hcome k hk (List.mem_cons_of_mem _ hmem)
    refine ⟨v', by rw [List.foldlM_cons, run_bind_of_ok hstep, hrun], hv'.congr fun k => ?_⟩
    refine or_congr_right (and_congr_left fun hk => ?_)
    have hlive : ¬ Gone c w.site.cwd w.tree q := fun hgone =>
      nomatch (gone_of_lookUp hmodule hw part.registry source).2.2 hgone
    rw [List.mem_cons, or_iff_right]
    exact fun he => hlive (path_injective hw part.registry hk.part.registry he ▸ hk.gone)

/-- Where files were put together, each of them was passed over, removed or read. -/
theorem exists_gathers
    (hfound : ∀ p ∈ files, ∃ q, IsRegistry w.tree w.site.cwd c.output q ∧ p = c.path w.site.cwd q)
    (hnodup : files.Nodup) (hv : Lacks c w v D) (hcome : ∀ k, D k → c.path w.site.cwd k ∉ files)
    (h : (files.foldlM (collectFile c) r).run v = .ok r' v') : Gathers c w files r r' := by
  induction files generalizing v D r with
  | nil =>
    cases h
    exact .nil
  | cons p files ih =>
    obtain ⟨hnew, hrestnodup⟩ := List.nodup_cons.1 hnodup
    obtain ⟨q, hq, rfl⟩ := hfound p (List.mem_cons_self ..)
    have hrestfound := fun k hk => hfound k (List.mem_cons_of_mem _ hk)
    have hrestcome := fun k hk hmem => hcome k hk (List.mem_cons_of_mem _ hmem)
    have hD : ¬ D q := fun hD => hcome q hD (List.mem_cons_self ..)
    have hpath : c.path v.site.cwd q = c.path w.site.cwd q := by rw [hv.site]
    rw [List.foldlM_cons] at h
    obtain ⟨r₁, v₁, hstep, hrest⟩ := run_bind_ok_iff.1 h
    rw [← hpath] at hstep
    have hqv := hv.registry_iff.2 ⟨hq, hD⟩
    by_cases hown : q = c.own w.site.cwd
    · rw [run_collectFile_own (hv.wellFormed hw) hqv (hv.site ▸ hown)] at hstep
      cases hstep
      exact .own hq hown (ih hrestfound hrestnodup hv hrestcome hrest)
    have hother : q ≠ c.own v.site.cwd := hv.site ▸ hown
    have hpart : IsPart c w.site.cwd w.tree q := ⟨hq, hown⟩
    obtain ⟨found, hsource⟩ := exists_of_run_collectFile (hv.wellFormed hw) hqv hmodule hother hstep
    rw [run_collectFile_part (hv.wellFormed hw) hqv hother hsource] at hstep
    replace hsource := (hv.lookUp hmodule hw hapart hpart hD).1 hsource
    cases found with
    | none =>
      have hstale : Stale c w.site.cwd w.tree q :=
        ⟨hpart, (gone_of_lookUp hmodule hw hq hsource).2.1 rfl⟩
      rw [if_neg (by simp), run_dropFile_iff (hv.wellFormed hw) hqv] at hstep
      obtain ⟨rfl, hleads, hfile, rfl⟩ := hstep
      rw [hv.site, hv.locate] at hleads
      rw [hv.same q hD] at hfile
      have hcome' : ∀ k, D k ∨ k = q → c.path w.site.cwd k ∉ files := by
        rintro k (hk | rfl)
        exacts [hrestcome k hk, hnew]
      exact .stale hstale hsource hleads hfile
        (ih hrestfound hrestnodup (hv.cut hstale hfile _) hcome' hrest)
    | some found =>
      rw [if_pos (by simp), hpath] at hstep
      obtain ⟨s, hread, hmerge, rfl⟩ := run_mergeFile_ok_iff.1 hstep
      exact .part hpart hsource ((hv.read hw hq hD).1 hread) hmerge
        (ih hrestfound hrestnodup hv hrestcome hrest)

/-- The files that were not removed are put together to the same when the others are gone. -/
theorem Gathers.after (h : Gathers c w files r r')
    (hv : Lacks c w v fun q => Stale c w.site.cwd w.tree q) :
    ∃ files', files'.Sublist files ∧ (∀ p, p ∈ files' ↔ p ∈ files ∧
      ∃ q, IsRegistry v.tree v.site.cwd c.output q ∧ p = c.path v.site.cwd q) ∧
      Gathers c v files' r r' := by
  induction h with
  | nil => exact ⟨[], .slnil, by simp, .nil⟩
  | @own q files r r' hq hown rest ih =>
    obtain ⟨files', hsub, hmem, hgathers⟩ := ih
    have hlive : ¬ Stale c w.site.cwd w.tree q := fun hstale => hstale.part.other hown
    have hqv := hv.registry_iff.2 ⟨hq, hlive⟩
    have hpath : c.path v.site.cwd q = c.path w.site.cwd q := by rw [hv.site]
    refine ⟨c.path w.site.cwd q :: files', hsub.cons_cons _, fun p => ?_, ?_⟩
    · rw [List.mem_cons, List.mem_cons, hmem, or_and_right]
      refine or_congr_left ⟨?_, And.left⟩
      rintro rfl
      exact ⟨rfl, q, hqv, hpath.symm⟩
    · rw [← hpath]
      exact .own hqv (hv.site ▸ hown) hgathers
  | @stale q files r r' hstale source leads file rest ih =>
    obtain ⟨files', hsub, hmem, hgathers⟩ := ih
    refine ⟨files', hsub.cons _, fun p => ?_, hgathers⟩
    rw [List.mem_cons, hmem, or_and_right, or_iff_right]
    rintro ⟨rfl, k, hk, he⟩
    obtain ⟨hkw, hlive⟩ := hv.registry_iff.1 hk
    rw [hv.site] at he
    exact hlive (path_injective hw hkw hstale.part.registry he ▸ hstale)
  | @part q files r r₁ r' s found hpart source read merge rest ih =>
    obtain ⟨files', hsub, hmem, hgathers⟩ := ih
    have hlive : ¬ Stale c w.site.cwd w.tree q := fun hstale =>
      nomatch (gone_of_lookUp hmodule hw hpart.registry source).2.2 hstale.gone
    have hpartv := hv.isPart_iff.2 ⟨hpart, hlive⟩
    have hpath : c.path v.site.cwd q = c.path w.site.cwd q := by rw [hv.site]
    refine ⟨c.path w.site.cwd q :: files', hsub.cons_cons _, fun p => ?_, ?_⟩
    · rw [List.mem_cons, List.mem_cons, hmem, or_and_right]
      refine or_congr_left ⟨?_, And.left⟩
      rintro rfl
      exact ⟨rfl, q, hpartv.registry, hpath.symm⟩
    · rw [← hpath]
      exact .part hpartv ((hv.lookUp hmodule hw hapart hpart hlive).2 source)
        (hpath ▸ (hv.read hw hpart.registry hlive).2 read) merge hgathers

omit hapart in
/-- What was read, in order, and what it comes to. -/
theorem Gathers.exists_stored (h : Gathers c w files r r') :
    ∃ kept stored, kept.Sublist files ∧ (∀ p, p ∈ kept ↔ p ∈ files ∧
      ∃ q, IsPart c w.site.cwd w.tree q ∧ ¬ Stale c w.site.cwd w.tree q ∧
        p = c.path w.site.cwd q) ∧
      List.Forall₂ (fun p s => (read p c.hash Settings.defaultPatience).run w = .ok s w)
        kept stored ∧
      r' = stored.foldl Registry.union r := by
  induction h with
  | nil => exact ⟨[], [], .slnil, by simp, .nil, rfl⟩
  | @own q files r r' hq hown rest ih =>
    obtain ⟨kept, stored, hsub, hmem, hstored, hr⟩ := ih
    refine ⟨kept, stored, hsub.cons _, fun p => ?_, hstored, hr⟩
    rw [List.mem_cons, hmem, or_and_right, or_iff_right]
    rintro ⟨rfl, k, hk, -, he⟩
    exact hk.other (path_injective hw hq hk.registry he.symm ▸ hown)
  | @stale q files r r' hstale source leads file rest ih =>
    obtain ⟨kept, stored, hsub, hmem, hstored, hr⟩ := ih
    refine ⟨kept, stored, hsub.cons _, fun p => ?_, hstored, hr⟩
    rw [List.mem_cons, hmem, or_and_right, or_iff_right]
    rintro ⟨rfl, k, hk, hlive, he⟩
    exact hlive (path_injective hw hk.registry hstale.part.registry he ▸ hstale)
  | @part q files r r₁ r' s found hpart source read merge rest ih =>
    obtain ⟨kept, stored, hsub, hmem, hstored, hr⟩ := ih
    have hlive : ¬ Stale c w.site.cwd w.tree q := fun hstale =>
      nomatch (gone_of_lookUp hmodule hw hpart.registry source).2.2 hstale.gone
    refine ⟨c.path w.site.cwd q :: kept, s :: stored, hsub.cons_cons _, fun p => ?_,
      .cons read hstored, ?_⟩
    · rw [List.mem_cons, List.mem_cons, hmem, or_and_right]
      refine or_congr_left ⟨?_, And.left⟩
      rintro rfl
      exact ⟨rfl, q, hpart, hlive, rfl⟩
    · rw [hr, Registry.merge_ok merge]
      rfl

end all

end Introspect.Store
