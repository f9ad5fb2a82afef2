import Introspect.Proofs.Store.Collect
import Introspect.Proofs.Store.Emit

/-! Collecting again after files were put that belong to no source: the same registry files are
found, and they come to the same. -/
namespace Introspect.Store
open FileTree Job GeneratedPath

variable {c : Collection} {w w' v : Workspace} {q : List String} {places : List (List String)}
  {files files' : List Path} {r r' : Registry} {D : List String → Prop}

/-- The directories that were made since do not get in the way of a collection: none of them is
named like a registry file, and what could be told about the output directory and about possible
sources can be told still. -/
structure Clear (c : Collection) (w v : Workspace) : Prop where
  unnamed : ∀ q, IsPart c v.site.cwd v.tree q → v.tree.find? q = some .directory →
    w.tree.find? q = some .directory
  output : ∃ b, (Job.isDirectory c.output).run v = .ok b v
  sources : ∀ place stem, IsPart c v.site.cwd v.tree
      (c.output.fold v.site.cwd ++ (place ++ [stem ++ registryExtension])) →
    ∀ e ∈ c.allExtensions,
      (∃ b, (hasSource c.moduleDirectory
        (candidate v.site.cwd c.moduleDirectory place stem e)).run w = .ok b w) →
      ∃ b, (hasSource c.moduleDirectory
        (candidate v.site.cwd c.moduleDirectory place stem e)).run v = .ok b v

/-- What can be told about a source where there are more directories could be told before. -/
theorem exists_run_hasSource_of_directories {moduleDirectory p : Path} (hsite : v.site = w.site)
    (hdirectories : ∀ q, w.tree.find? q = some .directory → v.tree.find? q = some .directory)
    (h : ∃ b, (hasSource moduleDirectory p).run v = .ok b v) :
    ∃ b, (hasSource moduleDirectory p).run w = .ok b w := by
  obtain ⟨b, hb⟩ := h
  obtain ⟨hmodule, hknown, hthere, -⟩ := run_hasSource_ok_iff.1 hb
  rw [hsite] at hthere
  obtain ⟨b', hthere'⟩ := exists_isThere_of_directories hdirectories ⟨b, hthere⟩
  exact ⟨b', run_hasSource_ok_iff.2 ⟨hmodule, hknown, hthere', rfl⟩⟩

/-- Where no directory is new, nothing gets in the way. -/
theorem Clear.of_directories (hsite : v.site = w.site)
    (hdirectories : ∀ q, v.tree.find? q = some .directory → w.tree.find? q = some .directory)
    (houtput : ∃ b, (Job.isDirectory c.output).run v = .ok b v) : Clear c w v where
  unnamed q _ := hdirectories q
  output := houtput
  sources _ _ _ _ _ := exists_run_hasSource_of_directories hsite.symm hdirectories

/-- Files that came or went before make no difference. -/
theorem Clear.congr (h : Clear c w v) (hsite : w'.site = w.site)
    (hdirectories : ∀ q, w.tree.find? q = some .directory ↔ w'.tree.find? q = some .directory) :
    Clear c w' v where
  unnamed q hq hdirectory := (hdirectories q).1 (h.unnamed q hq hdirectory)
  output := h.output
  sources place stem hq e he hknown := h.sources place stem hq e he
    (exists_run_hasSource_of_directories hsite (fun q => (hdirectories q).1) hknown)

/-! ## Registry files and their sources -/

/-- The places have nothing to do with the registry files of sources. -/
def Foreign (c : Collection) (cwd : List String) (places : List (List String)) : Prop :=
  ∀ q ∈ places, q = c.own cwd ∨ ∀ front stem, q ≠ front ++ [stem ++ registryExtension]

section emitted
variable (houtput : c.output.Straight) (hmodule : c.moduleDirectory.Clean) (hw : w.WellFormed)
  (hv : v.WellFormed) (hemits : Emits places w v) (hplaces : Foreign c w.site.cwd places)
  (hknown : ∃ b, (Job.isDirectory c.output).run w = .ok b w) (hclear : Clear c w v)

theorem Foreign.not_mem {t : FileTree} {cwd : List String} (h : Foreign c cwd places)
    (hq : IsPart c cwd t q) : q ∉ places := by
  intro hmem
  obtain ⟨place, stem, he⟩ := hq.registry.named
  rw [← List.append_assoc] at he
  rcases h q hmem with hown | hname
  · exact hq.other hown
  · exact hname _ _ he

include houtput hw hemits hplaces hknown hclear in
/-- The registry files of sources are those that there were. -/
theorem isPart_iff_of_emits :
    IsPart c v.site.cwd v.tree q ↔ IsPart c w.site.cwd w.tree q := by
  constructor
  · intro hq
    have hmem : q ∉ places := by
      have hforeign := hplaces
      rw [← hemits.site] at hforeign
      exact hforeign.not_mem hq
    have hpresent : w.tree.find? q ≠ none := by
      rcases hemits.other q hmem with hsame | ⟨hnone, hdirectory⟩
      · exact hsame ▸ hq.registry.present
      · rw [hclear.unnamed q hq hdirectory] at hnone
        cases hnone
    obtain ⟨place, stem, he⟩ := hq.registry.named
    rw [houtput.fold] at he
    have hdirectory : w.tree.find? c.output.parts = some .directory :=
      hw.tree.above hpresent (he ▸ List.prefix_append _ _) (by simp [he])
    refine ⟨⟨isThere_of_directory hw.tree houtput hdirectory hknown, hpresent, place, stem, ?_⟩,
      hemits.site ▸ hq.other⟩
    rw [houtput.fold, he]
  · rintro ⟨⟨hreached, hpresent, hnamed⟩, hother⟩
    obtain ⟨hleads, hdirectory⟩ := directory_of_isThere hreached
    refine ⟨⟨?_, hemits.present hpresent, hemits.site.symm ▸ hnamed⟩, hemits.site.symm ▸ hother⟩
    rw [isThere_of_locate (hemits.locate hleads), hemits.directory hdirectory]
    rfl

include hw hemits hplaces in
/-- They are read as before. -/
theorem run_read_of_emits {hash : NameHash} {patience : Patience} {s : Registry}
    (hq : IsPart c w.site.cwd w.tree q)
    (h : (read (c.path w.site.cwd q) hash patience).run w = .ok s w) :
    (read (c.path w.site.cwd q) hash patience).run v = .ok s v := by
  obtain ⟨hattempts, hnull, -, text, hread, hof⟩ := run_read_ok_iff.1 h
  obtain ⟨place, hplace, hfile⟩ := read_eq_ok_iff.1 hread
  obtain rfl : place = q := (locate_ok hplace).trans (hq.registry.fold_beneath hw.tree)
  refine run_read_ok_iff.2 ⟨hattempts, hnull, rfl, text, read_eq_ok_iff.2 ⟨place, ?_, ?_⟩, hof⟩
  · exact hemits.locate hplace
  · exact hemits.of_found (hplaces.not_mem hq) hfile

omit hmodule hv in
include houtput hw hv hemits hplaces hknown hclear in
/-- A registry file that had a source has one. -/
theorem exists_run_lookUp_of_emits {found : Path} (hq : IsPart c w.site.cwd w.tree q)
    (h : (c.lookUp w.site.cwd q).run w = .ok (some found) w) :
    ∃ found', (c.lookUp v.site.cwd q).run v = .ok (some found') v := by
  have hqv := (isPart_iff_of_emits houtput hw hemits hplaces hknown hclear).2 hq
  obtain ⟨place, stem, he⟩ := hq.registry.named
  rw [run_lookUp_ok_iff hw hq.registry he] at h
  have hev := he
  rw [← hemits.site] at hev
  have hkept : ∀ p, (hasSource c.moduleDirectory p).run w = .ok true w →
      (hasSource c.moduleDirectory p).run v = .ok true v := by
    intro p hpasses
    obtain ⟨hmodule, hnull, hthere, -⟩ := run_hasSource_ok_iff.1 hpasses
    obtain ⟨k, n, hk, hn, -⟩ := find?_of_isThere_true hthere
    obtain ⟨m, hm⟩ := Option.ne_none_iff_exists'.1 (hemits.present (hn ▸ Option.some_ne_none n))
    refine run_hasSource_ok_iff.2 ⟨hmodule, hnull, ?_, rfl⟩
    rw [isThere_of_locate (hemits.locate hk), hm]
    rfl
  have hlook : ∀ p ∈ c.allExtensions.map (candidate w.site.cwd c.moduleDirectory place stem),
      (hasSource c.moduleDirectory p).run w = .ok false w →
        ∃ b, (hasSource c.moduleDirectory p).run v = .ok b v := by
    intro p hp hfails
    obtain ⟨e, hmem, rfl⟩ := List.mem_map.1 hp
    rw [← hemits.site] at hfails ⊢
    exact hclear.sources place stem (hev ▸ hqv) e hmem ⟨false, hfails⟩
  obtain ⟨found', hfound⟩ :=
    exists_run_findM?_of_some hasSource_still (fun p _ => hkept p) hlook h
  refine ⟨found', (run_lookUp_ok_iff hv hqv.registry hev).2 ?_⟩
  rwa [hemits.site]

omit hmodule hv in
include hw hemits houtput hplaces hknown hclear in
/-- None of them has lost its source. -/
theorem not_stale_of_emits (hlive : ∀ q, ¬ Stale c w.site.cwd w.tree q) (q : List String) :
    ¬ Stale c v.site.cwd v.tree q := by
  rintro ⟨hpart, hgone⟩
  refine hlive q ⟨(isPart_iff_of_emits houtput hw hemits hplaces hknown hclear).1 hpart, ?_⟩
  intro place stem he e hmem
  rw [← hemits.site] at he ⊢
  by_contra hfound
  exact hemits.present hfound (hgone place stem he e hmem)

/-! ## One file after another -/

/-- The path does not lead to the registry of the module. -/
def Collection.aside (c : Collection) (cwd : List String) (p : Path) : Bool :=
  p.fold cwd != c.own cwd

theorem aside_path_iff (hw : w.WellFormed) (hq : IsRegistry w.tree w.site.cwd c.output q) :
    c.aside w.site.cwd (c.path w.site.cwd q) = true ↔ q ≠ c.own w.site.cwd := by
  rw [Collection.aside, Collection.path, hq.fold_beneath hw.tree, bne_iff_ne]

theorem Finds.mem_filter_aside (hw : w.WellFormed)
    (h : Finds w.tree w.site.cwd c.output files) {p : Path} :
    p ∈ files.filter (c.aside w.site.cwd) ↔
      ∃ q, IsPart c w.site.cwd w.tree q ∧ p = c.path w.site.cwd q := by
  rw [List.mem_filter, h.mem]
  constructor
  · rintro ⟨⟨q, hq, rfl⟩, haside⟩
    exact ⟨q, ⟨hq, (aside_path_iff hw hq).1 haside⟩, rfl⟩
  · rintro ⟨q, hq, rfl⟩
    exact ⟨⟨q, hq.registry, rfl⟩, (aside_path_iff hw hq.registry).2 hq.other⟩

/-- The registry of the module may be among the files or not. -/
theorem Gathers.of_filter (hw : w.WellFormed)
    (hfound : ∀ p ∈ files, ∃ q, IsRegistry w.tree w.site.cwd c.output q ∧
      p = c.path w.site.cwd q)
    (h : Gathers c w (files.filter (c.aside w.site.cwd)) r r') : Gathers c w files r r' := by
  induction files generalizing r with
  | nil => exact h
  | cons p files ih =>
    obtain ⟨q, hq, hp⟩ := hfound p (List.mem_cons_self ..)
    replace ih := fun {r} => @ih r fun p hp => hfound p (List.mem_cons_of_mem _ hp)
    by_cases hown : q = c.own w.site.cwd
    · subst hp
      rw [List.filter_cons_of_neg (mt (aside_path_iff hw hq).1 (not_not.2 hown))] at h
      exact .own hq hown (ih h)
    · rw [List.filter_cons_of_pos (hp ▸ (aside_path_iff hw hq).2 hown)] at h
      cases h with
      | own registry own rest => exact .own registry own (ih rest)
      | stale stale source leads file rest => exact .stale stale source leads file (ih rest)
      | part part source read merge rest => exact .part part source read merge (ih rest)

include houtput hw hv hemits hplaces hknown hclear in
/-- Where no registry file lacks a source, the files come to the same. -/
theorem Gathers.of_emits (hlive : ∀ q, ¬ Stale c w.site.cwd w.tree q)
    (h : Gathers c w files r r') :
    Gathers c v (files.filter (c.aside w.site.cwd)) r r' := by
  induction h with
  | nil => exact .nil
  | own hq hown rest ih =>
    rw [List.filter_cons_of_neg (mt (aside_path_iff hw hq).1 (not_not.2 hown))]
    exact ih
  | stale hstale => exact absurd hstale (hlive _)
  | part hpart source read merge rest ih =>
    rw [List.filter_cons_of_pos ((aside_path_iff hw hpart.registry).2 hpart.other)]
    obtain ⟨found, hfound⟩ :=
      exists_run_lookUp_of_emits houtput hw hv hemits hplaces hknown hclear hpart source
    have hpath : c.path w.site.cwd = c.path v.site.cwd := by rw [hemits.site]
    have hread := run_read_of_emits hw hemits hplaces hpart read
    rw [hpath] at hread ⊢
    exact .part ((isPart_iff_of_emits houtput hw hemits hplaces hknown hclear).2 hpart) hfound
      hread merge ih

include hmodule houtput hw hv hemits hplaces hknown hclear in
/-- After files were put that belong to no source, a collection comes to what it came to before, and
removes nothing. -/
theorem exists_run_collect_of_emits (hlive : ∀ q, ¬ Stale c w.site.cwd w.tree q)
    (hown : (aggregatePath c.moduleName c.output).hasNull = false)
    (hfinds : Finds w.tree w.site.cwd c.output files)
    (h : Gathers c w files (.empty c.hash) r) :
    ∃ v', (collect c).run v = .ok r v' ∧ Same v v' := by
  obtain ⟨files', -, hfinds'⟩ := exists_run_find hv.tree hclear.output
  have hfiles : files'.filter (c.aside v.site.cwd) = files.filter (c.aside w.site.cwd) := by
    refine eq_of_sorted (hfinds'.sorted.filter _) (hfinds.sorted.filter _)
      (hfinds'.nodup.filter _) (hfinds.nodup.filter _) fun p => ?_
    rw [hfinds'.mem_filter_aside hv, hfinds.mem_filter_aside hw]
    refine exists_congr fun q => ?_
    rw [isPart_iff_of_emits houtput hw hemits hplaces hknown hclear, hemits.site]
  have hgathers : Gathers c v files' (.empty c.hash) r := by
    refine .of_filter hv (fun p => (hfinds'.mem p).1) ?_
    rw [hfiles]
    exact h.of_emits houtput hw hv hemits hplaces hknown hclear hlive
  have hlive' := not_stale_of_emits houtput hw hemits hplaces hknown hclear hlive
  obtain ⟨v', hrun, hlacks⟩ := hgathers.run_collect hmodule hv (fun _ _ _ _ _ => hlive' _) hown
    hclear.output hfinds'
  exact ⟨v', hrun, hlacks.site, fun q => hlacks.same q (hlive' q)⟩

end emitted

end Introspect.Store
