import Introspect.Proofs.Registry.Accumulation
import Introspect.Proofs.Store.Gather

/-! What a collection comes to: which registry files it removes, which it puts together and in which
order, and that it finds the same again. -/
namespace Introspect.Store
open FileTree Job GeneratedPath

variable {c : Collection} {w w' : Workspace} {t : FileTree} {cwd q : List String}
  {files : List Path} {r : Registry} {found : Option Path}

/-- A file is at one of the places where a source of the registry file could be. -/
def HasSource (c : Collection) (cwd : List String) (t : FileTree) (q : List String) : Prop :=
  ∃ place stem, q = c.output.fold cwd ++ (place ++ [stem ++ registryExtension]) ∧
    ∃ e ∈ c.allExtensions, ∃ text,
      t.find? (candidate cwd c.moduleDirectory place stem e).parts = some (.file text)

/-- Whatever a collection asks about files is answered, the registry files other than that of the
module can be read, and none of them has a source that the collection removes. -/
structure Collectable (c : Collection) (w : Workspace) : Prop where
  own : (aggregatePath c.moduleName c.output).hasNull = false
  output : ∃ b, (Job.isDirectory c.output).run w = .ok b w
  sources : ∀ place stem, IsPart c w.site.cwd w.tree
      (c.output.fold w.site.cwd ++ (place ++ [stem ++ registryExtension])) →
    ∀ e ∈ c.allExtensions, ∃ b, (hasSource c.moduleDirectory
      (candidate w.site.cwd c.moduleDirectory place stem e)).run w = .ok b w
  registries : ∀ q, IsPart c w.site.cwd w.tree q →
    ∃ s, (read (c.path w.site.cwd q) c.hash Settings.defaultPatience).run w = .ok s w
  apart : Apart c w.site.cwd w.tree

/-- What is left when the registry files of a module were put together, and what they are together:
in the order of their paths, the later win over the earlier. -/
structure Collected (c : Collection) (w w' : Workspace) (r : Registry) : Prop where
  removed : ∀ q, Stale c w.site.cwd w.tree q → w'.tree.find? q = none
  unchanged : ∀ q, ¬ (IsPart c w.site.cwd w.tree q ∧ ¬ HasSource c w.site.cwd w.tree q) →
    w'.tree.find? q = w.tree.find? q
  joined : ∃ files stored, files.Pairwise (fun a b => Path.le a b = true) ∧ files.Nodup ∧
    (∀ p, p ∈ files ↔ ∃ q, IsPart c w'.site.cwd w'.tree q ∧ p = c.path w'.site.cwd q) ∧
    List.Forall₂ (fun p s => (read p c.hash Settings.defaultPatience).run w' = .ok s w')
      files stored ∧
    r.hash = c.hash ∧ Registry.Joins stored r

theorem Stale.not_hasSource (h : Stale c cwd t q) : ¬ HasSource c cwd t q := by
  rintro ⟨place, stem, he, e, hmem, text, hfile⟩
  rw [h.gone place stem he e hmem] at hfile
  cases hfile

private theorem Collectable.exists_lookUp (h : Collectable c w) (hw : w.WellFormed)
    (hq : IsPart c w.site.cwd w.tree q) :
    ∃ found, (c.lookUp w.site.cwd q).run w = .ok found w := by
  obtain ⟨place, stem, rfl⟩ := hq.registry.named
  exact exists_run_sourceOf? hw (hq.registry.names hw.tree) (hq.registry.fold_beneath hw.tree)
    (hq.registry.hasNull_beneath hw.tree) (hasNull_of_isThere hw.tree hq.registry.reached)
    (h.sources place stem hq)

private theorem leads_of_read {hash : NameHash} {patience : Patience} {s : Registry}
    (hw : w.WellFormed) (hq : IsRegistry w.tree w.site.cwd c.output q)
    (h : (read (c.path w.site.cwd q) hash patience).run w = .ok s w) :
    w.tree.locate w.site.cwd (c.path w.site.cwd q) = .ok q ∧
      w.tree.find? q ≠ some .directory := by
  obtain ⟨-, -, -, text, hread, -⟩ := run_read_ok_iff.1 h
  obtain ⟨place, hplace, hfile⟩ := read_eq_ok_iff.1 hread
  obtain rfl : place = q := (locate_ok hplace).trans (hq.fold_beneath hw.tree)
  exact ⟨hplace, by simp [hfile]⟩

/-- Where everything is answered, all files are dealt with. -/
private theorem Collectable.exists_gathers (h : Collectable c w) (hw : w.WellFormed)
    (hmodule : c.moduleDirectory.Clean) (hstrict : c.strict = false)
    (hfound : ∀ p ∈ files, ∃ q, IsRegistry w.tree w.site.cwd c.output q ∧
      p = c.path w.site.cwd q) (r : Registry) : ∃ r', Gathers c w files r r' := by
  induction files generalizing r with
  | nil => exact ⟨r, .nil⟩
  | cons p files ih =>
    obtain ⟨q, hq, rfl⟩ := hfound p (List.mem_cons_self ..)
    specialize ih fun p hp => hfound p (List.mem_cons_of_mem _ hp)
    by_cases hown : q = c.own w.site.cwd
    · obtain ⟨r', hr'⟩ := ih r
      exact ⟨r', .own hq hown hr'⟩
    have hpart : IsPart c w.site.cwd w.tree q := ⟨hq, hown⟩
    obtain ⟨s, hread⟩ := h.registries q hpart
    obtain ⟨found, hsource⟩ := h.exists_lookUp hw hpart
    cases found with
    | none =>
      obtain ⟨r', hr'⟩ := ih r
      obtain ⟨hleads, hfile⟩ := leads_of_read hw hq hread
      exact ⟨r', .stale ⟨hpart, (gone_of_lookUp hmodule hw hq hsource).2.1 rfl⟩ hsource hleads
        hfile hr'⟩
    | some found =>
      obtain ⟨r', hr'⟩ := ih (r.union s)
      exact ⟨r', .part hpart hsource hread (hstrict ▸ Registry.merge_lenient r s) hr'⟩

/-- A collection goes through the registry files that are found. -/
theorem run_collect_of_finds (hw : w.WellFormed)
    (hown : (aggregatePath c.moduleName c.output).hasNull = false)
    (houtput : ∃ b, (Job.isDirectory c.output).run w = .ok b w)
    (hfinds : Finds w.tree w.site.cwd c.output files) :
    (collect c).run w = (files.foldlM (collectFile c) (.empty c.hash)).run w := by
  have hknown : (Job.requireKnown (aggregatePath c.moduleName c.output)).run w = .ok () w :=
    run_requireKnown_ok_iff.2 ⟨hown, rfl⟩
  obtain ⟨files', hrun, hfinds'⟩ := exists_run_find hw.tree houtput
  rw [collect, run_bind_of_ok hknown, run_bind_of_ok hrun, hfinds.unique hfinds']

/-- Where a collection went through, each of the files that are found was dealt with. -/
private theorem exists_gathers_of_run_collect (hmodule : c.moduleDirectory.Clean) (hw : w.WellFormed)
    (hapart : Apart c w.site.cwd w.tree) (h : (collect c).run w = .ok r w') :
    ∃ files, (aggregatePath c.moduleName c.output).hasNull = false ∧
      (∃ b, (Job.isDirectory c.output).run w = .ok b w) ∧
      Finds w.tree w.site.cwd c.output files ∧ Gathers c w files (.empty c.hash) r := by
  unfold collect at h
  obtain ⟨⟨⟩, w₁, hknown, hrest⟩ := run_bind_ok_iff.1 h
  obtain ⟨hown, rfl⟩ := run_requireKnown_ok_iff.1 hknown
  obtain ⟨files, w₂, hfind, hfold⟩ := run_bind_ok_iff.1 hrest
  obtain ⟨rfl, hfinds, houtput⟩ := find_ok hw.tree hfind
  exact ⟨files, hown, houtput, hfinds, exists_gathers hmodule hw hapart (fun p => (hfinds.mem p).1)
    hfinds.nodup (.refl c _) nofun hfold⟩

/-- What is dealt with is no directory, the registry of the module apart. -/
private theorem Gathers.file {r' : Registry} (hw : w.WellFormed) (h : Gathers c w files r r')
    (hq : IsPart c w.site.cwd w.tree q) (hmem : c.path w.site.cwd q ∈ files) :
    w.tree.find? q ≠ some .directory := by
  induction h with
  | nil => cases hmem
  | own registry own rest ih =>
    refine (List.mem_cons.1 hmem).elim (fun he => absurd ?_ hq.other) ih
    exact path_injective hw registry hq.registry he ▸ own
  | stale stale source leads file rest ih =>
    rcases List.mem_cons.1 hmem with he | hmem
    · exact path_injective hw stale.part.registry hq.registry he ▸ file
    · exact ih hmem
  | part part source read merge rest ih =>
    rcases List.mem_cons.1 hmem with he | hmem
    · rw [path_injective hw part.registry hq.registry he]
      exact (leads_of_read hw part.registry read).2
    · exact ih hmem

/-- A directory that is named like the registry file of a source stops a collection. -/
theorem not_run_collect_of_directory (hmodule : c.moduleDirectory.Clean) (hw : w.WellFormed)
    (hapart : Apart c w.site.cwd w.tree) (hq : IsPart c w.site.cwd w.tree q)
    (hd : w.tree.find? q = some .directory) : (collect c).run w ≠ .ok r w' := by
  intro h
  obtain ⟨files, -, -, hfinds, hgathers⟩ := exists_gathers_of_run_collect hmodule hw hapart h
  exact hgathers.file hw hq ((hfinds.mem _).2 ⟨q, hq.registry, rfl⟩) hd

section settled
variable (hmodule : c.moduleDirectory.Clean) (hw : w.WellFormed)
  (hapart : Apart c w.site.cwd w.tree)
  (hown : (aggregatePath c.moduleName c.output).hasNull = false)
  (houtput : ∃ b, (Job.isDirectory c.output).run w = .ok b w)
  (hfinds : Finds w.tree w.site.cwd c.output files) (h : Gathers c w files (.empty c.hash) r)
include hmodule hw hapart hown houtput hfinds h

/-- A collection whose files can all be dealt with removes those without a source. -/
theorem Gathers.run_collect :
    ∃ w', (collect c).run w = .ok r w' ∧ Lacks c w w' fun q => Stale c w.site.cwd w.tree q := by
  obtain ⟨w', hrun, hlacks⟩ := h.run hmodule hw hapart hfinds.nodup (Lacks.refl c w) nofun
  refine ⟨w', (run_collect_of_finds hw hown houtput hfinds).trans hrun, hlacks.congr fun q => ?_⟩
  rw [false_or, and_iff_right_iff_imp]
  exact fun hstale => (hfinds.mem _).2 ⟨q, hstale.part.registry, rfl⟩

/-- Once those without a source are gone, a collection comes to the same and removes nothing. -/
theorem Gathers.exists_run_collect_again
    (hlacks : Lacks c w w' fun q => Stale c w.site.cwd w.tree q) :
    (∃ files', Finds w'.tree w'.site.cwd c.output files' ∧ Gathers c w' files' (.empty c.hash) r) ∧
      ∃ w'', (collect c).run w' = .ok r w'' ∧ ∀ q, w''.tree.find? q = w'.tree.find? q := by
  obtain ⟨files', hsub, hmem, hgathers⟩ := h.after hmodule hw hapart hlacks
  have hfinds' : Finds w'.tree w'.site.cwd c.output files' := by
    refine ⟨fun p => ?_, hfinds.sorted.sublist hsub, hfinds.nodup.sublist hsub⟩
    refine (hmem p).trans (and_iff_right_of_imp ?_)
    rintro ⟨q, hq, rfl⟩
    exact (hfinds.mem _).2 ⟨q, (hlacks.registry_iff.1 hq).1, by rw [hlacks.site]; rfl⟩
  refine ⟨⟨files', hfinds', hgathers⟩, ?_⟩
  have hstays := hlacks.not_stale hapart
  have houtput' : ∃ b, (Job.isDirectory c.output).run w' = .ok b w' := by
    obtain ⟨b, hb⟩ := houtput
    exact ⟨b, hlacks.run_isDirectory hb⟩
  obtain ⟨w'', hrun, hlacks'⟩ := hgathers.run_collect hmodule (hlacks.wellFormed hw)
    (fun _ _ _ _ _ => hstays _) hown houtput' hfinds'
  exact ⟨w'', hrun, fun q => hlacks'.same q (hstays q)⟩

end settled

/-- After a collection that went through, the registry files without a source are gone, and what
was collected can be collected from what is left. -/
theorem settled_of_run_collect (hmodule : c.moduleDirectory.Clean) (hw : w.WellFormed)
    (hapart : Apart c w.site.cwd w.tree) (h : (collect c).run w = .ok r w') :
    Lacks c w w' (fun q => Stale c w.site.cwd w.tree q) ∧
      (aggregatePath c.moduleName c.output).hasNull = false ∧
      (∃ b, (Job.isDirectory c.output).run w' = .ok b w') ∧
      ∃ files, Finds w'.tree w'.site.cwd c.output files ∧
        Gathers c w' files (.empty c.hash) r := by
  obtain ⟨files, hown, ⟨b, hb⟩, hfinds, hgathers⟩ :=
    exists_gathers_of_run_collect hmodule hw hapart h
  obtain ⟨w₁, hrun, hlacks⟩ := hgathers.run_collect hmodule hw hapart hown ⟨b, hb⟩ hfinds
  rw [h] at hrun
  cases hrun
  exact ⟨hlacks, hown, ⟨b, hlacks.run_isDirectory hb⟩,
    (hgathers.exists_run_collect_again hmodule hw hapart hown ⟨b, hb⟩ hfinds hlacks).1⟩

/-- A collection that is not strict removes the registry files that have no source left and touches
no others that have one; it puts together what remains, later paths over earlier ones, and does so
again when it is repeated. -/
theorem exists_collected (hmodule : c.moduleDirectory.Clean) (hw : w.WellFormed)
    (hstrict : c.strict = false) (h : Collectable c w) :
    ∃ r w', (collect c).run w = .ok r w' ∧ Collected c w w' r ∧
      ∃ w'', (collect c).run w' = .ok r w'' ∧ ∀ q, w''.tree.find? q = w'.tree.find? q := by
  obtain ⟨files, -, hfinds⟩ := exists_run_find hw.tree h.output
  obtain ⟨r, hgathers⟩ := h.exists_gathers hw hmodule hstrict (fun p => (hfinds.mem p).1)
    (.empty c.hash)
  obtain ⟨w', hrun, hlacks⟩ := hgathers.run_collect hmodule hw h.apart h.own h.output hfinds
  obtain ⟨⟨files', hfinds', hgathers'⟩, hagain⟩ :=
    hgathers.exists_run_collect_again hmodule hw h.apart h.own h.output hfinds hlacks
  have hstays := hlacks.not_stale h.apart
  refine ⟨r, w', hrun, ⟨fun q => hlacks.gone q, fun q hq => ?_, ?_⟩, hagain⟩
  · exact hlacks.same q fun hstale => hq ⟨hstale.part, hstale.not_hasSource⟩
  · obtain ⟨kept, stored, hsub, hmem, hstored, rfl⟩ :=
      hgathers'.exists_stored hmodule (hlacks.wellFormed hw)
    refine ⟨kept, stored, hfinds'.sorted.sublist hsub, hfinds'.nodup.sublist hsub, fun p => ?_,
      hstored, Registry.hash_foldl stored, Registry.joins_foldl c.hash stored⟩
    rw [hmem]
    constructor
    · rintro ⟨-, q, hq, -, rfl⟩
      exact ⟨q, hq, rfl⟩
    · rintro ⟨q, hq, rfl⟩
      exact ⟨(hfinds'.mem _).2 ⟨q, hq.registry, rfl⟩, q, hq, hstays q, rfl⟩

/-! ## Some collections -/

/-- The text of a registry file without records. -/
def blank : String :=
  "\x7b\"version\":1,\"types\":[],\"classes\":[],\"enums\":[],\"aliases\":[],\"functions\":[]\x7d"

/-- A module of one header, with its registry file and one that is left over. -/
def leftOver : Workspace :=
  .start ⟨[], default, []⟩ ⟨.ofList [([], .directory), (["module"], .directory),
    (["module", "Shelf.h"], .file ""), (["generated"], .directory),
    (["generated", "Gone.reflregistry.json"], .file blank),
    (["generated", "Shelf.reflregistry.json"], .file blank)]⟩

theorem wellFormed_leftOver : leftOver.WellFormed :=
  ⟨.of_keys (by decide) (by decide), by decide⟩

private theorem registry_leftOver (h : IsRegistry leftOver.tree [] (.absolute ["generated"]) q) :
    ∃ stem ∈ ["Gone", "Shelf"], q = ["generated", stem ++ registryExtension] := by
  have hmem := (mem_search_registries h.reached).2 h
  have hfound : leftOver.tree.search ((Path.absolute ["generated"]).fold [])
      ("*" ++ registryExtension) = ["Gone", "Shelf"].map fun stem =>
        ["generated", stem ++ registryExtension] := by decide +kernel
  rw [hfound, List.mem_map] at hmem
  obtain ⟨stem, hstem, rfl⟩ := hmem
  exact ⟨stem, hstem, rfl⟩

private theorem place_leftOver {place : List String} {stem : String}
    (h : IsPart (besides [".h"]) [] leftOver.tree
      ((besides [".h"]).output.fold [] ++ (place ++ [stem ++ registryExtension]))) :
    place = [] ∧ stem ∈ ["Gone", "Shelf"] := by
  obtain ⟨stem', hmem, he⟩ := registry_leftOver h.registry
  have hlist : ["generated", stem' ++ registryExtension] =
      (besides [".h"]).output.fold [] ++ ([] ++ [stem' ++ registryExtension]) := rfl
  obtain ⟨rfl, rfl⟩ := registry_unique (he.trans hlist)
  exact ⟨rfl, hmem⟩

/-- A file without records is read. -/
private theorem exists_read_blank {p : Path} (hknown : p.hasNull = false)
    (hread : w.tree.read w.site.cwd p = .ok blank) :
    ∃ s, (read p .crc32 Settings.defaultPatience).run w = .ok s w := by
  have htext : (Document.ofText .crc32 (String.ofList (Text.unifyNewlines blank.toList))).isOk =
      true := by decide +kernel
  cases hs : Document.ofText .crc32 (String.ofList (Text.unifyNewlines blank.toList)) with
  | ok s => exact ⟨s, run_read_ok_iff.2 ⟨by decide, hknown, rfl, blank, hread, hs⟩⟩
  | error e =>
    rw [hs] at htext
    cases htext

private theorem collectable_leftOver : Collectable (besides [".h"]) leftOver where
  own := by decide
  output := ⟨true, rfl⟩
  sources := by
    have hknown : ∀ stem ∈ ["Gone", "Shelf"], ∀ e ∈ (besides [".h"]).allExtensions,
        (candidate [] (besides [".h"]).moduleDirectory [] stem e).hasNull = false ∧
          (leftOver.tree.isThere (fun _ => true) [] (candidate []
            (besides [".h"]).moduleDirectory [] stem e)).isOk = true := by decide +kernel
    intro place stem hpart e he
    obtain ⟨rfl, hstem⟩ := place_leftOver hpart
    exact exists_run_hasSource (by decide) (hknown stem hstem e he).1 (hknown stem hstem e he).2
  registries := by
    intro q hq
    obtain ⟨stem, hstem, rfl⟩ := registry_leftOver hq.registry
    have hread : ∀ stem ∈ ["Gone", "Shelf"],
        (Path.absolute ["generated", stem ++ registryExtension]).hasNull = false ∧
          leftOver.tree.read [] (.absolute ["generated", stem ++ registryExtension]) =
            .ok blank := by decide +kernel
    exact exists_read_blank (hread stem hstem).1 (hread stem hstem).2
  apart := by
    have hplace : ∀ stem ∈ ["Gone", "Shelf"], ∀ e ∈ (besides [".h"]).allExtensions,
        ∀ stem' ∈ ["Gone", "Shelf"], (candidate [] (besides [".h"]).moduleDirectory [] stem
          e).parts ≠ ["generated", stem' ++ registryExtension] := by decide +kernel
    intro place stem hpart e he hstale
    obtain ⟨rfl, hstem⟩ := place_leftOver hpart
    obtain ⟨stem', hstem', hq⟩ := registry_leftOver hstale.part.registry
    exact hplace stem hstem e he stem' hstem' hq

/-- The registry file of the header stays, and the one that is left over goes. -/
theorem exists_collected_leftOver :
    (besides [".h"]).moduleDirectory.Clean ∧ leftOver.WellFormed ∧
      (besides [".h"]).strict = false ∧ Collectable (besides [".h"]) leftOver ∧
      ∃ r w', (collect (besides [".h"])).run leftOver = .ok r w' ∧
        Collected (besides [".h"]) leftOver w' r ∧
        ∃ w'', (collect (besides [".h"])).run w' = .ok r w'' ∧
          ∀ q, w''.tree.find? q = w'.tree.find? q := by
  have hmodule : (besides [".h"]).moduleDirectory.Clean := by unfold Path.Clean; decide
  exact ⟨hmodule, wellFormed_leftOver, rfl, collectable_leftOver,
    exists_collected hmodule wellFormed_leftOver rfl collectable_leftOver⟩

/-- A module directory that lies among the generated files. -/
def overlap : Workspace :=
  .start ⟨[], default, []⟩ ⟨.ofList [([], .directory), (["generated"], .directory),
    (["generated", "sub"], .directory),
    (["generated", "Leaf.reflregistry.json"], .file blank),
    (["generated", "sub", "Leaf.reflregistry.json"], .file blank)]⟩

/-- The collection of a module among its own generated files. -/
def inside (extensions : List String) : Collection :=
  ⟨"Module", .absolute ["generated", "sub"], .absolute ["generated"], extensions, .crc32, false⟩

/-- An extension that no name of a file can have. -/
def endless : String := String.ofList ('.' :: List.replicate 255 'h')

theorem wellFormed_overlap : overlap.WellFormed :=
  ⟨.of_keys (by decide) (by decide), by decide⟩

private theorem finds_overlap : Finds overlap.tree [] (.absolute ["generated"])
    [.absolute ["generated", "Leaf.reflregistry.json"],
      .absolute ["generated", "sub", "Leaf.reflregistry.json"]] :=
  finds_of_sorted (by decide) (by decide +kernel) (by decide +kernel)

/-- Whether a source is found where the search for it ends well. -/
def answer (x : Job (Option Path)) (w : Workspace) : Option Bool :=
  match x.run w with
  | .ok found _ => some found.isSome
  | .error _ _ => none

theorem lookUp_of_answer (hmodule : c.moduleDirectory.Clean) (hw : w.WellFormed)
    (hq : IsRegistry w.tree w.site.cwd c.output q) {b : Bool}
    (h : answer (c.lookUp w.site.cwd q) w = some b) :
    ∃ found, (c.lookUp w.site.cwd q).run w = .ok found w ∧ found.isSome = b := by
  unfold answer at h
  cases hrun : (c.lookUp w.site.cwd q).run w with
  | ok found v =>
    rw [hrun] at h
    obtain ⟨rfl, -⟩ := gone_of_lookUp hmodule hw hq hrun
    exact ⟨found, rfl, Option.some.inj h⟩
  | error e v =>
    rw [hrun] at h
    cases h

/-- A module directory among the generated files, without the file that goes first. -/
private def remnant : Workspace := { overlap with
  events := [.staleRegistryRemoved (.absolute ["generated", "sub", "Leaf.reflregistry.json"])]
  tree := overlap.tree.cut ["generated", "sub", "Leaf.reflregistry.json"] }

private theorem wellFormed_remnant : remnant.WellFormed :=
  ⟨.of_keys (by decide) (by decide), by decide⟩

private theorem clean_inside (extensions : List String) :
    (inside extensions).moduleDirectory.Clean := by
  have hnames : ∀ s ∈ ["generated", "sub"], Path.IsName s := by decide
  exact fun s hs => .inr (hnames s hs)

/-- The first file has the second for a source, which has none. -/
private theorem run_overlap :
    ∃ r, (collect (inside [".reflregistry.json"])).run overlap = .ok r remnant := by
  let c := inside [".reflregistry.json"]
  have hleaf : IsRegistry overlap.tree [] c.output ["generated", "Leaf.reflregistry.json"] :=
    ⟨by decide, by decide, [], "Leaf", rfl⟩
  have hsub : IsRegistry overlap.tree [] c.output ["generated", "sub", "Leaf.reflregistry.json"] :=
    ⟨by decide, by decide, ["sub"], "Leaf", rfl⟩
  obtain ⟨found, hsource, hsome⟩ := lookUp_of_answer (b := true) (clean_inside _)
    wellFormed_overlap hleaf (by decide +kernel)
  obtain ⟨found', hnone, hnot⟩ := lookUp_of_answer (b := false) (clean_inside _)
    wellFormed_overlap hsub (by decide +kernel)
  obtain rfl : found' = none := by simpa using hnot
  obtain ⟨s, hread⟩ := exists_read_blank (w := overlap)
    (p := .absolute ["generated", "Leaf.reflregistry.json"]) (by decide) (by decide +kernel)
  have hfirst := run_collectFile_live (r := .empty c.hash) wellFormed_overlap hleaf (by decide)
    hsource hsome hread (Registry.merge_lenient _ s)
  have hsecond := run_collectFile_stale (r := (Registry.empty c.hash).union s) wellFormed_overlap
    hsub (by decide) hnone rfl (by decide)
  refine ⟨(Registry.empty c.hash).union s, ?_⟩
  rw [run_collect_of_finds (c := c) wellFormed_overlap (by decide) ⟨true, rfl⟩ finds_overlap,
    List.foldlM_cons]
  refine (run_bind_of_ok hfirst).trans ?_
  rw [List.foldlM_cons]
  exact run_bind_of_ok hsecond

/-- Then the first file has no source either. -/
private theorem run_remnant : ∃ r w', (collect (inside [".reflregistry.json"])).run remnant =
    .ok r w' ∧ w'.tree.find? ["generated", "Leaf.reflregistry.json"] = none := by
  let c := inside [".reflregistry.json"]
  have hfinds : Finds remnant.tree [] c.output
      [.absolute ["generated", "Leaf.reflregistry.json"]] :=
    finds_of_sorted (by decide) (by decide +kernel) (by decide)
  have hleaf : IsRegistry remnant.tree [] c.output ["generated", "Leaf.reflregistry.json"] :=
    ⟨by decide, by decide, [], "Leaf", rfl⟩
  obtain ⟨found, hnone, hnot⟩ := lookUp_of_answer (b := false) (clean_inside _)
    wellFormed_remnant hleaf (by decide +kernel)
  obtain rfl : found = none := by simpa using hnot
  have hstep := run_collectFile_stale (r := .empty c.hash) wellFormed_remnant hleaf (by decide)
    hnone rfl (by decide)
  have hrun := run_collect_of_finds (c := c) wellFormed_remnant (by decide) ⟨true, rfl⟩ hfinds
  rw [List.foldlM_cons] at hrun
  exact ⟨_, _, hrun.trans (run_bind_of_ok hstep), by rw [find?_cut, if_pos rfl]⟩

/-- It cannot be known whether the first file has a source with too long a name. -/
private theorem not_lookUp_endless {v : Workspace} : ((inside [endless]).lookUp overlap.site.cwd
    ["generated", "Leaf.reflregistry.json"]).run overlap ≠ .ok found v := by
  intro h
  have hleaf : IsRegistry overlap.tree overlap.site.cwd (inside [endless]).output
      ["generated", "Leaf.reflregistry.json"] := ⟨by decide, by decide, [], "Leaf", rfl⟩
  have hend : endless.toList = '.' :: List.replicate 255 'h' := String.toList_ofList
  have hname : Path.IsName ("Leaf" ++ endless) := by
    refine isName_append (by decide) ?_ ?_ <;> rw [hend]
    · rw [List.mem_cons, List.mem_replicate]
      decide
    · rw [List.length_cons, List.length_replicate]
      decide
  have hcandidate : candidate overlap.site.cwd (inside [endless]).moduleDirectory [] "Leaf" endless =
      .absolute ["generated", "sub", "Leaf" ++ endless] := candidate_of_name (by simp) hname
  have hplace : ["generated", "Leaf.reflregistry.json"] =
    (inside [endless]).output.fold overlap.site.cwd ++ ([] ++ ["Leaf" ++ registryExtension]) := rfl
  have hlong : (overlap.tree.isThere (fun _ => true) [] (.absolute ["generated", "sub",
      "Leaf" ++ endless])).isOk = false := by decide +kernel
  rw [run_lookUp_ok_iff wellFormed_overlap hleaf hplace] at h
  obtain ⟨b, w₁, hsource, -⟩ := run_bind_ok_iff.1 (findM?_cons .. ▸ h)
  rw [hcandidate] at hsource
  obtain ⟨-, -, hthere, -⟩ := run_hasSource_ok_iff.1 hsource
  have hthere' : overlap.tree.isThere (fun _ => true) [] (.absolute ["generated", "sub",
    "Leaf" ++ endless]) = .ok b := hthere
  rw [hthere'] at hlong
  cases hlong

/-- Where a source would have a name that is too long, a collection fails. -/
private theorem run_endless : ∃ e w', (collect (inside [endless])).run overlap = .error e w' := by
  have hleaf : IsRegistry overlap.tree overlap.site.cwd (inside [endless]).output
      ["generated", "Leaf.reflregistry.json"] := ⟨by decide, by decide, [], "Leaf", rfl⟩
  have hrun := run_collect_of_finds (c := inside [endless]) wellFormed_overlap (by decide)
    ⟨true, rfl⟩ finds_overlap
  rw [List.foldlM_cons] at hrun
  cases hcollect : (collect (inside [endless])).run overlap with
  | error e w' => exact ⟨e, w', rfl⟩
  | ok r w' =>
    obtain ⟨r₁, w₁, hstep, -⟩ := run_bind_ok_iff.1 (hrun.symm.trans hcollect)
    obtain ⟨found, hfound⟩ := exists_of_run_collectFile wellFormed_overlap hleaf (clean_inside _)
      (by decide) hstep
    exact absurd hfound not_lookUp_endless

/-- When a registry file is the source of another one and goes, the other one goes the next time;
and a source with a name that is too long stops a collection. -/
theorem not_collected_overlap :
    ((Document.ofText .crc32 blank).isOk = true ∧
      overlap.tree.find? ["generated", "Leaf.reflregistry.json"] = some (.file blank) ∧
      overlap.tree.find? ["generated", "sub", "Leaf.reflregistry.json"] = some (.file blank)) ∧
    (∃ r w', (collect (inside [".reflregistry.json"])).run overlap = .ok r w' ∧
      w'.tree.find? ["generated", "Leaf.reflregistry.json"] = some (.file blank) ∧
      ∃ r' w'', (collect (inside [".reflregistry.json"])).run w' = .ok r' w'' ∧
        w''.tree.find? ["generated", "Leaf.reflregistry.json"] = none) ∧
    ∃ e w', (collect (inside [endless])).run overlap = .error e w' := by
  refine ⟨by decide +kernel, ?_, run_endless⟩
  obtain ⟨r, hrun⟩ := run_overlap
  exact ⟨r, remnant, hrun, by decide, run_remnant⟩

end Introspect.Store
