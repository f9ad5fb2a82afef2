import Mathlib.Data.List.Nodup
import Introspect.Proofs.FileTree.Selection
import Introspect.Proofs.Store.Place
import Introspect.Proofs.Text.Wildcard
import Introspect.Proofs.Workspace

/-! Which registry files there are below a directory, and in which order they come. -/
namespace Introspect.Store
open FileTree Job

variable {w v : Workspace} {t t' : FileTree} {cwd : List String} {output : Path}
  {files files' : List Path} {q : List String}

/-- Something with the name of a registry file is at a place below a directory that is there. -/
structure IsRegistry (t : FileTree) (cwd : List String) (output : Path) (q : List String) :
    Prop where
  reached : t.isThere (· == .directory) cwd output = .ok true
  present : t.find? q ≠ none
  named : ∃ place stem,
    q = output.fold cwd ++ (place ++ [stem ++ GeneratedPath.registryExtension])

/-- The path through a directory to a place below it. -/
def beneath (cwd : List String) (output : Path) (q : List String) : Path :=
  { output with parts := output.parts ++ q.drop (output.fold cwd).length }

theorem beneath_straight (houtput : output.Straight) (h : output.parts <+: q) :
    beneath cwd output q = .absolute q := by
  obtain ⟨rest, rfl⟩ := h
  rw [beneath, houtput.fold, List.drop_left, Path.absolute, houtput.anchor]

namespace IsRegistry
variable (h : IsRegistry t cwd output q)
include h

theorem directory : t.find? (output.fold cwd) = some .directory :=
  (directory_of_isThere h.reached).2

theorem exists_beneath : ∃ rest, q = output.fold cwd ++ rest ∧
    beneath cwd output q = { output with parts := output.parts ++ rest } := by
  obtain ⟨place, stem, rfl⟩ := h.named
  exact ⟨_, rfl, by rw [beneath, List.drop_left]⟩

theorem fold_beneath (ht : t.WellFormed) : (beneath cwd output q).fold cwd = q := by
  obtain ⟨rest, rfl, hbeneath⟩ := h.exists_beneath
  have hrest : ".." ∉ rest := fun hm =>
    (ht.names _ h.present ".." (List.mem_append_right _ hm)).1.up rfl
  rw [hbeneath]
  exact Path.fold_join_down cwd output hrest

theorem locate_beneath (ht : t.WellFormed) : t.locate cwd (beneath cwd output q) =
    if pathLimit < (beneath cwd output q).toString.utf8ByteSize then
      .error (.nameTooLong (beneath cwd output q))
    else .ok q := by
  have hpresent := h.present
  obtain ⟨rest, rfl, hbeneath⟩ := h.exists_beneath
  rw [hbeneath]
  exact FileTree.locate_beneath ht h.reached hpresent

theorem hasNull_beneath (ht : t.WellFormed) : (beneath cwd output q).hasNull = false := by
  have hpresent := h.present
  have houtput := hasNull_of_isThere ht h.reached
  obtain ⟨rest, rfl, hbeneath⟩ := h.exists_beneath
  rw [hbeneath]
  simp only [Path.hasNull, List.any_append, Bool.or_eq_false_iff] at houtput ⊢
  refine ⟨houtput, List.any_eq_false.2 fun s hs => ?_⟩
  simpa using (ht.names _ hpresent s (List.mem_append_right _ hs)).2

end IsRegistry

/-- The files that are found are all registry files, each once, in order. -/
structure Finds (t : FileTree) (cwd : List String) (output : Path) (files : List Path) : Prop where
  mem : ∀ p, p ∈ files ↔ ∃ q, IsRegistry t cwd output q ∧ p = beneath cwd output q
  sorted : files.Pairwise fun a b => Path.le a b = true
  nodup : files.Nodup

/-- Paths can be sorted in one way only. -/
theorem eq_of_sorted (hsorted : files.Pairwise fun a b => Path.le a b = true)
    (hsorted' : files'.Pairwise fun a b => Path.le a b = true) (hnodup : files.Nodup)
    (hnodup' : files'.Nodup) (hmem : ∀ p, p ∈ files ↔ p ∈ files') : files = files' :=
  ((List.perm_ext_iff_of_nodup hnodup hnodup').2 hmem).eq_of_pairwise
    (fun _ _ _ _ => Path.le_antisymm) hsorted hsorted'

/-- What is found comes in one order only. -/
theorem Finds.unique (h : Finds t cwd output files) (h' : Finds t cwd output files') :
    files = files' :=
  eq_of_sorted h.sorted h'.sorted h.nodup h'.nodup fun p => (h.mem p).trans (h'.mem p).symm

theorem mem_search_registries
    (h : t.isThere (· == .directory) cwd output = .ok true) :
    q ∈ t.search (output.fold cwd) ("*" ++ GeneratedPath.registryExtension) ↔
      IsRegistry t cwd output q := by
  have hplain : Text.Plain GeneratedPath.registryExtension.toList := by decide
  rw [mem_search_iff, Text.fits_star hplain]
  constructor
  · rintro ⟨-, ⟨⟨rest, rfl⟩, hne⟩, hfound, hsuffix⟩
    obtain ⟨place, name, rfl⟩ : ∃ place name, rest = place ++ [name] := by
      have hrest : rest ≠ [] := by
        rintro rfl
        exact hne (List.append_nil _).symm
      exact ⟨_, _, (List.dropLast_concat_getLast hrest).symm⟩
    rw [← List.append_assoc, List.getLast?_concat, Option.getD_some] at hsuffix
    obtain ⟨stem, hstem⟩ := hsuffix
    refine ⟨h, hfound, place, String.ofList stem, ?_⟩
    have hname : name = String.ofList stem ++ GeneratedPath.registryExtension :=
      String.toList_inj.1 (by simp [hstem])
    rw [hname]
  · rintro ⟨-, hfound, place, stem, rfl⟩
    refine ⟨(directory_of_isThere h).2, ⟨List.prefix_append _ _, by simp⟩, hfound, ?_⟩
    rw [← List.append_assoc, List.getLast?_concat, Option.getD_some, String.toList_append]
    exact List.suffix_append _ _

private theorem finds_search (h : t.isThere (· == .directory) cwd output = .ok true) :
    Finds t cwd output (((t.search (output.fold cwd) ("*" ++ GeneratedPath.registryExtension)).map
      (beneath cwd output)).mergeSort Path.le) := by
  refine ⟨fun p => ?_, ?_, ?_⟩
  · simp only [List.mem_mergeSort, List.mem_map, mem_search_registries h, eq_comm]
  · exact List.pairwise_mergeSort Path.le_trans Path.le_total _
  · refine (List.mergeSort_perm _ _).nodup_iff.2 (List.Nodup.map_on ?_ ?_)
    · intro p hp q hq he
      obtain ⟨rest, rfl, hbeneath⟩ := ((mem_search_registries h).1 hp).exists_beneath
      obtain ⟨rest', rfl, hbeneath'⟩ := ((mem_search_registries h).1 hq).exists_beneath
      rw [hbeneath, hbeneath', Path.mk.injEq] at he
      rw [List.append_cancel_left he.2]
    · rw [FileTree.search, below, if_pos (isDirectory_iff.2 (directory_of_isThere h).2)]
      exact (t.nodes.nodup_keys.filter _).filter _

/-- Where the registry files stand in the tree in the order of their paths, they are found so. -/
theorem finds_of_sorted (h : t.isThere (· == .directory) cwd output = .ok true)
    (hfiles : (t.search (output.fold cwd) ("*" ++ GeneratedPath.registryExtension)).map
      (beneath cwd output) = files) (hsorted : files.Pairwise fun a b => Path.le a b = true) :
    Finds t cwd output files := by
  have hfinds := finds_search h
  rwa [hfiles, List.mergeSort_of_pairwise hsorted] at hfinds

private theorem finds_nothing (h : t.isThere (· == .directory) cwd output ≠ .ok true) :
    Finds t cwd output [] :=
  ⟨fun _ => ⟨nofun, fun ⟨_, hq, _⟩ => absurd hq.reached h⟩, List.Pairwise.nil, List.nodup_nil⟩

private theorem run_isDirectory {b : Bool} (hw : w.tree.WellFormed)
    (h : (Job.isDirectory output).run w = .ok b v) :
    v = w ∧ (b = true ↔ w.tree.isThere (· == .directory) w.site.cwd output = .ok true) := by
  cases hnull : output.hasNull with
  | true =>
    rw [Job.isDirectory, Job.isThere, if_pos hnull] at h
    cases h
    refine ⟨rfl, iff_of_false (by simp) fun hthere => ?_⟩
    rw [hasNull_of_isThere hw hthere] at hnull
    cases hnull
  | false =>
    obtain ⟨hthere, rfl⟩ := (run_isThere_ok_iff hnull).1 h
    exact ⟨rfl, by simp [hthere]⟩

/-- Where it is known whether the directory is there, the registry files below it are found. -/
theorem exists_run_find (hw : w.tree.WellFormed) (h : ∃ b, (Job.isDirectory output).run w = .ok b w) :
    ∃ files, (find output).run w = .ok files w ∧ Finds w.tree w.site.cwd output files := by
  obtain ⟨b, hb⟩ := h
  obtain ⟨-, hthere⟩ := run_isDirectory hw hb
  cases b with
  | false =>
    have hsearch : (Job.search output ("*" ++ GeneratedPath.registryExtension)).run w =
        .ok [] w := by
      rw [Job.search, run_bind_of_ok hb]
      rfl
    refine ⟨[], ?_, finds_nothing (by simpa using hthere)⟩
    rw [find, run_bind_of_ok hsearch, List.mergeSort_nil]
    rfl
  | true =>
    replace hthere := hthere.1 rfl
    refine ⟨_, ?_, finds_search hthere⟩
    have hlocate : (Job.ofSystem (w.tree.locate w.site.cwd output)).run w =
        .ok (output.fold w.site.cwd) w := by rw [(directory_of_isThere hthere).1, run_ofSystem_ok]
    have hsearch : (Job.search output ("*" ++ GeneratedPath.registryExtension)).run w =
        .ok ((w.tree.search (output.fold w.site.cwd)
          ("*" ++ GeneratedPath.registryExtension)).map (beneath w.site.cwd output)) w := by
      rw [Job.search, run_bind_of_ok hb, if_pos rfl, run_bind_of_ok run_get,
        run_bind_of_ok hlocate]
      rfl
    rw [find, run_bind_of_ok hsearch]
    rfl

/-- Where the search went through, it was known whether the directory is there. -/
theorem find_ok (hw : w.tree.WellFormed) (h : (find output).run w = .ok files v) :
    v = w ∧ Finds w.tree w.site.cwd output files ∧
      ∃ b, (Job.isDirectory output).run w = .ok b w := by
  have hknown : ∃ b, (Job.isDirectory output).run w = .ok b w := by
    unfold find at h
    obtain ⟨found, w₁, hsearch, -⟩ := run_bind_ok_iff.1 h
    unfold Job.search at hsearch
    obtain ⟨b, w₂, hb, -⟩ := run_bind_ok_iff.1 hsearch
    obtain ⟨rfl, -⟩ := run_isDirectory hw hb
    exact ⟨b, hb⟩
  obtain ⟨files', hrun, hfinds⟩ := exists_run_find hw hknown
  rw [hrun] at h
  cases h
  exact ⟨rfl, hfinds, hknown⟩

/-- A directory that a straight path leads down to is there, where that is known at all. -/
theorem isThere_of_directory (hw : w.tree.WellFormed) (houtput : output.Straight)
    (hdirectory : w.tree.find? output.parts = some .directory)
    (h : ∃ b, (Job.isDirectory output).run w = .ok b w) :
    w.tree.isThere (· == .directory) w.site.cwd output = .ok true := by
  obtain ⟨b, hb⟩ := h
  have hnull : output.hasNull = false := hw.hasNull (by simp [hdirectory])
  have hthere := ((run_isThere_ok_iff hnull).1 hb).1
  cases b with
  | true => exact hthere
  | false => cases test_of_isThere_false hw houtput hthere hdirectory

end Introspect.Store
