import Introspect.Proofs.Pass.Frame

/-! Cleaning up removes exactly what is left over: empty generated files that the settings do not
keep, and directories with no file anywhere in them. Cleaning up again changes nothing. -/
namespace Introspect

namespace FileTree
variable {t : FileTree} {output : List String} {places : List (List String)}

/-! ## Trees without anything to remove -/

theorem removeEmptyFiles_eq_self (h : ∀ p ∈ places, t.find? p ≠ some (.file "")) :
    t.removeEmptyFiles places = t := by
  induction places with
  | nil => rfl
  | cons place places ih =>
    have hplace : ¬ (t.text? place == some "") = true := by
      simpa using mt text?_eq_some_iff.1 (h place (List.mem_cons_self ..))
    rw [removeEmptyFiles, List.foldl_cons, if_neg hplace]
    exact ih fun p hp => h p (List.mem_cons_of_mem _ hp)

private theorem removeIfEmpty_eq_self {place : List String}
    (h : t.find? place = some .directory → ¬ t.Bare place) : t.removeIfEmpty place = t := by
  unfold removeIfEmpty
  split
  · next hempty =>
    rw [Bool.and_eq_true, isDirectory_iff, List.isEmpty_iff] at hempty
    refine absurd (fun q hq => ?_) (h hempty.1)
    by_contra hfound
    have hmem := mem_below_iff.2 ⟨hempty.1, hq, hfound⟩
    rw [hempty.2] at hmem
    cases hmem
  · rfl

theorem removeEmptyDirectories_eq_self
    (h : ∀ q, Below output q → t.find? q = some .directory → ¬ t.Bare q) :
    t.removeEmptyDirectories output = t := by
  suffices hall : ∀ places : List (List String), (∀ p ∈ places, Below output p) →
      places.foldl removeIfEmpty t = t by
    refine hall _ fun p hp => ?_
    rw [List.mem_mergeSort, List.mem_filter, mem_below_iff] at hp
    exact hp.1.2.1
  intro places hplaces
  induction places with
  | nil => rfl
  | cons place places ih =>
    obtain ⟨hplace, hplaces⟩ := List.forall_mem_cons.1 hplaces
    rw [List.foldl_cons, removeIfEmpty_eq_self (h place hplace)]
    exact ih hplaces

/-- A directory with something below it has something in it. -/
theorem WellFormed.exists_child {p q : List String} (ht : t.WellFormed) (hp : Below q p)
    (hfound : t.find? p ≠ none) : ∃ name, t.find? (q ++ [name]) ≠ none := by
  obtain ⟨⟨rest, rfl⟩, hne⟩ := hp
  cases rest with
  | nil => simp at hne
  | cons name rest =>
    refine ⟨name, fun hnone => hfound ?_⟩
    have hlist : q ++ name :: rest = q ++ [name] ++ rest := by simp
    rw [hlist]
    cases rest with
    | nil => simpa using hnone
    | cons next rest => exact ht.below (by simp [hnone]) (List.prefix_append _ _) (by simp)

end FileTree

namespace Pass
open FileTree Job
variable {s : Settings} {w : Workspace} {t t' : FileTree}

/-- The tree without what cleaning up removes. -/
def sweep (s : Settings) (t : FileTree) : FileTree :=
  (t.removeEmptyFiles ((expendable s).flatMap fun e =>
    t.search s.outputDirectory.parts ("*" ++ e))).removeEmptyDirectories s.outputDirectory.parts

theorem sweep_eq_self (hfiles : ∀ q, Expendable s q → t.find? q ≠ some (.file ""))
    (hdirectories : ∀ q, Below s.outputDirectory.parts q → t.find? q = some .directory →
      ¬ t.Bare q) : sweep s t = t := by
  rw [sweep, removeEmptyFiles_eq_self, removeEmptyDirectories_eq_self hdirectories]
  intro q hq hempty
  exact hfiles q (mem_sweep_iff.1 ⟨hq, hempty⟩).2.1 hempty

/-- There is nothing to remove where the output directory is not there. -/
theorem sweep_of_missing (ht : t.WellFormed)
    (hmissing : t.find? s.outputDirectory.parts ≠ some .directory) : sweep s t = t := by
  have hnone : ∀ q, Below s.outputDirectory.parts q → t.find? q = none := fun q hq =>
    ht.below hmissing hq.1 hq.2
  apply sweep_eq_self
  · intro q hq
    simp [hnone q hq.1]
  · intro q hq hdirectory
    rw [hnone q hq] at hdirectory
    cases hdirectory

/-- Cleaning up succeeds, unless the output directory has too long a path to look it up. -/
theorem run_cleanUp (hs : s.Resolved) (hw : w.WellFormed)
    (hknown : ∀ p, w.tree.locate w.site.cwd s.outputDirectory ≠ .error (.nameTooLong p)) :
    (cleanUp s).run w = .ok () { w with tree := sweep s w.tree } := by
  have habsent : w.tree.find? s.outputDirectory.parts ≠ some .directory →
      EStateM.Result.ok () w = (.ok () { w with tree := sweep s w.tree } :
        EStateM.Result Failure Workspace Unit) := fun hmissing => by
    rw [sweep_of_missing hw.tree hmissing]
  unfold cleanUp
  cases hnull : s.outputDirectory.hasNull with
  | true =>
    have hpresent : (isPresent s.outputDirectory).run w = .ok false w := by
      rw [isPresent, Job.isThere, if_pos hnull]
      rfl
    rw [run_bind_of_ok hpresent]
    refine habsent fun hdirectory => ?_
    rw [hw.tree.hasNull (by simp [hdirectory])] at hnull
    cases hnull
  | false =>
    obtain ⟨present, hpresent⟩ := exists_isThere_iff.2 hknown
    have hrun : (isPresent s.outputDirectory).run w = .ok present w :=
      (run_isThere_ok_iff hnull).2 ⟨hpresent, rfl⟩
    rw [run_bind_of_ok hrun]
    cases present with
    | false =>
      refine habsent ?_
      rw [find?_of_isThere_false hw.tree hs.outputDirectory hpresent]
      simp
    | true =>
      rw [if_pos rfl, run_bind_of_ok run_cwd, hs.outputDirectory.fold]
      exact run_adjust _

/-- The settings do not keep empty generated files of that name. -/
def Unkept (s : Settings) (name : String) : Prop :=
  s.deleteEmptyHeaders = true ∧ Text.endsWith GeneratedPath.headerExtension name = true ∨
    s.deleteEmptySources = true ∧ Text.endsWith GeneratedPath.sourceExtension name = true

theorem expendable_iff {q : List String} : Expendable s q ↔
    Below s.outputDirectory.parts q ∧ Unkept s (q.getLast?.getD "") := by
  have hends : ∀ e name : String, Text.endsWith e name = true ↔ e.toList <:+ name.toList := by
    intro e name
    rw [Text.endsWith, Option.isSome_iff_exists]
    constructor
    · rintro ⟨front, hfront⟩
      rw [Text.beforeSuffix?_eq_some_iff.1 hfront, String.toList_append]
      exact List.suffix_append _ _
    · rintro ⟨front, hfront⟩
      exact ⟨String.ofList front, Text.beforeSuffix?_eq_some_iff.2
        (String.toList_inj.1 (by simp [hfront]))⟩
  refine and_congr_right fun _ => ?_
  simp only [mem_expendable, Unkept, hends]
  constructor
  · rintro ⟨e, ⟨rfl, hset⟩ | ⟨rfl, hset⟩, hname⟩
    exacts [.inl ⟨hset, hname⟩, .inr ⟨hset, hname⟩]
  · rintro (⟨hset, hname⟩ | ⟨hset, hname⟩)
    exacts [⟨_, .inl ⟨rfl, hset⟩, hname⟩, ⟨_, .inr ⟨rfl, hset⟩, hname⟩]

/-- The files that are left are those that are not empty, not below the output directory, or kept
for their names; the directories that are left are those with a file left in them, and all that are
not below the output directory. -/
structure Cleaned (s : Settings) (t t' : FileTree) : Prop where
  files : ∀ q text, t'.find? q = some (.file text) ↔ t.find? q = some (.file text) ∧
    ¬ (text = "" ∧ Below s.outputDirectory.parts q ∧ Unkept s (q.getLast?.getD ""))
  directories : ∀ q, t'.find? q = some .directory ↔ t.find? q = some .directory ∧
    (Below s.outputDirectory.parts q → ∃ p text, Below q p ∧ t'.find? p = some (.file text))

/-- What was swept is cleaned: below the output directory, no directory is left with nothing in it, so
each leads down to a file. -/
theorem Swept.cleaned (ht : t.WellFormed) (h : Swept s t t') : Cleaned s t t' := by
  have houtput : ∀ {q}, Below s.outputDirectory.parts q → t.find? q ≠ none →
      t.find? s.outputDirectory.parts = some .directory := fun hq hfound =>
    ht.above hfound hq.1 hq.2
  constructor
  · intro q text
    rw [← expendable_iff]
    constructor
    · intro hfile
      have hbefore : t.find? q = some (.file text) := by
        rcases h.change q with hsame | ⟨-, -, hgone⟩ | ⟨-, -, hgone, -⟩
        · exact hsame ▸ hfile
        all_goals rw [hgone] at hfile; cases hfile
      refine ⟨hbefore, ?_⟩
      rintro ⟨rfl, hq⟩
      exact h.files (houtput hq.1 (by simp [hbefore])) q hq hfile
    · rintro ⟨hfile, hkept⟩
      rcases h.change q with hsame | ⟨hq, hempty, -⟩ | ⟨-, hdirectory, -⟩
      · rw [hsame, hfile]
      · rw [hfile] at hempty
        cases hempty
        exact absurd ⟨rfl, hq⟩ hkept
      · rw [hfile] at hdirectory
        cases hdirectory
  · intro q
    constructor
    · intro hdirectory
      have hbefore : t.find? q = some .directory := by
        rcases h.change q with hsame | ⟨-, -, hgone⟩ | ⟨-, -, hgone, -⟩
        · exact hsame ▸ hdirectory
        all_goals rw [hgone] at hdirectory; cases hdirectory
      refine ⟨hbefore, fun hq => ?_⟩
      have htop := houtput hq (by simp [hbefore])
      exact exists_file_below (h.directories htop) hq hdirectory
    · rintro ⟨hdirectory, hfull⟩
      rcases h.change q with hsame | ⟨-, hempty, -⟩ | ⟨hq, -, -, hbare⟩
      · rw [hsame, hdirectory]
      · rw [hdirectory] at hempty
        cases hempty
      · obtain ⟨p, text, hp, hfile⟩ := hfull hq
        rw [hbare p hp] at hfile
        cases hfile

/-- A tree that was cleaned up has nothing to remove. -/
theorem Cleaned.sweep_eq_self (h : Cleaned s t t') : sweep s t' = t' := by
  refine Pass.sweep_eq_self (fun q hq hempty => ?_) fun q hq hdirectory hbare => ?_
  · exact ((h.files q "").1 hempty).2 ⟨rfl, expendable_iff.1 hq⟩
  · obtain ⟨p, text, hp, hfile⟩ := ((h.directories q).1 hdirectory).2 hq
    rw [hbare p hp] at hfile
    cases hfile

/-- What is not below the output directory stays. -/
theorem Cleaned.find?_eq (h : Cleaned s t t') {q : List String}
    (hq : ¬ Below s.outputDirectory.parts q) : t'.find? q = t.find? q := by
  refine Option.ext fun n => ?_
  cases n with
  | file text =>
    rw [h.files, and_iff_left]
    exact fun hleft => hq hleft.2.1
  | directory =>
    rw [h.directories, and_iff_left]
    exact fun hb => absurd hb hq

/-- Cleaning up removes empty generated files that the settings do not keep, and directories with
no file left in them, and nothing else. The output directory stays, no directory below it is left
with nothing in it, and cleaning up again changes nothing. -/
theorem cleanUp_removesLeftOvers (hs : s.Resolved) (hw : w.WellFormed)
    (hknown : ∀ p, w.tree.locate w.site.cwd s.outputDirectory ≠ .error (.nameTooLong p)) :
    ∃ t, (cleanUp s).run w = .ok () { w with tree := t } ∧ Cleaned s w.tree t ∧
      (∀ q, Below s.outputDirectory.parts q → t.find? q = some .directory →
        ∃ name, t.find? (q ++ [name]) ≠ none) ∧
      t.find? s.outputDirectory.parts = w.tree.find? s.outputDirectory.parts ∧
      (cleanUp s).run { w with tree := t } = .ok () { w with tree := t } := by
  have hrun := run_cleanUp hs hw hknown
  have hturns := (ends_cleanUp hs hw).of_ok hrun
  have hcleaned := hturns.tree.cleaned hw.tree
  have habove : ∀ k, k <+: s.outputDirectory.parts →
      (sweep s w.tree).find? k = w.tree.find? k := fun k hk =>
    hcleaned.find?_eq fun hb => hb.2 (hb.1.eq_of_length_le hk.length_le)
  refine ⟨_, hrun, hcleaned, fun q hq hdirectory => ?_, habove _ (List.prefix_refl _), ?_⟩
  · obtain ⟨p, text, hp, hfile⟩ := ((hcleaned.directories q).1 hdirectory).2 hq
    exact hturns.wellFormed.exists_child hp (by simp [hfile])
  · have hagain := run_cleanUp (w := { w with tree := sweep s w.tree }) hs (hturns.workspace hw)
      fun p => by
        rw [locate_congr hs.outputDirectory habove]
        exact hknown p
    rw [hagain]
    dsimp only
    rw [hcleaned.sweep_eq_self]

/-! ## Leftovers in a row of directories -/

/-- An output directory with an empty source in a chain of directories, and files that are kept. -/
def cluttered : Workspace :=
  .start ⟨[], default, []⟩ ⟨.ofList [([], .directory), (["generated"], .directory),
    (["generated", "a.reflgen.h"], .file ""), (["generated", "a.reflgen.cpp"], .file ""),
    (["generated", "ui"], .directory), (["generated", "ui", "old"], .directory),
    (["generated", "ui", "old", "b.reflgen.cpp"], .file ""),
    (["generated", "game"], .directory),
    (["generated", "game", "c.reflgen.cpp"], .file "// c")]⟩

/-- The chain of directories is gone with the source in it, and what is kept is still there. -/
theorem cleanUp_removesLeftOvers_cluttered : beside.Resolved ∧ cluttered.WellFormed ∧
    (∀ p, cluttered.tree.locate cluttered.site.cwd beside.outputDirectory ≠
      .error (.nameTooLong p)) ∧
    ∃ t, (cleanUp beside).run cluttered = .ok () { cluttered with tree := t } ∧
      t.find? ["generated", "ui"] = none ∧
      t.find? ["generated", "a.reflgen.h"] = some (.file "") ∧
      t.find? ["generated", "game", "c.reflgen.cpp"] = some (.file "// c") := by
  have hwell : cluttered.WellFormed := ⟨.of_keys (by decide) (by decide), by decide⟩
  have hlocate : cluttered.tree.locate cluttered.site.cwd beside.outputDirectory =
      .ok ["generated"] := by decide
  have hknown : ∀ p, cluttered.tree.locate cluttered.site.cwd beside.outputDirectory ≠
      .error (.nameTooLong p) := by
    rw [hlocate]
    nofun
  obtain ⟨t, hrun, hcleaned, -, -, -⟩ := cleanUp_removesLeftOvers resolved_beside hwell hknown
  refine ⟨resolved_beside, hwell, hknown, t, hrun, ?_, ?_, ?_⟩
  · have hbefore : cluttered.tree.find? ["generated", "ui"] = some .directory := by decide
    have hempty : ∀ k ∈ cluttered.tree.nodes.keys, ["generated", "ui"] <+: k →
        cluttered.tree.find? k = some .directory ∨ cluttered.tree.find? k = some (.file "") ∧
          k = ["generated", "ui", "old", "b.reflgen.cpp"] := by decide
    cases hafter : t.find? ["generated", "ui"] with
    | none => rfl
    | some n =>
      cases n with
      | file text => cases hbefore.symm.trans ((hcleaned.files _ text).1 hafter).1
      | directory =>
        obtain ⟨p, text, hp, hfile⟩ :=
          ((hcleaned.directories _).1 hafter).2 ⟨by decide, by decide⟩
        obtain ⟨hfile, hkept⟩ := (hcleaned.files p text).1 hfile
        have hkey : p ∈ cluttered.tree.nodes.keys :=
          Table.mem_keys_iff.2 (Option.ne_none_iff_exists'.2 ⟨_, hfile⟩)
        rcases hempty p hkey hp.1 with hd | ⟨hf, rfl⟩
        · cases hd.symm.trans hfile
        · cases hf.symm.trans hfile
          exact absurd ⟨rfl, ⟨by decide, by decide⟩, .inr ⟨by decide, by decide⟩⟩ hkept
  · have hkept : ¬ Unkept beside "a.reflgen.h" := by
      unfold Unkept
      decide
    exact (hcleaned.files _ _).2 ⟨by decide, fun hleft => hkept hleft.2.2⟩
  · exact (hcleaned.files _ _).2 ⟨by decide, fun hleft => absurd hleft.1 (by decide)⟩

end Pass
end Introspect
