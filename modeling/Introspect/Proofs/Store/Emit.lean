import Introspect.Proofs.Store.Append

/-! Files that are put at some places: what else changes, and that nothing does when they are put
there again. -/
namespace Introspect.Store
open FileTree Job

variable {path : Path} {patience : Patience} {w v u : Workspace} {r s stored : Registry}
  {text : String} {q : List String} {places more : List (List String)}

/-! ## The same files -/

/-- All files are what they were. -/
structure Same (w v : Workspace) : Prop where
  site : v.site = w.site
  find? : ∀ q, v.tree.find? q = w.tree.find? q

theorem Same.refl (w : Workspace) : Same w w := ⟨rfl, fun _ => rfl⟩

theorem Same.trans (h : Same w v) (h' : Same v u) : Same w u :=
  ⟨h'.site.trans h.site, fun q => (h'.find? q).trans (h.find? q)⟩

theorem Holds.of_same (h : Holds path text w) (hv : Same w v) : Holds path text v := by
  have hkept : ∀ p, w.tree.find? p = some .directory → v.tree.find? p = some .directory :=
    fun p hp => (hv.find? p).trans hp
  obtain ⟨hnull, ⟨d, hd, hdirectory⟩, q, hq, hfile⟩ := h
  refine ⟨hnull, ⟨d, ?_, hkept d hdirectory⟩, q, ?_, (hv.find? q).trans hfile⟩ <;> rw [hv.site]
  · exact locate_mono hkept hd
  · exact locate_mono hkept hq

/-- What a file holds already can be put there again. -/
theorem Holds.puts_again (h : Holds path text w) : ∃ v, Puts path text w v ∧ Same w v := by
  obtain ⟨q, -, hfile, hputs⟩ := h.puts text
  refine ⟨_, hputs, rfl, fun k => ?_⟩
  rw [find?_put]
  split
  · next he => rw [← he, hfile]
  · rfl

/-! ## Some places -/

/-- Files were put at some places where no directories were, and directories made. -/
structure Emits (places : List (List String)) (w v : Workspace) : Prop where
  site : v.site = w.site
  files : ∀ q ∈ places, w.tree.find? q ≠ some .directory ∧
    ∃ text, v.tree.find? q = some (.file text)
  other : ∀ q, q ∉ places → v.tree.find? q = w.tree.find? q ∨
    w.tree.find? q = none ∧ v.tree.find? q = some .directory

namespace Emits

theorem refl (w : Workspace) : Emits [] w w := ⟨rfl, nofun, fun _ _ => .inl rfl⟩

theorem append (h : Emits places w v) (h' : Emits more v u) : Emits (places ++ more) w u where
  site := h'.site.trans h.site
  files := by
    intro q hq
    by_cases hmore : q ∈ more
    · obtain ⟨hfree, hfile⟩ := h'.files q hmore
      refine ⟨fun hdirectory => hfree ?_, hfile⟩
      by_cases hplaces : q ∈ places
      · exact absurd hdirectory (h.files q hplaces).1
      · rcases h.other q hplaces with hsame | ⟨hnone, -⟩
        · rw [hsame, hdirectory]
        · rw [hnone] at hdirectory
          cases hdirectory
    · obtain ⟨hfree, text, hfile⟩ := h.files q ((List.mem_append.1 hq).resolve_right hmore)
      refine ⟨hfree, text, ?_⟩
      rcases h'.other q hmore with hsame | ⟨hnone, -⟩
      · rw [hsame, hfile]
      · rw [hnone] at hfile
        cases hfile
  other := by
    intro q hq
    rw [List.mem_append, not_or] at hq
    rcases h.other q hq.1 with hsame | ⟨hnone, hdirectory⟩
    · rw [← hsame]
      exact h'.other q hq.2
    · refine .inr ⟨hnone, ?_⟩
      rcases h'.other q hq.2 with hsame | ⟨hnone', -⟩
      · rw [hsame, hdirectory]
      · rw [hdirectory] at hnone'
        cases hnone'

variable (h : Emits places w v)
include h

theorem of_found {n : Node} (hq : q ∉ places) (hn : w.tree.find? q = some n) :
    v.tree.find? q = some n := by
  rcases h.other q hq with hsame | ⟨hnone, -⟩
  · rw [hsame, hn]
  · rw [hn] at hnone
    cases hnone

theorem directory (hq : w.tree.find? q = some .directory) : v.tree.find? q = some .directory :=
  h.of_found (fun hmem => (h.files q hmem).1 hq) hq

theorem present (hq : w.tree.find? q ≠ none) : v.tree.find? q ≠ none := by
  by_cases hmem : q ∈ places
  · obtain ⟨-, text, hfile⟩ := h.files q hmem
    simp [hfile]
  · obtain ⟨n, hn⟩ := Option.ne_none_iff_exists'.1 hq
    simp [h.of_found hmem hn]

theorem locate {p : Path} (hp : w.tree.locate w.site.cwd p = .ok q) :
    v.tree.locate v.site.cwd p = .ok q := by
  rw [h.site]
  exact locate_mono (fun _ => h.directory) hp

/-- What was put elsewhere leaves a file what it is. -/
theorem holds (hheld : Holds path text w) (hpath : path.fold w.site.cwd ∉ places) :
    Holds path text v := by
  obtain ⟨hnull, ⟨d, hd, hdirectory⟩, q, hq, hfile⟩ := hheld
  exact ⟨hnull, ⟨d, h.locate hd, h.directory hdirectory⟩, q, h.locate hq,
    h.of_found (locate_ok hq ▸ hpath) hfile⟩

end Emits

theorem Puts.emits (h : Puts path text w v) : Emits [path.fold w.site.cwd] w v := by
  obtain ⟨-, w₁, q, hmake, hq, hfree, rfl⟩ := h
  obtain ⟨-, hmade, hsite⟩ := run_makeDirectory_ok_iff.1 hmake
  have hextends := extends_makeDirectory w.tree w.site.cwd path.parent
  rw [hmade] at hextends
  have hplace : path.fold w.site.cwd = q := by
    rw [locate_ok hq, hsite]
  rw [hplace]
  refine ⟨by rw [hsite], fun k hk => ?_, fun k hk => ?_⟩
  · obtain rfl := List.mem_singleton.1 hk
    exact ⟨fun hd => hfree (hextends.directory hd), text, by rw [find?_put, if_pos rfl]⟩
  · rw [find?_put, if_neg fun he => hk (List.mem_singleton.2 he.symm)]
    exact (hextends k).imp_right fun ⟨hnone, hdirectory, _⟩ => ⟨hnone, hdirectory⟩

/-- The directories that are made are on the way to the file. -/
theorem Puts.directories (h : Puts path text w v) (hp : path.parent.Straight)
    (hq : v.tree.find? q = some .directory) :
    w.tree.find? q = some .directory ∨ q <+: path.parent.parts := by
  obtain ⟨-, w₁, place, hmake, -, -, rfl⟩ := h
  obtain ⟨-, hmade, -⟩ := run_makeDirectory_ok_iff.1 hmake
  have hextends := extends_makeDirectory w.tree w.site.cwd path.parent
  rw [hmade] at hextends
  rw [find?_put] at hq
  split at hq
  · cases hq
  · rcases hextends.straight hp q with hsame | ⟨-, -, hprefix⟩
    · exact .inl (hsame ▸ hq)
    · exact .inr hprefix

theorem Puts.wellFormed (hw : w.WellFormed) (hp : path.Rooted) (h : Puts path text w v) :
    v.WellFormed := by
  obtain ⟨hnull, w₁, q, hmake, hq, hfree, rfl⟩ := h
  obtain ⟨-, hmade, hsite⟩ := run_makeDirectory_ok_iff.1 hmake
  have hmade' : w₁.tree.WellFormed := by
    have hwell : (w.tree.makeDirectory w.site.cwd path.parent).1.WellFormed :=
      hw.tree.makeDirectory hp.parent (hasNull_parent hnull)
    rwa [hmade] at hwell
  have hcwd := hw.cwd
  rw [hsite] at hq ⊢
  exact ⟨hmade'.put (hmade'.room_of_locate hp hnull hq) (.inl hfree), hcwd⟩

/-! ## Free places -/

/-- A file can be at the path: its directory is there, and no directory is in its place. -/
structure Free (path : Path) (w : Workspace) : Prop where
  known : path.hasNull = false
  directory : ∃ q, w.tree.locate w.site.cwd path.parent = .ok q ∧
    w.tree.find? q = some .directory
  place : ∃ q, w.tree.locate w.site.cwd path = .ok q ∧ w.tree.find? q ≠ some .directory

theorem Holds.free (h : Holds path text w) : Free path w := by
  obtain ⟨hnull, hdirectory, q, hq, hfile⟩ := h
  exact ⟨hnull, hdirectory, q, hq, by simp [hfile]⟩

theorem Free.of_same (h : Free path w) (hv : Same w v) : Free path v := by
  have hkept : ∀ p, w.tree.find? p = some .directory → v.tree.find? p = some .directory :=
    fun p hp => (hv.find? p).trans hp
  obtain ⟨hnull, ⟨d, hd, hdirectory⟩, q, hq, hfree⟩ := h
  refine ⟨hnull, ⟨d, ?_, hkept d hdirectory⟩, q, ?_, (hv.find? q).trans_ne hfree⟩ <;> rw [hv.site]
  · exact locate_mono hkept hd
  · exact locate_mono hkept hq

/-- A text can be put at a free place, and what was free stays so. -/
theorem Free.puts (h : Free path w) (text : String) :
    ∃ v, Puts path text w v ∧ ∀ p, Free p w → Free p v := by
  obtain ⟨hnull, ⟨d, hd, hdirectory⟩, q, hq, hfree⟩ := h
  have hmake : (Job.makeDirectory path.parent).run w = .ok () w := by
    rw [Job.run_makeDirectory_ok_iff]
    exact ⟨FileTree.hasNull_parent hnull, FileTree.makeDirectory_of_directory hd hdirectory, rfl⟩
  refine ⟨_, ⟨hnull, w, q, hmake, hq, hfree, rfl⟩, ?_⟩
  have hkept : ∀ p, (w.tree.put q (.file text)).find? p = some .directory ↔
      w.tree.find? p = some .directory := by
    intro p
    rw [find?_put]
    split
    · next he => simp [← he, hfree]
    · exact Iff.rfl
  rintro p ⟨hnull, ⟨d, hd, hdirectory⟩, q, hq, hfree⟩
  exact ⟨hnull, ⟨d, locate_mono (fun p => (hkept p).2) hd, (hkept d).2 hdirectory⟩, q,
    locate_mono (fun p => (hkept p).2) hq, mt (hkept q).1 hfree⟩

/-! ## Registry files -/

/-- What was in a registry file before something was added: nothing where there was none. -/
theorem exists_of_run_append (h : (append path r patience).run w = .ok s v) :
    ∃ stored, s = ((Registry.empty r.hash).union stored).union r ∧ 0 < patience.attempts ∧
      Puts path (Document.toText s (some indentation)) w v ∧
      (stored = .empty r.hash ∨ (read path r.hash patience).run w = .ok stored w) := by
  unfold append at h
  obtain ⟨present, w₁, hpresent, hrest⟩ := run_bind_ok_iff.1 h
  obtain rfl := eq_of_run_isThere hpresent
  cases present with
  | false =>
    obtain ⟨stored, w₂, hstored, hadd⟩ := run_bind_ok_iff.1 hrest
    cases hstored
    obtain ⟨⟨⟩, w₂, hwrite, hpure⟩ := run_bind_ok_iff.1 hadd
    cases hpure
    obtain ⟨hattempts, hputs⟩ := run_write_ok_iff.1 hwrite
    exact ⟨_, rfl, hattempts, hputs, .inl rfl⟩
  | true =>
    obtain ⟨stored, w₂, hread, hadd⟩ := run_bind_ok_iff.1 hrest
    obtain ⟨-, -, rfl, -⟩ := run_read_ok_iff.1 hread
    obtain ⟨⟨⟩, w₃, hwrite, hpure⟩ := run_bind_ok_iff.1 hadd
    cases hpure
    obtain ⟨hattempts, hputs⟩ := run_write_ok_iff.1 hwrite
    exact ⟨stored, rfl, hattempts, hputs, .inr hread⟩

/-- What was added to a registry file once can be added again. -/
theorem exists_run_append_again (h : Holds path (Document.toText s (some indentation)) w)
    (hp : 0 < patience.attempts)
    (hread : Document.ofText r.hash (Document.toText s (some indentation)) = .ok stored)
    (hagain : Document.toText (((Registry.empty r.hash).union stored).union r)
      (some indentation) = Document.toText s (some indentation)) :
    ∃ s' v, (append path r patience).run w = .ok s' v ∧ Same w v := by
  have hrun : (read path r.hash patience).run w = .ok stored w := by
    rw [read, run_bind_of_ok (h.readText hp), hread]
    rfl
  obtain ⟨v, hputs, hsame⟩ := h.puts_again
  rw [← hagain] at hputs
  refine ⟨((Registry.empty r.hash).union stored).union r, v, ?_, hsame⟩
  rw [append, run_bind_of_ok h.run_isPresent, if_pos rfl, run_bind_of_ok hrun]
  exact run_bind_of_ok (run_write_ok_iff.2 ⟨hp, hputs⟩)

end Introspect.Store
