import Introspect.Proofs.Pass.Stages

/-! A pass over one file as a whole: preparing, examining, writing and cleaning up. -/
namespace Introspect.Pass
open FileTree Job

variable {s : Settings} {w w' v : Workspace} {cwd : List String} {t t' : FileTree}
  {input : Path} {hash : NameHash} {frontEnd : FrontEnd} {r : Registry} {e : Failure}

/-- A source file of the module: a path that the system knows, inside the module directory and
outside the output directory. -/
structure IsSource (s : Settings) (cwd : List String) (input : Path) : Prop where
  clean : input.Clean
  known : input.hasNull = false
  inside : Below s.moduleDirectory.parts (input.fold cwd)
  outside : ¬ s.outputDirectory.parts <+: input.fold cwd

/-- Parses an input, checks what the front end complains about, and reflects the unit. -/
def examine (s : Settings) (hash : NameHash) (frontEnd : FrontEnd) (input : Path) :
    Job Registry := do
  let unit ← frontEnd.parse input s.frontEndArguments
  Job.ofExcept (checkDiagnostics s.policy frontEnd.diagnostics)
  reflectUnit s hash unit

theorem reflectFile_eq (s : Settings) (hash : NameHash) (frontEnd : FrontEnd) (input : Path) :
    reflectFile s hash frontEnd input = (do
      Job.requireKnown input
      let input := input.resolve (← Job.cwd)
      prepare s input
      let r ← examine s hash frontEnd input
      emit s input r
      cleanUp s
      Job.report
        [.fileReflected input r.classes.size r.enums.size r.aliases.size r.functions.size]
      return r) := by
  simp only [reflectFile, examine, emit, bind_assoc]

/-! ## Examining -/

/-- What the reflection of a unit comes to, which does not depend on the files. -/
def Reflects (s : Settings) (hash : NameHash) (cwd : List String) (unit : CompilationUnit)
    (r : Registry) : Prop :=
  ∃ p, (Reflection.reflect ⟨unit, cwd, s.moduleDirectory, s.marker, s.bodyMarker⟩ unit.root).run
    (.start (.empty hash)) = .ok () p ∧ r = p.registry

theorem Reflects.unique {unit : CompilationUnit} {r r' : Registry}
    (h : Reflects s hash cwd unit r) (h' : Reflects s hash cwd unit r') : r = r' := by
  obtain ⟨p, hp, rfl⟩ := h
  obtain ⟨p', hp', rfl⟩ := h'
  cases hp.symm.trans hp'
  rfl

private theorem still_parse (frontEnd : FrontEnd) (input : Path) (arguments : List String) :
    Still (frontEnd.parse input arguments) := by
  have hnote : Still (modify fun w => { w with requests := w.requests ++ [⟨input, arguments⟩] } :
      Job PUnit) := fun _ => ends_of_ok rfl ⟨rfl, rfl⟩
  refine hnote.bind fun _ => ?_
  split
  · refine (still_isThere _ input).bind fun present => ?_
    cases present with
    | true => exact (still_report _).bind fun _ => still_pure _
    | false => exact still_throw _
  · exact still_pure _

private theorem still_reflectUnit (s : Settings) (hash : NameHash) (unit : CompilationUnit) :
    Still (reflectUnit s hash unit) := by
  refine still_cwd.bind fun cwd => ?_
  dsimp only
  split
  · exact (still_report _).bind fun _ => still_pure _
  · exact (still_report _).bind fun _ => still_throw _

/-- Examining an input leaves the files alone. -/
theorem still_examine (s : Settings) (hash : NameHash) (frontEnd : FrontEnd) (input : Path) :
    Still (examine s hash frontEnd input) :=
  (still_parse frontEnd input _).bind fun _ => (still_ofExcept _).bind fun _ =>
    still_reflectUnit s hash _

private theorem unit_of_parse {arguments : List String} {unit : CompilationUnit}
    (h : (frontEnd.parse input arguments).run w = .ok unit w') : unit = frontEnd.unit := by
  unfold FrontEnd.parse at h
  obtain ⟨_, w₁, -, h⟩ := run_bind_ok_iff.1 h
  split at h
  · obtain ⟨present, w₂, -, h⟩ := run_bind_ok_iff.1 h
    cases present with
    | true =>
      obtain ⟨_, w₃, -, h⟩ := run_bind_ok_iff.1 h
      cases h
      rfl
    | false => cases h
  · cases h
    rfl

theorem reflects_of_examine (h : (examine s hash frontEnd input).run w = .ok r w') :
    Reflects s hash w.site.cwd frontEnd.unit r := by
  unfold examine at h
  obtain ⟨unit, w₁, hparse, h⟩ := run_bind_ok_iff.1 h
  obtain ⟨_, w₂, hcheck, h⟩ := run_bind_ok_iff.1 h
  have hsite : w₂.site = w.site := by
    rw [((still_ofExcept _ w₁).of_ok hcheck).2, ((still_parse frontEnd input _ w).of_ok hparse).2]
  rw [unit_of_parse hparse] at h
  unfold reflectUnit at h
  rw [run_bind_of_ok run_cwd, hsite] at h
  dsimp only at h
  split at h
  · next p hrun =>
    obtain ⟨_, w₃, -, h⟩ := run_bind_ok_iff.1 h
    cases h
    exact ⟨p, hrun, rfl⟩
  · obtain ⟨_, w₃, -, h⟩ := run_bind_ok_iff.1 h
    cases h

/-! ## Places of outputs -/

theorem up_cwd (hw : w.WellFormed) : ".." ∉ w.site.cwd := fun h => (hw.cwd _ h).1.up rfl

/-- A source may be given by any path to it. -/
theorem place_resolve (hw : w.WellFormed) (extension : String) :
    place s w.site.cwd (input.resolve w.site.cwd) extension =
      place s w.site.cwd input extension :=
  congrArg Path.parts (GeneratedPath.ofSource_resolve (up_cwd hw))

theorem outputs_resolve (hw : w.WellFormed) :
    outputs s w.site.cwd (input.resolve w.site.cwd) = outputs s w.site.cwd input :=
  List.map_congr_left fun e _ => place_resolve hw e

/-- What is generated for a source of the module lies below the output directory as the source
lies below the module directory. -/
theorem place_eq (hs : s.Resolved) (hcwd : ∀ s ∈ cwd, Path.IsName s) (hinput : input.Clean)
    (hinside : Below s.moduleDirectory.parts (input.fold cwd)) :
    ∃ front name, input.fold cwd = s.moduleDirectory.parts ++ (front ++ [name]) ∧
      ∀ extension : String, '/' ∉ extension.toList → 2 < extension.toList.length →
        place s cwd input extension =
          s.outputDirectory.parts ++ (front ++ [Path.stemOf name ++ extension]) := by
  obtain ⟨⟨rest, hrest⟩, hne⟩ := hinside
  have hrest' : rest ≠ [] := by
    rintro rfl
    exact hne (by simpa using hrest)
  refine ⟨rest.dropLast, rest.getLast hrest', by rw [List.dropLast_concat_getLast, hrest], ?_⟩
  intro extension hslash hlength
  have hfold : input.fold cwd = s.moduleDirectory.fold cwd ++
      (rest.dropLast ++ [rest.getLast hrest']) := by
    rw [List.dropLast_concat_getLast, hs.moduleDirectory.fold, hrest]
  have hdown : ".." ∉ s.moduleDirectory.fold cwd := by
    rw [hs.moduleDirectory.fold]
    exact hs.moduleDirectory.down
  rw [place, GeneratedPath.ofSource_below hdown hfold ?_ hslash hlength, hs.outputDirectory.fold]
  · rfl
  · intro name hname
    rw [List.dropLast_concat_getLast] at hname
    refine (hinput.straight hcwd).names name ?_
    have hmem : name ∈ input.fold cwd := by
      rw [← hrest]
      exact List.mem_append_right _ hname
    exact hmem

theorem below_of_mem_outputs (hs : s.Resolved) (hcwd : ∀ s ∈ cwd, Path.IsName s)
    (hinput : IsSource s cwd input) {q : List String} (hq : q ∈ outputs s cwd input) :
    Below s.outputDirectory.parts q := by
  obtain ⟨front, name, -, hplace⟩ := place_eq hs hcwd hinput.clean hinput.inside
  obtain ⟨e, he, rfl⟩ := List.mem_map.1 hq
  have hlegal : '/' ∉ e.toList ∧ 2 < e.toList.length := by
    revert he
    simp only [List.mem_cons, List.not_mem_nil, or_false]
    rintro (rfl | rfl | rfl) <;> decide
  rw [hplace e hlegal.1 hlegal.2]
  exact ⟨List.prefix_append _ _, by simp⟩

/-! ## Runs -/

theorem Clean.resolve (hw : w.WellFormed) (hinput : input.Clean) :
    (input.resolve w.site.cwd).Clean :=
  (hinput.straight hw.names).clean

theorem IsSource.resolve (hw : w.WellFormed) (h : IsSource s w.site.cwd input) :
    IsSource s w.site.cwd (input.resolve w.site.cwd) := by
  have hstraight := h.clean.straight hw.names
  have hfold : (input.resolve w.site.cwd).fold w.site.cwd = input.fold w.site.cwd :=
    hstraight.fold _
  exact ⟨hstraight.clean, Path.hasNull_resolve (fun s hs => (hw.cwd s hs).2) h.known,
    hfold ▸ h.inside, hfold ▸ h.outside⟩

/-- Where a pass succeeds, every stage did. -/
theorem stages_of_reflectFile (hs : s.Resolved) (hw : w.WellFormed) (hinput : input.Clean)
    {K : FileTree → Path → Prop}
    (hK : Covers s w.site.cwd (input.resolve w.site.cwd) w.tree K)
    (h : (reflectFile s hash frontEnd input).run w = .ok r w') :
    ∃ t₁ t₂ t₃, t₁.WellFormed ∧ t₂.WellFormed ∧ t₃.WellFormed ∧
      Prepared s w.site.cwd (input.resolve w.site.cwd) (K t₁) w.tree t₁ t₂ ∧
      FiledAll (files s w.site.cwd (input.resolve w.site.cwd) r) t₂ t₃ ∧
      Turns (fun _ t' => Swept s t₃ t') w w' ∧ Reflects s hash w.site.cwd frontEnd.unit r := by
  have hclean := Clean.resolve hw hinput
  rw [reflectFile_eq, run_bind_ok_iff] at h
  obtain ⟨_, w₀, hknown, h⟩ := h
  obtain ⟨-, hw₀⟩ := run_requireKnown_ok_iff.1 hknown
  rw [hw₀, run_bind_of_ok run_cwd] at h
  obtain ⟨_, w₁, hprepare, h⟩ := run_bind_ok_iff.1 h
  obtain ⟨r', w₂, hexamine, h⟩ := run_bind_ok_iff.1 h
  obtain ⟨_, w₃, hemit, h⟩ := run_bind_ok_iff.1 h
  obtain ⟨_, w₄, hclear, h⟩ := run_bind_ok_iff.1 h
  cases h
  have h₁ := (ends_prepare hs hw hclean hK).of_ok hprepare
  obtain ⟨t₁, ht₁, hprepared⟩ := h₁.tree
  obtain ⟨htree, hsite⟩ := (still_examine s hash frontEnd _ w₁).of_ok hexamine
  have hr := reflects_of_examine hexamine
  have h₂ := h₁.of_eq htree hsite
  have h₃ := (ends_emit hs (h₂.workspace hw) (h₂.site ▸ hclean) r).of_ok hemit
  have h₄ := (ends_cleanUp hs (h₃.workspace (h₂.workspace hw))).of_ok hclear
  rw [h₁.site] at hr
  rw [h₂.site] at h₃
  refine ⟨t₁, w₁.tree, w₃.tree, ht₁, h₁.wellFormed, h₃.wellFormed, hprepared, htree ▸ h₃.tree, ?_,
    hr⟩
  exact ⟨h₄.site.trans (h₃.site.trans h₂.site), h₄.wellFormed, h₄.tree⟩

end Introspect.Pass
