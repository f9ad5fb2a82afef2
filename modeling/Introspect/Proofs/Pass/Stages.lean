import Introspect.Proofs.Emission.Getters
import Introspect.Proofs.FileTree.Selection
import Introspect.Proofs.Pass.Steps
import Introspect.Proofs.Text.Wildcard

/-! What the stages of a pass over one file do to the files: removing what was there before,
putting placeholders, writing, and cleaning up. -/
namespace Introspect

/-- The directories of the settings are given from the top, as settings that were read have them. -/
structure Settings.Resolved (s : Settings) : Prop where
  moduleDirectory : s.moduleDirectory.Straight
  outputDirectory : s.outputDirectory.Straight

theorem Turns.workspace {R : FileTree → FileTree → Prop} {w w' : Workspace} (h : Turns R w w')
    (hw : w.WellFormed) : w'.WellFormed :=
  ⟨h.wellFormed, h.site ▸ hw.cwd⟩

namespace Pass
open FileTree Job

variable {s : Settings} {w v : Workspace} {cwd : List String} {t t' : FileTree}
  {input header : Path} {hash : NameHash} {frontEnd : FrontEnd} {K : Path → Prop}

/-! ## Places -/

/-- Where a file of some kind is generated for a source. -/
def place (s : Settings) (cwd : List String) (source : Path) (extension : String) : List String :=
  (GeneratedPath.ofSource cwd source s.moduleDirectory s.outputDirectory extension).parts

/-- Where the generated header of a header is. -/
def headerPlace (s : Settings) (cwd : List String) (header : Path) : List String :=
  place s cwd header GeneratedPath.headerExtension

/-- Where the three outputs of an input are. -/
def outputs (s : Settings) (cwd : List String) (input : Path) : List (List String) :=
  [GeneratedPath.headerExtension, GeneratedPath.sourceExtension,
    GeneratedPath.registryExtension].map (place s cwd input)

/-- The path is one of a header of the module that is not in the output directory. -/
def IsHeader (s : Settings) (cwd : List String) (t : FileTree) (header : Path) : Prop :=
  ∃ e ∈ s.sourceExtensions, ∃ pattern, PathPattern.ofString? ("*" ++ e) = some pattern ∧
    t.Selects cwd pattern.directoriesOnly (.depths :: pattern.parts) s.moduleDirectory header ∧
    header.isWithin cwd s.outputDirectory = false

/-- An empty file at the place is not kept. -/
def Expendable (s : Settings) (q : List String) : Prop :=
  Below s.outputDirectory.parts q ∧
    ∃ e ∈ expendable s, e.toList <:+ (q.getLast?.getD "").toList

theorem mem_outputs {e : String} (he : e ∈ [GeneratedPath.headerExtension,
    GeneratedPath.sourceExtension, GeneratedPath.registryExtension]) :
    place s cwd input e ∈ outputs s cwd input := List.mem_map_of_mem he

theorem straight_place (hs : s.Resolved) (hw : w.WellFormed) (hinput : input.Clean)
    (e : String) : (GeneratedPath.ofSource w.site.cwd input s.moduleDirectory s.outputDirectory
      e).Straight :=
  GeneratedPath.straight_ofSource hw.names hs.outputDirectory hinput

/-! ## Headers -/

private theorem empty_of_not_directory (hs : s.Resolved) (hw : w.WellFormed)
    {d : Bool} {parts : List PathPattern.Part}
    (h : (Job.isDirectory s.moduleDirectory).run w = .ok false v) :
    ¬ w.tree.Selects w.site.cwd d (.depths :: parts) s.moduleDirectory header := by
  rintro ⟨r, ⟨q, rest, hq, hd, -⟩, -⟩
  have hdirectory : w.tree.find? q = some .directory := by
    by_cases hrest : rest = []
    · simpa [hrest] using hd
    · have hfound : w.tree.find? (q ++ rest) ≠ none := by simp [hd]
      exact hw.tree.above hfound (List.prefix_append _ _) (by simpa using hrest)
  have hnull : s.moduleDirectory.hasNull = false := by
    obtain rfl := (locate_straight hs.moduleDirectory hq).1
    rw [Path.hasNull, List.any_eq_false]
    intro part hpart
    simpa using (hw.tree.names _ (by simp [hdirectory]) part hpart).2
  have hthere := ((run_isThere_ok_iff hnull).1 h).1
  rw [isThere_eq_true_iff.2 ⟨q, .directory, hq, hdirectory, rfl⟩] at hthere
  cases hthere

/-- The headers that are found are those of the tree. -/
theorem headers_ok (hs : s.Resolved) (hw : w.WellFormed) {e : String} {found : List Path}
    (h : (headers s e).run w = .ok found v) :
    ∃ pattern, PathPattern.ofString? ("*" ++ e) = some pattern ∧ ∀ header, header ∈ found ↔
      w.tree.Selects w.site.cwd pattern.directoriesOnly (.depths :: pattern.parts)
        s.moduleDirectory header ∧ header.isWithin w.site.cwd s.outputDirectory = false := by
  unfold headers at h
  rw [run_bind_of_ok run_cwd] at h
  split at h
  · cases h
  next pattern hpattern =>
  refine ⟨pattern, hpattern, fun header => ?_⟩
  rw [run_bind_ok_iff] at h
  obtain ⟨selected, w₁, hselected, hpure⟩ := h
  cases hpure
  unfold Job.select at hselected
  rw [run_bind_ok_iff] at hselected
  obtain ⟨there, w₂, hthere, hselected⟩ := hselected
  rw [List.mem_filter, Bool.not_eq_true']
  refine and_congr_left fun _ => ?_
  cases there with
  | false =>
    cases hselected
    exact iff_of_false (List.not_mem_nil) (empty_of_not_directory hs hw hthere)
  | true =>
    have hnull : s.moduleDirectory.hasNull = false := by
      by_contra hnull
      rw [Job.isDirectory, Job.isThere, if_pos (by simpa using hnull)] at hthere
      cases hthere
    obtain ⟨-, rfl⟩ := (run_isThere_ok_iff hnull).1 hthere
    rw [if_pos rfl, run_bind_of_ok run_get, run_ofSystem_ok_iff] at hselected
    exact mem_select_iff hselected.1

theorem still_headers (s : Settings) (e : String) : Still (headers s e) := by
  refine still_cwd.bind fun cwd => ?_
  split
  · exact still_throw _
  · exact (still_select _ _).bind fun _ => still_pure _

theorem IsHeader.clean (ht : t.WellFormed) (h : IsHeader s cwd t header) : header.Clean := by
  obtain ⟨_, _, _, _, hselects, _⟩ := h
  exact clean_of_isThere ht hselects.isThere

theorem IsHeader.hasNull (ht : t.WellFormed) (h : IsHeader s cwd t header) :
    header.hasNull = false := by
  obtain ⟨_, _, _, _, hselects, _⟩ := h
  exact hasNull_of_isThere ht hselects.isThere

theorem IsHeader.outside (hs : s.Resolved) (ht : t.WellFormed)
    (houtput : s.outputDirectory.hasNull = false) (h : IsHeader s cwd t header) :
    ¬ s.outputDirectory.parts <+: header.fold cwd := by
  have hnull := h.hasNull ht
  obtain ⟨_, _, _, _, _, hwithin⟩ := h
  rw [Path.isWithin, hnull, houtput, hs.outputDirectory.fold] at hwithin
  intro hprefix
  rw [List.isPrefixOf_iff_prefix.2 hprefix] at hwithin
  cases hwithin

theorem slash_headerExtension : '/' ∉ GeneratedPath.headerExtension.toList := by decide

theorem length_headerExtension : 2 < GeneratedPath.headerExtension.toList.length := by decide

/-- The generated header of a header has a path that the system knows. -/
theorem known_headerPlace (hw : w.WellFormed) (houtput : s.outputDirectory.hasNull = false)
    (ht : t.WellFormed) (h : IsHeader s w.site.cwd t header) :
    (GeneratedPath.ofSource w.site.cwd header s.moduleDirectory s.outputDirectory
      GeneratedPath.headerExtension).hasNull = false :=
  GeneratedPath.hasNull_ofSource hw.cwd houtput (h.clean ht) (h.hasNull ht) slash_headerExtension
    length_headerExtension (by decide)

/-! ## Preparing -/

/-- What was generated for an input is gone, and the output directory is there. -/
structure Cleared (s : Settings) (cwd : List String) (input : Path) (t t' : FileTree) : Prop where
  gone : ∀ q ∈ outputs s cwd input, t'.find? q = none
  other : ∀ q, q ∉ outputs s cwd input → t'.find? q = t.find? q ∨
    t.find? q = none ∧ t'.find? q = some .directory ∧ q <+: s.outputDirectory.parts
  directories : ∀ q, t.find? q = some .directory → t'.find? q = some .directory
  output : t'.find? s.outputDirectory.parts = some .directory
  known : s.outputDirectory.hasNull = false

/-- What was generated for an input may be gone, and directories made on the way to the output
directory. -/
def Clearing (s : Settings) (cwd : List String) (input : Path) : FileTree → FileTree → Prop :=
  Grows (· ∈ outputs s cwd input) (fun _ => False) (· <+: s.outputDirectory.parts)

theorem Cleared.clearing (h : Cleared s cwd input t t') : Clearing s cwd input t t' := by
  intro q
  by_cases hq : q ∈ outputs s cwd input
  · exact .inr (.inl hq)
  · exact (h.other q hq).imp_right fun ⟨hnone, hdirectory, hprefix⟩ =>
      .inr ⟨hnone, .inr ⟨hdirectory, hprefix⟩⟩

/-- What is at some places, which are no directories, is gone. -/
private structure Gone (places : List (List String)) (t t' : FileTree) : Prop where
  free : ∀ q ∈ places, t.find? q ≠ some .directory
  find? : ∀ q, t'.find? q = if q ∈ places then none else t.find? q

private theorem ends_removeAll (hs : s.Resolved) (hw : w.WellFormed) (hinput : input.Clean)
    (extensions : List String) :
    Ends (extensions.forM fun e => do Job.remove (← outputPath s input e)) w
      (fun _ => Turns (Gone (extensions.map (place s w.site.cwd input))) w)
      (Turns (fun t t' => ∀ q, q ∉ extensions.map (place s w.site.cwd input) →
        t'.find? q = t.find? q) w) := by
  induction extensions generalizing w with
  | nil => exact ends_pure ⟨rfl, hw.tree, nofun, fun q => rfl⟩
  | cons e extensions ih =>
    rw [forM_cons]
    have hremove : Ends (do Job.remove (← outputPath s input e)) w
        (fun _ => Turns (Dropped (place s w.site.cwd input e)) w) fun w' => w' = w :=
      ends_bind_of_ok (run_outputPath input e)
        (ends_remove hw.tree (straight_place hs hw hinput e))
    refine ends_bind (hremove.mono (fun _ _ h => h) ?_) ?_
    · rintro v rfl
      exact ⟨rfl, hw.tree, fun _ _ => rfl⟩
    · intro _ v hv
      have hrest := ih (hv.workspace hw)
      rw [hv.site] at hrest
      refine hrest.mono (fun _ v' hv' => ?_) fun v' hv' => ?_
      · refine hv.trans hv' fun hdropped hgone => ⟨fun q hq => ?_, fun q => ?_⟩
        · rw [List.map_cons, List.mem_cons] at hq
          rcases hq with hq | hq
          · rw [hq]
            exact hdropped.free
          · have hfree := hgone.free q hq
            rw [hdropped.find?] at hfree
            split at hfree
            · next he => exact he ▸ hdropped.free
            · exact hfree
        · rw [hgone.find?, hdropped.find?, List.map_cons]
          by_cases hq : place s w.site.cwd input e = q
          · simp [hq]
          · simp [hq, Ne.symm hq]
      · refine hv.trans hv' fun hdropped hsame q hq => ?_
        rw [List.map_cons, List.mem_cons, not_or] at hq
        rw [hsame q hq.2, hdropped.find?, if_neg (Ne.symm hq.1)]

/-- The first part of preparing: what was there before goes. -/
def clear (s : Settings) (input : Path) : Job Unit := do
  Job.makeDirectory s.outputDirectory
  [GeneratedPath.headerExtension, GeneratedPath.sourceExtension,
    GeneratedPath.registryExtension].forM fun e => do Job.remove (← outputPath s input e)

/-- The second part of preparing: all headers of the module get generated headers. -/
def putPlaceholders (s : Settings) : Job Unit :=
  s.sourceExtensions.forM fun e => do (← headers s e).forM (ensurePlaceholder s)

theorem prepare_eq (s : Settings) (input : Path) :
    prepare s input = (do clear s input; putPlaceholders s) := by
  rw [clear, bind_assoc]
  rfl

private theorem ends_clear (hs : s.Resolved) (hw : w.WellFormed) (hinput : input.Clean) :
    Ends (clear s input) w
      (fun _ => Turns (Cleared s w.site.cwd input) w)
      (Turns (Clearing s w.site.cwd input) w) := by
  have hgrown : ∀ {t' : FileTree}, Extends w.site.cwd s.outputDirectory w.tree t' →
      Clearing s w.site.cwd input w.tree t' := fun hextends q =>
    (hextends.straight hs.outputDirectory q).imp_right fun ⟨hnone, hdirectory, hprefix⟩ =>
      .inr ⟨hnone, .inr ⟨hdirectory, hprefix⟩⟩
  have hextends := extends_makeDirectory w.tree w.site.cwd s.outputDirectory
  refine ends_bind (R := fun _ v => s.outputDirectory.hasNull = false ∧
    v.tree.find? s.outputDirectory.parts = some .directory ∧
    Turns (Extends w.site.cwd s.outputDirectory) w v) (ends_makeDirectory (fun t hnull hmake => ?_)
      (fun hnull =>
        ⟨rfl, hw.tree.makeDirectory hs.outputDirectory.rooted hnull, hgrown hextends⟩)
      ⟨rfl, hw.tree, .refl _ _ _ _⟩) ?_
  · have hwell : (w.tree.makeDirectory w.site.cwd s.outputDirectory).1.WellFormed :=
      hw.tree.makeDirectory hs.outputDirectory.rooted hnull
    rw [hmake] at hwell hextends
    exact ⟨hnull, directories_of_makeDirectory hs.outputDirectory hmake (List.prefix_refl _),
      rfl, hwell, hextends⟩
  rintro _ w₁ ⟨hknown, houtput, h₁⟩
  have hremove := ends_removeAll hs (h₁.workspace hw) hinput [GeneratedPath.headerExtension,
    GeneratedPath.sourceExtension, GeneratedPath.registryExtension]
  rw [h₁.site] at hremove
  refine hremove.mono (fun _ v hv => ?_) fun v hv => ?_
  · refine h₁.trans hv fun hextends (hgone : Gone (outputs s w.site.cwd input) _ _) =>
      ⟨fun q hq => ?_, fun q hq => ?_, fun q hq => ?_, ?_, hknown⟩
    · rw [hgone.find?, if_pos hq]
    · rw [hgone.find?, if_neg hq]
      exact hextends.straight hs.outputDirectory q
    · have hq' := hextends.directory hq
      rw [hgone.find?, if_neg fun hmem => hgone.free q hmem hq', hq']
    · rw [hgone.find?, if_neg fun hmem => hgone.free _ hmem houtput, houtput]
  · refine h₁.trans hv fun hextends hsame q => ?_
    by_cases hq : q ∈ outputs s w.site.cwd input
    · exact .inr (.inl hq)
    · rw [hsame q hq]
      exact hgrown hextends q

/-- Something is at a place, or nothing can be, since its name is too long for the system. Whatever
is above is a directory. -/
structure Occupied (t : FileTree) (q : List String) : Prop where
  present : t.find? q ≠ none ∨ nameLimit < (q.getLast?.getD "").utf8ByteSize
  above : ∀ p, Below p q → t.find? p = some .directory

/-- Placeholders were put for some headers, and nothing that was there changed. -/
def Placed (s : Settings) (cwd : List String) (K : Path → Prop) : FileTree → FileTree → Prop :=
  Grows (fun _ => False) (fun q => ∃ header, K header ∧ q = headerPlace s cwd header)
    fun q => ∃ header, K header ∧ Below q (headerPlace s cwd header)

theorem Placed.of_found (h : Placed s cwd K t t') {q : List String} {n : Node}
    (hn : t.find? q = some n) : t'.find? q = some n :=
  Grows.of_found h not_false hn

theorem IsHeader.mono (ht : t.WellFormed)
    (hdirectories : ∀ k, t.find? k = some .directory → t'.find? k = some .directory)
    (hheader : ∀ n, t.find? (header.fold cwd) = some n → t'.find? (header.fold cwd) = some n)
    (h : IsHeader s cwd t header) : IsHeader s cwd t' header := by
  obtain ⟨e, he, pattern, hpattern, hselects, hout⟩ := h
  exact ⟨e, he, pattern, hpattern, hselects.mono ht hdirectories hheader, hout⟩

theorem Placed.occupied (h : Placed s cwd K t t') {q : List String} (hq : Occupied t q) :
    Occupied t' q := by
  refine ⟨hq.present.imp_left fun hfound => ?_, fun p hp => h.of_found (hq.above p hp)⟩
  obtain ⟨n, hn⟩ := Option.ne_none_iff_exists'.1 hfound
  simp [h.of_found hn]

section placeholders
variable (hs : s.Resolved) (hw : w.WellFormed) (houtput : s.outputDirectory.hasNull = false)
  (hK : ∀ v, Turns (Placed s w.site.cwd K) w v → ∀ header, IsHeader s w.site.cwd v.tree header →
    K header)
include hs hw houtput hK

/-- A header that is found gets what it needs, whatever was put for others since. -/
private theorem ends_placeholder {v v' : Workspace} (hv : Turns (Placed s w.site.cwd K) w v)
    (hheader : IsHeader s w.site.cwd v.tree header) (hv' : Turns (Placed s w.site.cwd K) w v') :
    Ends (ensurePlaceholder s header) v'
      (fun _ v'' => Turns (Placed s w.site.cwd K) w v'' ∧
        (∀ q, Occupied v'.tree q → Occupied v''.tree q) ∧
        Occupied v''.tree (headerPlace s w.site.cwd header))
      (Turns (Placed s w.site.cwd K) w) := by
  have hmet := hK v hv header hheader
  have hpath : GeneratedPath.ofSource v'.site.cwd header s.moduleDirectory s.outputDirectory
      GeneratedPath.headerExtension = GeneratedPath.ofSource w.site.cwd header s.moduleDirectory
      s.outputDirectory GeneratedPath.headerExtension := by
    rw [hv'.site]
  have hensure := ends_ensurePlaceholder hv'.wellFormed hpath
    (straight_place hs hw (hheader.clean hv.wellFormed) _)
    (known_headerPlace hw houtput hv.wellFormed hheader)
  refine hensure.mono (fun _ v'' h => ?_) fun v'' h => ?_
  · have hheld : Placed s w.site.cwd K v'.tree v''.tree :=
      h.tree.grows ⟨header, hmet, rfl⟩ fun q hq => ⟨header, hmet, hq⟩
    exact ⟨hv'.trans h fun h₁ _ => h₁.trans hheld, fun q => hheld.occupied,
      h.tree.present, h.tree.above⟩
  · exact hv'.trans h fun h₁ h₂ => h₁.trans (h₂.grows fun q hq => ⟨header, hmet, hq⟩)

private theorem ends_extension {e : String} (he : e ∈ s.sourceExtensions) {v : Workspace}
    (hv : Turns (Placed s w.site.cwd K) w v) :
    Ends (do (← headers s e).forM (ensurePlaceholder s)) v
      (fun _ v' => Turns (Placed s w.site.cwd K) w v' ∧
        (∀ q, Occupied v.tree q → Occupied v'.tree q) ∧
        ∀ pattern, PathPattern.ofString? ("*" ++ e) = some pattern → ∀ header,
          w.tree.Selects w.site.cwd pattern.directoriesOnly (.depths :: pattern.parts)
            s.moduleDirectory header → header.isWithin w.site.cwd s.outputDirectory = false →
          Occupied v'.tree (headerPlace s w.site.cwd header))
      (Turns (Placed s w.site.cwd K) w) := by
  refine ends_bind (R := fun found v₁ => v₁.tree = v.tree ∧ v₁.site = v.site ∧
      ∃ pattern, PathPattern.ofString? ("*" ++ e) = some pattern ∧ ∀ header, header ∈ found ↔
        v.tree.Selects w.site.cwd pattern.directoriesOnly (.depths :: pattern.parts)
          s.moduleDirectory header ∧ header.isWithin w.site.cwd s.outputDirectory = false)
    ((still_headers s e).ends (fun found v₁ hrun htree hsite => ?_) fun v₁ => hv.of_eq) ?_
  · have hfound := headers_ok hs (hv.workspace hw) hrun
    rw [hv.site] at hfound
    exact ⟨htree, hsite, hfound⟩
  rintro found v₁ ⟨htree, hsite, pattern, hpattern, hfound⟩
  have hv₁ := hv.of_eq htree hsite
  have hone : ∀ header ∈ found, ∀ v', Turns (Placed s w.site.cwd K) w v' → _ :=
    fun header hmem v' hv' => ends_placeholder hs hw houtput hK hv
      ⟨e, he, pattern, hpattern, (hfound header).1 hmem⟩ hv'
  have hkeep := ends_forM (I := fun v' => Turns (Placed s w.site.cwd K) w v' ∧
      ∀ q, Occupied v.tree q → Occupied v'.tree q)
    (fun header hmem v' hv' => (hone header hmem v' hv'.1).mono
      (fun _ v'' h => ⟨h.1, fun q hq => h.2.1 q (hv'.2 q hq)⟩) fun _ h => h)
    ⟨hv₁, fun q hq => htree ▸ hq⟩
  refine ⟨fun hrun => ⟨(hkeep.of_ok hrun).1, (hkeep.of_ok hrun).2, ?_⟩, hkeep.of_error⟩
  intro pattern' hpattern' header hselects hout
  obtain rfl : pattern' = pattern := Option.some.inj (hpattern'.symm.trans hpattern)
  have hmem : header ∈ found := (hfound header).2 ⟨hselects.mono hw.tree
    (fun k hk => hv.tree.of_found hk) fun n hn => hv.tree.of_found hn, hout⟩
  have hreach := ends_forM_of_mem
    (J := fun v' => Occupied v'.tree (headerPlace s w.site.cwd header)) hmem
    (fun other hother v' hv' => (hone other hother v' hv').mono
      (fun _ v'' h => ⟨h.1, h.2.1 _⟩) fun _ h => h)
    (fun v' hv' => (hone header hmem v' hv').mono (fun _ v'' h => h.2.2) fun _ _ => trivial) hv₁
  exact (hreach.of_ok hrun).2

private theorem ends_putPlaceholders :
    Ends (putPlaceholders s) w
      (fun _ v => Turns (Placed s w.site.cwd K) w v ∧
        ∀ header, IsHeader s w.site.cwd w.tree header →
          Occupied v.tree (headerPlace s w.site.cwd header))
      (Turns (Placed s w.site.cwd K) w) := by
  have hone := fun e he v hv => ends_extension hs hw houtput hK (e := e) he (v := v) hv
  have hstart : Turns (Placed s w.site.cwd K) w w := ⟨rfl, hw.tree, .refl _ _ _ _⟩
  have hkeep := ends_forM (fun e he v hv => (hone e he v hv).mono (fun _ _ h => h.1) fun _ h => h)
    hstart
  refine ⟨fun hrun => ⟨hkeep.of_ok hrun, ?_⟩, hkeep.of_error⟩
  rintro header ⟨e, he, pattern, hpattern, hselects, hout⟩
  have hreach := ends_forM_of_mem (J := fun v => Occupied v.tree (headerPlace s w.site.cwd header))
    he (fun e' he' v hv => (hone e' he' v hv).mono (fun _ _ h => ⟨h.1, h.2.1 _⟩) fun _ h => h)
    (fun v hv => (hone e he v hv).mono
      (fun _ _ h => h.2.2 pattern hpattern header hselects hout) fun _ _ => trivial) hstart
  exact (hreach.of_ok hrun).2

end placeholders

/-- The outputs of an input are gone, and the headers of the module have generated headers. -/
structure Prepared (s : Settings) (cwd : List String) (input : Path) (K : Path → Prop)
    (t t₁ t' : FileTree) : Prop where
  cleared : Cleared s cwd input t t₁
  placed : Placed s cwd K t₁ t'
  occupied : ∀ header, IsHeader s cwd t₁ header → Occupied t' (headerPlace s cwd header)

/-- The headers that a pass meets while it puts placeholders are all among some. -/
def Covers (s : Settings) (cwd : List String) (input : Path) (t : FileTree)
    (K : FileTree → Path → Prop) : Prop :=
  ∀ t₁ t', t₁.WellFormed → t'.WellFormed → Cleared s cwd input t t₁ → Placed s cwd (K t₁) t₁ t' →
    ∀ header, IsHeader s cwd t' header → K t₁ header

theorem ends_prepare (hs : s.Resolved) (hw : w.WellFormed) (hinput : input.Clean)
    {K : FileTree → Path → Prop} (hK : Covers s w.site.cwd input w.tree K) :
    Ends (prepare s input) w
      (fun _ => Turns (fun t t' => ∃ t₁, t₁.WellFormed ∧
        Prepared s w.site.cwd input (K t₁) t t₁ t') w)
      (Turns (fun t t' => ∃ t₁, Clearing s w.site.cwd input t t₁ ∧
        Placed s w.site.cwd (K t₁) t₁ t') w) := by
  rw [prepare_eq]
  refine ends_bind ((ends_clear hs hw hinput).mono (fun _ _ h => h) fun v h =>
    h.imp fun hclearing => ⟨v.tree, hclearing, .refl _ _ _ _⟩) fun _ w₁ h₁ => ?_
  have hplaceholders := ends_putPlaceholders (K := K w₁.tree) hs (h₁.workspace hw) h₁.tree.known ?_
  · rw [h₁.site] at hplaceholders
    refine hplaceholders.mono (fun _ v hv => ?_) fun v hv => ?_
    · exact h₁.trans hv.1 fun hcleared hplaced =>
        ⟨w₁.tree, h₁.wellFormed, hcleared, hplaced, hv.2⟩
    · exact h₁.trans hv fun hcleared hplaced => ⟨w₁.tree, hcleared.clearing, hplaced⟩
  · rw [h₁.site]
    exact fun v hv => hK w₁.tree v.tree h₁.wellFormed hv.wellFormed h₁.tree hv.tree

/-! ## Writing -/

/-- What is written for an input, by the places where it is written. -/
def files (s : Settings) (cwd : List String) (input : Path) (r : Registry) :
    List (List String × String) :=
  (place s cwd input GeneratedPath.registryExtension,
      Document.toText r (some Store.indentation)) ::
    (Emission.fileCode cwd r s.moduleDirectory s.outputDirectory input).map fun f =>
      (f.path.parts, f.text)

/-- Writes the registry of an input, its generated header and its generated source. -/
def emit (s : Settings) (input : Path) (r : Registry) : Job Unit := do
  Store.write (← outputPath s input GeneratedPath.registryExtension) r s.patience
  writeFiles (← Job.ofExcept
    (Emission.generate (← Job.cwd) r s.moduleDirectory s.outputDirectory input))

/-- All outputs of an input are written, and nothing else is. -/
theorem places_files (s : Settings) (cwd : List String) (input : Path) (r : Registry) :
    (files s cwd input r).map Prod.fst = [place s cwd input GeneratedPath.registryExtension,
      place s cwd input GeneratedPath.headerExtension,
      place s cwd input GeneratedPath.sourceExtension] := by
  simp only [files, Emission.fileCode, List.map_cons, List.map_nil, place]

theorem mem_places_files {r : Registry} {q : List String} :
    q ∈ (files s cwd input r).map Prod.fst ↔ q ∈ outputs s cwd input := by
  rw [places_files, outputs]
  simp only [List.map_cons, List.map_nil, List.mem_cons, List.not_mem_nil, or_false]
  rw [or_comm, or_assoc]

/-- The outputs of an input have different extensions, so they lie at different places. -/
theorem place_injective (hcwd : ∀ s ∈ cwd, Path.IsName s) (hinput : input.Clean) {e e' : String}
    (he : '/' ∉ e.toList) (he' : '/' ∉ e'.toList) (hlong : 2 < e.toList.length)
    (hlong' : 2 < e'.toList.length) (h : place s cwd input e = place s cwd input e') : e = e' := by
  rw [place, place, GeneratedPath.parts_ofSource hcwd hinput he hlong,
    GeneratedPath.parts_ofSource hcwd hinput he' hlong', List.append_cancel_left_eq,
    List.cons.injEq] at h
  exact String.append_right_inj _ |>.1 h.1

theorem nodup_places (hcwd : ∀ s ∈ cwd, Path.IsName s) (hinput : input.Clean)
    (r : Registry) : ((files s cwd input r).map Prod.fst).Nodup := by
  have hne : ∀ a b : String, '/' ∉ a.toList ∧ 2 < a.toList.length → '/' ∉ b.toList ∧
      2 < b.toList.length → a ≠ b → place s cwd input a ≠ place s cwd input b :=
    fun a b ha hb hab h => hab (place_injective hcwd hinput ha.1 hb.1 ha.2 hb.2 h)
  have hrh := hne GeneratedPath.registryExtension GeneratedPath.headerExtension (by decide)
    (by decide) (by decide)
  have hrs := hne GeneratedPath.registryExtension GeneratedPath.sourceExtension (by decide)
    (by decide) (by decide)
  have hhs := hne GeneratedPath.headerExtension GeneratedPath.sourceExtension (by decide)
    (by decide) (by decide)
  rw [places_files]
  simp [hrh, hrs, hhs]

private theorem mem_fileCode {r : Registry} {f : Emission.GeneratedFile}
    (h : f ∈ Emission.fileCode cwd r s.moduleDirectory s.outputDirectory input) :
    f.path = GeneratedPath.ofSource cwd input s.moduleDirectory s.outputDirectory
        GeneratedPath.headerExtension ∨
      f.path = GeneratedPath.ofSource cwd input s.moduleDirectory s.outputDirectory
        GeneratedPath.sourceExtension := by
  unfold Emission.fileCode at h
  rcases List.mem_cons.1 h with rfl | h
  · exact .inl rfl
  · rw [List.mem_singleton.1 h]
    exact .inr rfl

theorem ends_emit (hs : s.Resolved) (hw : w.WellFormed) (hinput : input.Clean) (r : Registry) :
    Ends (emit s input r) w
      (fun _ => Turns (FiledAll (files s w.site.cwd input r)) w)
      (Turns (Grows (· ∈ outputs s w.site.cwd input) (fun _ => False)
        fun q => ∃ p ∈ outputs s w.site.cwd input, Below q p) w) := by
  have hmem : ∀ {e : String}, e ∈ [GeneratedPath.headerExtension, GeneratedPath.sourceExtension,
      GeneratedPath.registryExtension] → place s w.site.cwd input e ∈ outputs s w.site.cwd input :=
    mem_outputs
  unfold emit
  refine ends_bind_of_ok (run_outputPath input _) ?_
  have hwrite := ends_storeWrite hw.tree
    (straight_place hs hw hinput GeneratedPath.registryExtension) r s.patience
  refine ends_bind (hwrite.mono (fun _ _ h => h) fun v hv => ?_) fun _ v hv => ?_
  · exact hv.imp fun hopens => hopens.grows fun q hq => ⟨_, hmem (by simp), hq⟩
  have hgrows : Turns (Grows (· ∈ outputs s w.site.cwd input) (fun _ => False)
      fun q => ∃ p ∈ outputs s w.site.cwd input, Below q p) w v :=
    hv.imp fun hfiled => hfiled.grows (hmem (by simp)) fun q hq => ⟨_, hmem (by simp), hq⟩
  refine ends_bind_of_ok run_cwd ?_
  rw [hv.site]
  refine ends_bind (R := fun l v' => l = Emission.fileCode w.site.cwd r s.moduleDirectory
      s.outputDirectory input ∧ v' = v)
    ((still_ofExcept _).ends (fun l v' hrun _ _ => ?_) fun v' => hgrows.of_eq) ?_
  · obtain ⟨hl, rfl⟩ := run_ofExcept_ok_iff.1 hrun
    exact ⟨Emission.fileCode_of_generate hl, rfl⟩
  rintro l v' ⟨rfl, hv'⟩
  rw [hv']
  have hnodup := nodup_places (s := s) hw.names hinput r
  rw [files, List.map_cons, List.nodup_cons, List.map_map] at hnodup
  dsimp only at hnodup
  refine (ends_writeFiles hv.wellFormed (fun f hf => ?_) hnodup.2).mono (fun _ v' hv' => ?_)
    fun v' hv' => ?_
  · rcases mem_fileCode hf with hpath | hpath <;> rw [hpath] <;> exact straight_place hs hw hinput _
  · refine hv.trans hv' fun hfiled hall => hfiled.cons hall ?_
    rw [List.map_map, ← place]
    exact hnodup.1
  · have hplaces : ∀ f ∈ Emission.fileCode w.site.cwd r s.moduleDirectory s.outputDirectory input,
        f.path.parts ∈ outputs s w.site.cwd input := by
      intro f hf
      rcases mem_fileCode hf with hpath | hpath <;> rw [hpath] <;> exact hmem (by simp)
    refine hgrows.trans hv' fun h h' => h.trans (h'.mono (fun q hq => ?_) (fun _ h => h) ?_)
    · obtain ⟨f, hf, rfl⟩ := List.mem_map.1 hq
      exact hplaces f hf
    · exact fun q ⟨f, hf, hq⟩ => ⟨_, hplaces f hf, hq⟩

/-! ## Cleaning up -/

/-- Empty files that are not kept are gone, and so are directories below the output directory with
nothing in them. -/
structure Swept (s : Settings) (t t' : FileTree) : Prop where
  change : ∀ q, t'.find? q = t.find? q ∨
    Expendable s q ∧ t.find? q = some (.file "") ∧ t'.find? q = none ∨
    Below s.outputDirectory.parts q ∧ t.find? q = some .directory ∧ t'.find? q = none ∧ t'.Bare q
  files : t.find? s.outputDirectory.parts = some .directory →
    ∀ q, Expendable s q → t'.find? q ≠ some (.file "")
  directories : t.find? s.outputDirectory.parts = some .directory →
    ∀ q, Below s.outputDirectory.parts q → t'.find? q = some .directory → ¬ t'.Bare q

theorem mem_expendable {e : String} : e ∈ expendable s ↔
    e = GeneratedPath.headerExtension ∧ s.deleteEmptyHeaders = true ∨
      e = GeneratedPath.sourceExtension ∧ s.deleteEmptySources = true := by
  have hif : ∀ (b : Bool) (x : String), e ∈ (if b then [x] else []) ↔ e = x ∧ b = true := by
    intro b x
    cases b <;> simp
  rw [expendable, List.mem_append, hif, hif]

theorem mem_sweep_iff {q : List String} : q ∈ ((expendable s).flatMap fun e =>
      t.search s.outputDirectory.parts ("*" ++ e)) ∧ t.find? q = some (.file "") ↔
    t.find? s.outputDirectory.parts = some .directory ∧ Expendable s q ∧
      t.find? q = some (.file "") := by
  have hplain : ∀ e ∈ expendable s, Text.Plain e.toList := by
    intro e he
    rcases mem_expendable.1 he with ⟨rfl, -⟩ | ⟨rfl, -⟩ <;> decide
  rw [List.mem_flatMap]
  constructor
  · rintro ⟨⟨e, he, hq⟩, hempty⟩
    obtain ⟨houtput, hbelow, -, hfits⟩ := mem_search_iff.1 hq
    exact ⟨houtput, ⟨hbelow, e, he, (Text.fits_star (hplain e he)).1 hfits⟩, hempty⟩
  · rintro ⟨houtput, ⟨hbelow, e, he, hsuffix⟩, hempty⟩
    exact ⟨⟨e, he, mem_search_iff.2 ⟨houtput, hbelow, by simp [hempty],
      (Text.fits_star (hplain e he)).2 hsuffix⟩⟩, hempty⟩

private theorem swept_sweep (t : FileTree) (s : Settings) : Swept s t
    ((t.removeEmptyFiles ((expendable s).flatMap fun e =>
      t.search s.outputDirectory.parts ("*" ++ e))).removeEmptyDirectories
        s.outputDirectory.parts) := by
  generalize hplaces : ((expendable s).flatMap fun e =>
    t.search s.outputDirectory.parts ("*" ++ e)) = places
  have hmem : ∀ q, q ∈ places ∧ t.find? q = some (.file "") ↔
      t.find? s.outputDirectory.parts = some .directory ∧ Expendable s q ∧
        t.find? q = some (.file "") := fun q => hplaces ▸ mem_sweep_iff
  have hkept : ∀ q, (t.removeEmptyFiles places).find? q = t.find? q ∨ Expendable s q ∧
      t.find? q = some (.file "") ∧ (t.removeEmptyFiles places).find? q = none := by
    intro q
    rw [find?_removeEmptyFiles]
    split
    · next h =>
      obtain ⟨-, hq, hempty⟩ := (hmem q).1 h
      exact .inr ⟨hq, hempty, rfl⟩
    · exact .inl rfl
  refine ⟨fun q => ?_, fun houtput q hq hempty => ?_, fun houtput q hq hdirectory => ?_⟩
  · rcases find?_removeEmptyDirectories (t.removeEmptyFiles places) s.outputDirectory.parts q with
      hsame | ⟨hbelow, hdirectory, hnone, hbare⟩
    · rw [hsame]
      exact (hkept q).imp_right .inl
    · rcases hkept q with hsame | ⟨-, -, hgone⟩
      · exact .inr (.inr ⟨hbelow, hsame ▸ hdirectory, hnone, hbare⟩)
      · rw [hgone] at hdirectory
        cases hdirectory
  · rcases find?_removeEmptyDirectories (t.removeEmptyFiles places) s.outputDirectory.parts q with
      hsame | ⟨-, -, hnone, -⟩
    · rw [hsame, find?_removeEmptyFiles] at hempty
      split at hempty
      · cases hempty
      · next h => exact h ((hmem q).2 ⟨houtput, hq, hempty⟩)
    · rw [hnone] at hempty
      cases hempty
  · refine not_bare_removeEmptyDirectories ?_ hq hdirectory
    rcases hkept s.outputDirectory.parts with hsame | ⟨-, hempty, -⟩
    · rw [hsame, houtput]
    · rw [houtput] at hempty
      cases hempty

theorem ends_cleanUp (hs : s.Resolved) (hw : w.WellFormed) :
    Ends (cleanUp s) w (fun _ => Turns (Swept s) w)
      fun w' => w'.tree = w.tree ∧ w'.site = w.site := by
  unfold cleanUp
  refine ends_bind (R := fun present v => v.tree = w.tree ∧ v.site = w.site ∧
      (present = false → w.tree.find? s.outputDirectory.parts ≠ some .directory))
    ((still_isThere _ _).ends (fun present v hrun htree hsite => ⟨htree, hsite, ?_⟩)
      fun v htree hsite => ⟨htree, hsite⟩) ?_
  · rintro rfl hdirectory
    have hnull : s.outputDirectory.hasNull = false := by
      rw [Path.hasNull, List.any_eq_false]
      intro part hpart
      simpa using (hw.tree.names _ (by simp [hdirectory]) part hpart).2
    have hfree := find?_of_isThere_false hw.tree hs.outputDirectory
      ((run_isThere_ok_iff hnull).1 hrun).1
    rw [hfree] at hdirectory
    cases hdirectory
  rintro present v ⟨htree, hsite, habsent⟩
  cases present with
  | false =>
    have hfree := habsent rfl
    exact ends_pure ⟨hsite, htree ▸ hw.tree, fun q => .inl (by rw [htree]),
      fun h => absurd h hfree, fun h => absurd h hfree⟩
  | true =>
    refine ends_bind_of_ok run_cwd (ends_of_ok (run_adjust _) ⟨hsite, ?_, ?_⟩)
    · exact ((htree ▸ hw.tree).removeEmptyFiles _).removeEmptyDirectories _
    · rw [← htree]
      dsimp only
      rw [hs.outputDirectory.fold]
      exact swept_sweep v.tree s

end Pass
end Introspect
