import Introspect.Pass
import Introspect.Proofs.FileTree.Sweep
import Introspect.Proofs.GeneratedPath
import Introspect.Proofs.Store.Open

/-! What the single steps of a pass do to the files, whatever comes of them. -/
namespace Introspect

/-! ## Changes of file trees -/

namespace FileTree
variable {t t' t'' : FileTree} {cwd place p q : List String} {path : Path} {text : String}

/-- Directories were made above a place, where nothing was. -/
def Opens (place : List String) (t t' : FileTree) : Prop :=
  ∀ q, t'.find? q = t.find? q ∨
    t.find? q = none ∧ t'.find? q = some .directory ∧ Below q place

theorem Opens.refl (place : List String) (t : FileTree) : Opens place t t := fun _ => .inl rfl

theorem Opens.of_found (h : Opens place t t') (hq : t.find? q ≠ none) : t'.find? q = t.find? q :=
  (h q).resolve_right fun h => hq h.1

theorem below_of_prefix_dropLast (h : q <+: p.dropLast) (hp : p ≠ []) : Below q p := by
  refine ⟨h.trans (List.dropLast_prefix p), ?_⟩
  rintro rfl
  have hle := h.length_le
  rw [List.length_dropLast] at hle
  have hpos := List.length_pos_iff.2 hp
  omega

theorem Below.prefix_dropLast (h : Below q p) : q <+: p.dropLast := by
  have hlt := h.length_lt
  refine List.prefix_of_prefix_length_le h.1 (List.dropLast_prefix p) ?_
  rw [List.length_dropLast]
  omega

theorem Extends.opens (ht : t.WellFormed) (hp : path.Straight)
    (h : Extends cwd path.parent t t') : Opens path.parts t t' := by
  intro q
  rcases h.straight hp.parent q with hsame | ⟨hnone, hdirectory, hq⟩
  · exact .inl hsame
  · refine .inr ⟨hnone, hdirectory, below_of_prefix_dropLast hq ?_⟩
    intro he
    have hq' : q <+: [] := by simpa [Path.parent, he] using hq
    rw [List.prefix_nil.1 hq', ht.top] at hnone
    cases hnone

/-- A text was put into a file, in directories made where needed. -/
structure Filed (place : List String) (text : String) (t t' : FileTree) : Prop where
  free : t.find? place ≠ some .directory
  text : t'.find? place = some (.file text)
  other : ∀ q, q ≠ place → t'.find? q = t.find? q ∨
    t.find? q = none ∧ t'.find? q = some .directory ∧ Below q place
  above : ∀ q, Below q place → t'.find? q = some .directory

/-- Texts were put into files, in directories made where needed. -/
structure FiledAll (files : List (List String × String)) (t t' : FileTree) : Prop where
  free : ∀ f ∈ files, t.find? f.1 ≠ some .directory
  text : ∀ f ∈ files, t'.find? f.1 = some (.file f.2)
  other : ∀ q, q ∉ files.map Prod.fst → t'.find? q = t.find? q ∨
    t.find? q = none ∧ t'.find? q = some .directory ∧ ∃ f ∈ files, Below q f.1

theorem FiledAll.nil (t : FileTree) : FiledAll [] t t := ⟨nofun, nofun, fun _ _ => .inl rfl⟩

theorem Filed.cons {files : List (List String × String)} (h : Filed place text t t')
    (h' : FiledAll files t' t'') (hplace : place ∉ files.map Prod.fst) :
    FiledAll ((place, text) :: files) t t'' := by
  have hkept : t''.find? place = some (.file text) := by
    rcases h'.other place hplace with hsame | ⟨hnone, -⟩
    · rw [hsame, h.text]
    · rw [h.text] at hnone
      cases hnone
  refine ⟨fun f hf => ?_, fun f hf => ?_, fun q hq => ?_⟩
  · rcases List.mem_cons.1 hf with rfl | hf
    · exact h.free
    · intro hdirectory
      refine h'.free f hf ?_
      have hne : f.1 ≠ place := fun he => hplace (he ▸ List.mem_map_of_mem hf)
      rcases h.other f.1 hne with hsame | ⟨hnone, -⟩
      · rw [hsame, hdirectory]
      · rw [hnone] at hdirectory
        cases hdirectory
  · rcases List.mem_cons.1 hf with rfl | hf
    · exact hkept
    · exact h'.text f hf
  · rw [List.map_cons, List.mem_cons, not_or] at hq
    rcases h'.other q hq.2 with hsame | ⟨hnone, hdirectory, f, hf, hbelow⟩
    · rw [hsame]
      exact (h.other q hq.1).imp_right fun ⟨hnone, hdirectory, hbelow⟩ =>
        ⟨hnone, hdirectory, _, List.mem_cons_self .., hbelow⟩
    · rcases h.other q hq.1 with hsame' | ⟨-, hdirectory', -⟩
      · exact .inr ⟨hsame' ▸ hnone, hdirectory, f, List.mem_cons_of_mem _ hf, hbelow⟩
      · rw [hdirectory'] at hnone
        cases hnone

/-- An empty file was put at a place, unless something was there or its name is too long for the
system. -/
structure Held (place : List String) (t t' : FileTree) : Prop where
  other : ∀ q, t'.find? q = t.find? q ∨ t.find? q = none ∧
    (t'.find? q = some (.file "") ∧ q = place ∨ t'.find? q = some .directory ∧ Below q place)
  present : t'.find? place ≠ none ∨ nameLimit < (place.getLast?.getD "").utf8ByteSize
  above : ∀ q, Below q place → t'.find? q = some .directory

/-- A file is gone. -/
structure Dropped (place : List String) (t t' : FileTree) : Prop where
  free : t.find? place ≠ some .directory
  find? : ∀ q, t'.find? q = if place = q then none else t.find? q

/-- What changed apart from some outputs: where nothing was, there may be an empty file at one of
certain places, or a directory at one of certain others. -/
def Grows (outputs placeholders leads : List String → Prop) (t t' : FileTree) : Prop :=
  ∀ q, t'.find? q = t.find? q ∨ outputs q ∨ t.find? q = none ∧
    (t'.find? q = some (.file "") ∧ placeholders q ∨ t'.find? q = some .directory ∧ leads q)

section growth
variable {O P L O' P' L' : List String → Prop}

theorem Grows.refl (O P L : List String → Prop) (t : FileTree) : Grows O P L t t :=
  fun _ => .inl rfl

theorem Grows.mono (h : Grows O P L t t') (hO : ∀ q, O q → O' q) (hP : ∀ q, P q → P' q)
    (hL : ∀ q, L q → L' q) : Grows O' P' L' t t' := by
  intro q
  rcases h q with hsame | hq | ⟨hnone, ⟨hfile, hq⟩ | ⟨hdirectory, hq⟩⟩
  · exact .inl hsame
  · exact .inr (.inl (hO q hq))
  · exact .inr (.inr ⟨hnone, .inl ⟨hfile, hP q hq⟩⟩)
  · exact .inr (.inr ⟨hnone, .inr ⟨hdirectory, hL q hq⟩⟩)

theorem Grows.trans (h : Grows O P L t t') (h' : Grows O P L t' t'') : Grows O P L t t'' := by
  intro q
  rcases h q with hsame | hq | ⟨hnone, hnew⟩
  · rw [← hsame]
    exact h' q
  · exact .inr (.inl hq)
  · rcases h' q with hsame' | hq' | ⟨hnone', -⟩
    · rw [hsame']
      exact .inr (.inr ⟨hnone, hnew⟩)
    · exact .inr (.inl hq')
    · rcases hnew with ⟨hnew, -⟩ | ⟨hnew, -⟩ <;> rw [hnew] at hnone' <;> cases hnone'

theorem Grows.of_found (h : Grows O P L t t') {n : Node} (hq : ¬ O q) (hn : t.find? q = some n) :
    t'.find? q = some n := by
  rcases h q with hsame | hq' | ⟨hnone, -⟩
  · rw [hsame, hn]
  · exact absurd hq' hq
  · rw [hn] at hnone
    cases hnone

theorem Opens.grows (h : Opens place t t') (hL : ∀ q, Below q place → L q) : Grows O P L t t' := by
  intro q
  rcases h q with hsame | ⟨hnone, hdirectory, hq⟩
  · exact .inl hsame
  · exact .inr (.inr ⟨hnone, .inr ⟨hdirectory, hL q hq⟩⟩)

theorem Filed.grows (h : Filed place text t t') (hO : O place) (hL : ∀ q, Below q place → L q) :
    Grows O P L t t' := by
  intro q
  by_cases hq : q = place
  · exact .inr (.inl (hq ▸ hO))
  · rcases h.other q hq with hsame | ⟨hnone, hdirectory, hbelow⟩
    · exact .inl hsame
    · exact .inr (.inr ⟨hnone, .inr ⟨hdirectory, hL q hbelow⟩⟩)

theorem FiledAll.grows {files : List (List String × String)} (h : FiledAll files t t')
    (hO : ∀ f ∈ files, O f.1) (hL : ∀ f ∈ files, ∀ q, Below q f.1 → L q) : Grows O P L t t' := by
  intro q
  by_cases hq : q ∈ files.map Prod.fst
  · obtain ⟨f, hf, rfl⟩ := List.mem_map.1 hq
    exact .inr (.inl (hO f hf))
  · rcases h.other q hq with hsame | ⟨hnone, hdirectory, f, hf, hbelow⟩
    · exact .inl hsame
    · exact .inr (.inr ⟨hnone, .inr ⟨hdirectory, hL f hf q hbelow⟩⟩)

theorem Held.grows (h : Held place t t') (hP : P place) (hL : ∀ q, Below q place → L q) :
    Grows O P L t t' := by
  intro q
  rcases h.other q with hsame | ⟨hnone, ⟨hfile, rfl⟩ | ⟨hdirectory, hbelow⟩⟩
  · exact .inl hsame
  · exact .inr (.inr ⟨hnone, .inl ⟨hfile, hP⟩⟩)
  · exact .inr (.inr ⟨hnone, .inr ⟨hdirectory, hL q hbelow⟩⟩)

theorem Dropped.grows (h : Dropped place t t') (hO : O place) : Grows O P L t t' := by
  intro q
  rw [h.find? q]
  split
  · next he => exact .inr (.inl (he ▸ hO))
  · exact .inl rfl

end growth

end FileTree

/-- Work on the files at one site leaves a well-formed tree that is related to the one before. -/
structure Turns (R : FileTree → FileTree → Prop) (w w' : Workspace) : Prop where
  site : w'.site = w.site
  wellFormed : w'.tree.WellFormed
  tree : R w.tree w'.tree

section turns
variable {R R' R'' : FileTree → FileTree → Prop} {w w' w'' : Workspace}

theorem Turns.imp (h : Turns R w w') (hR : R w.tree w'.tree → R' w.tree w'.tree) : Turns R' w w' :=
  ⟨h.site, h.wellFormed, hR h.tree⟩

theorem Turns.trans (h : Turns R w w') (h' : Turns R' w' w'')
    (hR : R w.tree w'.tree → R' w'.tree w''.tree → R'' w.tree w''.tree) : Turns R'' w w'' :=
  ⟨h'.site.trans h.site, h'.wellFormed, hR h.tree h'.tree⟩

/-- A workspace whose files are what they were is as good as before. -/
theorem Turns.of_eq (h : Turns R w w') (htree : w''.tree = w'.tree) (hsite : w''.site = w'.site) :
    Turns R w w'' :=
  ⟨hsite.trans h.site, htree ▸ h.wellFormed, htree ▸ h.tree⟩

end turns

/-! ## Steps -/

open FileTree Job

variable {w w' : Workspace} {path : Path} {text : String}

theorem ends_makeParent (hw : w.tree.WellFormed) (hp : path.Straight) :
    Ends (Job.makeDirectory path.parent) w
      (fun _ w' => Turns (Opens path.parts) w w' ∧
        (∀ q, Below q path.parts → w'.tree.find? q = some .directory) ∧
        ∃ q, w'.tree.locate w.site.cwd path.parent = .ok q ∧ w'.tree.find? q = some .directory)
      (Turns (Opens path.parts) w) := by
  have hextends := extends_makeDirectory w.tree w.site.cwd path.parent
  have hopens := hextends.opens hw hp
  refine ends_makeDirectory (fun t hnull hmake => ?_) (fun hnull => ?_) ?_
  · have hwell : (w.tree.makeDirectory w.site.cwd path.parent).1.WellFormed :=
      hw.makeDirectory hp.rooted.parent hnull
    rw [hmake] at hopens hwell
    refine ⟨⟨rfl, hwell, hopens⟩, fun q hq => ?_, directory_of_makeDirectory hmake⟩
    exact directories_of_makeDirectory hp.parent hmake hq.prefix_dropLast
  · exact ⟨rfl, hw.makeDirectory hp.rooted.parent hnull, hopens⟩
  · exact ⟨rfl, hw, .refl _ _⟩

/-- A file that is written where its directory was made. -/
private theorem filed_of_write {t t' t₁ : FileTree} {cwd : List String} (hp : path.Straight)
    (hopens : Opens path.parts t t₁)
    (habove : ∀ q, Below q path.parts → t₁.find? q = some .directory)
    (h : t₁.write cwd path text = .ok t') : Filed path.parts text t t' := by
  obtain ⟨place, hplace, hfree, rfl⟩ := write_eq_ok_iff.1 h
  obtain rfl := (locate_straight hp hplace).1
  refine ⟨fun hd => hfree ?_, ?_, fun q hq => ?_, fun q hq => ?_⟩
  · rw [hopens.of_found (by simp [hd]), hd]
  · rw [find?_put, if_pos rfl]
  · rw [find?_put, if_neg (Ne.symm hq)]
    exact hopens q
  · rw [find?_put, if_neg (Ne.symm hq.2)]
    exact habove q hq

theorem ends_putFile (hw : w.tree.WellFormed) (hp : path.Straight) (text : String) :
    Ends (do Job.makeDirectory path.parent; Job.writeText path text) w
      (fun _ => Turns (Filed path.parts text) w) (Turns (Opens path.parts) w) := by
  refine ends_bind (ends_makeParent hw hp) ?_
  rintro _ w₁ ⟨h₁, habove, -⟩
  refine ends_bind (R := fun _ v => path.hasNull = false ∧ v = w₁)
    (ends_requireKnown (fun hnull => ⟨hnull, rfl⟩) h₁) ?_
  rintro _ _ ⟨hnull, rfl⟩
  exact ends_change (fun t ht => ⟨h₁.site, h₁.wellFormed.write hp.rooted hnull ht,
    filed_of_write hp h₁.tree habove ht⟩) h₁

/-- What could be opened was there, at a path that the system can know. -/
theorem ends_opened {α : Type} {patience : Patience} {outcome : Except SystemFault α}
    {Q : α → Workspace → Prop} {E : Workspace → Prop}
    (hok : ∀ a w', path.hasNull = false → outcome = .ok a → w'.tree = w.tree → w'.site = w.site →
      Q a w')
    (herror : ∀ w', w'.tree = w.tree → w'.site = w.site → E w') :
    Ends (Store.opened path patience outcome) w Q E := by
  unfold Store.opened
  by_cases hattempts : 0 < patience.attempts
  · rw [if_pos hattempts]
    refine ends_bind (R := fun _ v => path.hasNull = false ∧ v = w)
      (ends_requireKnown (fun hnull => ⟨hnull, rfl⟩) (herror w rfl rfl)) ?_
    rintro _ v ⟨hnull, hv⟩
    rw [hv]
    refine ends_bind_of_ok (run_report _) ?_
    cases hresult : (Store.tryOpen path patience fun _ => outcome).result with
    | ok a => exact ends_pure (hok a _ hnull (Store.tryFrom_ok hresult) rfl rfl)
    | error e => exact ends_throw (herror _ rfl rfl)
  · rw [if_neg hattempts]
    have hnone : patience.attempts.toNat = 0 := by omega
    have hresult : (Store.tryOpen path patience fun _ => outcome).result =
        .error (.registryFile (.openFailed path patience.attempts none)) := by
      rw [Store.tryOpen, hnone]
      rfl
    refine ends_bind_of_ok (run_report _) ?_
    rw [hresult]
    exact ends_throw (herror _ rfl rfl)

theorem ends_storeWrite (hw : w.tree.WellFormed) (hp : path.Straight) (r : Registry)
    (patience : Patience) :
    Ends (Store.write path r patience) w
      (fun _ => Turns (Filed path.parts (Document.toText r (some Store.indentation))) w)
      (Turns (Opens path.parts) w) := by
  unfold Store.write
  refine ends_bind (ends_makeParent hw hp) ?_
  rintro _ w₁ ⟨h₁, habove, -⟩
  refine ends_bind_of_ok rfl (ends_bind (ends_opened (fun t v hnull hwrite htree hsite => ?_)
    fun v => h₁.of_eq) fun t v h => ends_of_ok (run_adjust _) h)
  exact ⟨hsite.trans h₁.site, h₁.wellFormed.write hp.rooted hnull hwrite,
    filed_of_write hp h₁.tree habove hwrite⟩

theorem ends_writeFiles {files : List Emission.GeneratedFile} (hw : w.tree.WellFormed)
    (hstraight : ∀ f ∈ files, f.path.Straight) (hplaces : (files.map (·.path.parts)).Nodup) :
    Ends (Pass.writeFiles files) w
      (fun _ => Turns (FiledAll (files.map fun f => (f.path.parts, f.text))) w)
      (Turns (Grows (· ∈ files.map (·.path.parts)) (fun _ => False)
        fun q => ∃ f ∈ files, Below q f.path.parts) w) := by
  induction files generalizing w with
  | nil => exact ends_pure ⟨rfl, hw, .nil _⟩
  | cons f files ih =>
    obtain ⟨hfirst, hrest⟩ := List.nodup_cons.1 hplaces
    have hput := ends_putFile hw (hstraight f (List.mem_cons_self ..)) f.text
    unfold Pass.writeFiles
    rw [forM_cons]
    refine ends_bind (hput.mono (fun _ _ h => h) fun v hv => ?_) fun _ v hv => ?_
    · exact hv.imp fun hopens => hopens.grows fun q hq => ⟨f, List.mem_cons_self .., hq⟩
    · have hall := ih hv.wellFormed (fun g hg => hstraight g (List.mem_cons_of_mem _ hg)) hrest
      refine hall.mono (fun _ v' hv' => ?_) fun v' hv' => ?_
      · refine hv.trans hv' fun hfiled hfiledAll => hfiled.cons hfiledAll ?_
        simpa [Function.comp_def] using hfirst
      · refine hv.trans hv' fun hfiled hgrows => Grows.trans (hfiled.grows ?_ ?_)
          (hgrows.mono ?_ (fun _ h => h) ?_)
        · simp
        · exact fun q hq => ⟨f, List.mem_cons_self .., hq⟩
        · exact fun q hq => List.mem_cons_of_mem _ hq
        · exact fun q ⟨g, hg, hq⟩ => ⟨g, List.mem_cons_of_mem _ hg, hq⟩

theorem ends_remove (hw : w.tree.WellFormed) (hp : path.Straight) :
    Ends (Job.remove path) w (fun _ => Turns (Dropped path.parts) w) fun w' => w' = w := by
  refine ends_bind (R := fun _ v => v = w) (ends_requireKnown (fun _ => rfl) rfl) ?_
  rintro _ v rfl
  refine ends_change (fun t ht => ⟨rfl, hw.remove hp ht, ?_⟩) rfl
  obtain ⟨hfree, hfind⟩ := remove_ok hw hp ht
  exact ⟨hfree, hfind⟩

/-! ## Placeholders -/

namespace Pass
variable {s : Settings}

theorem run_outputPath (source : Path) (extension : String) :
    (outputPath s source extension).run w = .ok (GeneratedPath.ofSource w.site.cwd source
      s.moduleDirectory s.outputDirectory extension) w := rfl

/-- A placeholder is there afterwards unless its name is too long; nothing else changes, apart
from the directories above. -/
theorem ends_ensurePlaceholder {header : Path} (hw : w.tree.WellFormed)
    (hpath : GeneratedPath.ofSource w.site.cwd header s.moduleDirectory s.outputDirectory
      GeneratedPath.headerExtension = path)
    (hp : path.Straight) (hnull : path.hasNull = false) :
    Ends (ensurePlaceholder s header) w (fun _ => Turns (Held path.parts) w)
      (Turns (Opens path.parts) w) := by
  unfold ensurePlaceholder
  refine ends_bind_of_ok (run_outputPath header _) ?_
  rw [hpath]
  refine ends_bind (R := fun present v => v = w ∧
      w.tree.isThere (fun _ => true) w.site.cwd path = .ok present)
    ((still_isThere _ _).ends (fun present v hrun htree hsite => ?_) fun v htree hsite => ?_) ?_
  · obtain ⟨hpresent, hv⟩ := (run_isThere_ok_iff hnull).1 hrun
    exact ⟨hv, hpresent⟩
  · have hstart : Turns (Opens path.parts) w w := ⟨rfl, hw, .refl _ _⟩
    exact hstart.of_eq htree hsite
  rintro present v ⟨hv, hpresent⟩
  rw [hv]
  cases present with
  | true =>
    obtain ⟨q, n, hq, hn, -⟩ := find?_of_isThere_true hpresent
    obtain rfl := (locate_straight hp hq).1
    have hfound : w.tree.find? path.parts ≠ none := by simp [hn]
    exact ends_pure ⟨rfl, hw, fun _ => .inl rfl, .inl hfound, fun q hq => hw.above hfound hq.1 hq.2⟩
  | false =>
    have hfree := find?_of_isThere_false hw hp hpresent
    refine ends_bind (ends_makeParent hw hp) ?_
    rintro _ w₁ ⟨h₁, habove, hparent⟩
    refine ends_bind_of_ok rfl ?_
    cases hwrite : w₁.tree.write w₁.site.cwd path "" with
    | ok t =>
      have hfiled := filed_of_write hp h₁.tree habove hwrite
      refine ends_of_ok rfl ⟨h₁.site, h₁.wellFormed.write hp.rooted hnull hwrite, fun q => ?_, ?_,
        hfiled.above⟩
      · by_cases hq : q = path.parts
        · exact .inr ⟨hq ▸ hfree, .inl ⟨hq ▸ hfiled.text, hq⟩⟩
        · exact (hfiled.other q hq).imp_right fun h => ⟨h.1, .inr h.2⟩
      · exact .inl (by simp [hfiled.text])
    | error fault =>
      suffices hheld : Turns (Held path.parts) w w₁ from
        ends_of_ok (run_report _) (hheld.of_eq rfl rfl)
      refine ⟨h₁.site, h₁.wellFormed, fun q => ?_, ?_, habove⟩
      · exact (h₁.tree q).imp_right fun h => ⟨h.1, .inr h.2⟩
      · by_contra hcontra
        obtain ⟨hnone, hname⟩ := not_or.1 hcontra
        obtain ⟨q, hq, hdirectory⟩ := hparent
        have hne : path.parts ≠ [] := fun he => by
          rw [he, hw.top] at hfree
          cases hfree
        have hlocate := locate_of_parent hp hne (length_of_isThere hpresent) (Nat.not_lt.1 hname)
          hq hdirectory
        rw [write, h₁.site, hlocate, ok_bind,
          if_neg (by simp [FileTree.isDirectory, not_not.1 hnone])] at hwrite
        cases hwrite

end Pass
end Introspect
