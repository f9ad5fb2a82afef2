import Introspect.Proofs.Store.Find
import Introspect.Proofs.Store.Open

/-! Which source the registry file of a source leads back to, and what a collection makes of it. -/
namespace Introspect

/-! ## Looking for the first of many -/

namespace Job
variable {α : Type} {w v : Workspace} {test : α → Job Bool} {l : List α}

theorem findM?_cons (a : α) (l : List α) (test : α → Job Bool) :
    (a :: l).findM? test = (do if ← test a then pure (some a) else l.findM? test) := by
  rw [List.findM?]
  refine congrArg _ (funext fun b => ?_)
  cases b <;> rfl

/-- What looking through a list comes to: the first that passes, or nothing where all fail. -/
inductive Found (test : α → Job Bool) (w : Workspace) (l : List α) : Option α → Prop where
  | nothing (fails : ∀ a ∈ l, (test a).run w = .ok false w) : Found test w l none
  | first {a : α} (mem : a ∈ l) (passes : (test a).run w = .ok true w) : Found test w l (some a)

/-- Tests that change nothing leave everything as it was. -/
theorem found_of_findM? {found : Option α} (htest : ∀ a b v, (test a).run w = .ok b v → v = w)
    (h : (l.findM? test).run w = .ok found v) : v = w ∧ Found test w l found := by
  induction l with
  | nil =>
    cases h
    exact ⟨rfl, .nothing nofun⟩
  | cons a l ih =>
    rw [findM?_cons, run_bind_ok_iff] at h
    obtain ⟨b, w₁, hb, h⟩ := h
    obtain rfl := htest a b w₁ hb
    cases b with
    | true =>
      cases h
      exact ⟨rfl, .first (List.mem_cons_self ..) hb⟩
    | false =>
      obtain ⟨rfl, hfound⟩ := ih h
      refine ⟨rfl, ?_⟩
      cases hfound with
      | nothing fails => exact .nothing (List.forall_mem_cons.2 ⟨hb, fails⟩)
      | first mem passes => exact .first (List.mem_cons_of_mem _ mem) passes

theorem exists_run_findM? (htest : ∀ a ∈ l, ∃ b, (test a).run w = .ok b w) :
    ∃ found, (l.findM? test).run w = .ok found w := by
  induction l with
  | nil => exact ⟨none, rfl⟩
  | cons a l ih =>
    obtain ⟨b, hb⟩ := htest a (List.mem_cons_self ..)
    rw [findM?_cons, run_bind_of_ok hb]
    cases b with
    | true => exact ⟨some a, rfl⟩
    | false => exact ih fun c hc => htest c (List.mem_cons_of_mem _ hc)

/-- Where the tests have the same outcomes, the same is found. -/
theorem run_findM?_congr {found : Option α} {w' : Workspace}
    (htest : ∀ a b v, (test a).run w = .ok b v → v = w)
    (hsame : ∀ a ∈ l, ∀ b, (test a).run w = .ok b w → (test a).run w' = .ok b w')
    (h : (l.findM? test).run w = .ok found w) : (l.findM? test).run w' = .ok found w' := by
  induction l with
  | nil =>
    cases h
    rfl
  | cons a l ih =>
    rw [findM?_cons, run_bind_ok_iff] at h
    obtain ⟨b, w₁, hb, h⟩ := h
    obtain rfl := htest a b w₁ hb
    rw [findM?_cons, run_bind_of_ok (hsame a (List.mem_cons_self ..) b hb)]
    cases b with
    | true =>
      cases h
      rfl
    | false => exact ih (fun c hc => hsame c (List.mem_cons_of_mem _ hc)) h

/-- Where the tests that passed still do, and the others have an outcome, something is found
again. -/
theorem exists_run_findM?_of_some {found : α} {w' : Workspace}
    (htest : ∀ a b v, (test a).run w = .ok b v → v = w)
    (hkept : ∀ a ∈ l, (test a).run w = .ok true w → (test a).run w' = .ok true w')
    (hknown : ∀ a ∈ l, (test a).run w = .ok false w → ∃ b, (test a).run w' = .ok b w')
    (h : (l.findM? test).run w = .ok (some found) w) :
    ∃ found', (l.findM? test).run w' = .ok (some found') w' := by
  induction l with
  | nil => cases h
  | cons a l ih =>
    rw [findM?_cons, run_bind_ok_iff] at h
    obtain ⟨b, w₁, hb, h⟩ := h
    obtain rfl := htest a b w₁ hb
    rw [findM?_cons]
    cases b with
    | true =>
      rw [run_bind_of_ok (hkept a (List.mem_cons_self ..) hb)]
      exact ⟨a, rfl⟩
    | false =>
      obtain ⟨b', hb'⟩ := hknown a (List.mem_cons_self ..) hb
      rw [run_bind_of_ok hb']
      cases b' with
      | true => exact ⟨a, rfl⟩
      | false =>
        exact ih (fun c hc => hkept c (List.mem_cons_of_mem _ hc))
          (fun c hc => hknown c (List.mem_cons_of_mem _ hc)) h

end Job

/-! ## Sources -/

namespace Store
open Job GeneratedPath

variable {w v : Workspace} {cwd : List String} {t : FileTree}
  {generated source moduleDirectory output p : Path} {place extensions : List String}
  {stem name e : String} {found : Option Path}

/-- What a registry file leads back to: one of the files that the extensions give it and that are
there, or nothing where none is there. -/
inductive LeadsTo (t : FileTree) (cwd : List String) (moduleDirectory : Path)
    (place : List String) (stem : String) (extensions : List String) : Option Path → Prop where
  | nowhere (absent : ∀ e ∈ extensions,
      t.find? (candidate cwd moduleDirectory place stem e).parts = none) :
      LeadsTo t cwd moduleDirectory place stem extensions none
  | source {e : String} (mem : e ∈ extensions)
      (present : t.find? (candidate cwd moduleDirectory place stem e).parts ≠ none) :
      LeadsTo t cwd moduleDirectory place stem extensions
        (some (candidate cwd moduleDirectory place stem e))

theorem straight_candidate (hcwd : ∀ s ∈ cwd, Path.IsName s) (hmodule : moduleDirectory.Clean)
    (hplace : ∀ s ∈ place, Path.IsName s) (stem e : String) :
    (candidate cwd moduleDirectory place stem e).Straight := by
  have hdown : (⟨.relative, place⟩ : Path).Clean := fun s hs => .inr (hplace s hs)
  exact ((hmodule.join hdown).join (Path.clean_ofString _)).straight hcwd

/-- Whether a file that a registry may belong to is there. -/
def hasSource (moduleDirectory p : Path) : Job Bool := do
  Job.requireKnown moduleDirectory
  Job.requireKnown p
  Job.isPresent p

theorem run_hasSource_ok_iff {b : Bool} : (hasSource moduleDirectory p).run w = .ok b v ↔
    moduleDirectory.hasNull = false ∧ p.hasNull = false ∧
      w.tree.isThere (fun _ => true) w.site.cwd p = .ok b ∧ v = w := by
  unfold hasSource
  simp only [run_bind_ok_iff, run_requireKnown_ok_iff]
  constructor
  · rintro ⟨-, _, ⟨hmodule, rfl⟩, -, _, ⟨hknown, rfl⟩, hthere⟩
    exact ⟨hmodule, hknown, (run_isThere_ok_iff hknown).1 hthere⟩
  · rintro ⟨hmodule, hknown, hthere⟩
    exact ⟨(), w, ⟨hmodule, rfl⟩, (), w, ⟨hknown, rfl⟩, (run_isThere_ok_iff hknown).2 hthere⟩

theorem exists_run_hasSource (hmodule : moduleDirectory.hasNull = false)
    (hknown : p.hasNull = false)
    (hthere : (w.tree.isThere (fun _ => true) w.site.cwd p).isOk = true) :
    ∃ b, (hasSource moduleDirectory p).run w = .ok b w := by
  cases hb : w.tree.isThere (fun _ => true) w.site.cwd p with
  | ok b => exact ⟨b, run_hasSource_ok_iff.2 ⟨hmodule, hknown, hb, rfl⟩⟩
  | error e =>
    rw [hb] at hthere
    cases hthere

private theorem present_of_hasSource (hw : w.WellFormed) (hp : p.Straight) {b : Bool}
    (h : (hasSource moduleDirectory p).run w = .ok b w) :
    b = true ↔ w.tree.find? p.parts ≠ none := by
  obtain ⟨-, -, hthere, -⟩ := run_hasSource_ok_iff.1 h
  cases b with
  | true =>
    obtain ⟨q, n, hq, hn, -⟩ := FileTree.find?_of_isThere_true hthere
    rw [(FileTree.locate_straight hp hq).1] at hn
    simp [hn]
  | false => simp [FileTree.find?_of_isThere_false hw.tree hp hthere]

/-- For a registry file, the files that the extensions give it are looked for in turn. -/
private theorem sourceOf?_eq (hw : w.WellFormed) (hplace : ∀ s ∈ place, Path.IsName s)
    (hgenerated : generated.fold w.site.cwd =
      output.fold w.site.cwd ++ (place ++ [stem ++ registryExtension])) :
    (sourceOf? generated moduleDirectory output registryExtension extensions).run w = (do
      Job.requireKnown generated
      Job.requireKnown output
      (extensions.map (candidate w.site.cwd moduleDirectory place stem)).findM?
        (hasSource moduleDirectory) : Job (Option Path)).run w := by
  have hup : ".." ∉ w.site.cwd := fun hm => (hw.names _ hm).up rfl
  have hdown : ".." ∉ output.fold w.site.cwd := Path.fold_clean _ _ hup
  have hplace' : ".." ∉ place := fun hm => (hplace _ hm).up rfl
  have hne : registryExtension ≠ "" := by decide
  have hname : (generated.resolve w.site.cwd).name = stem ++ registryExtension := by
    simp [Path.resolve, hgenerated, Path.name, Path.absolute]
  unfold sourceOf?
  cases hknown : (Job.requireKnown generated).run w with
  | error e w₁ => rw [run_bind_of_error hknown, run_bind_of_error hknown]
  | ok u w₁ =>
    obtain ⟨-, rfl⟩ := run_requireKnown_ok_iff.1 hknown
    rw [run_bind_of_ok hknown, run_bind_of_ok hknown, run_bind_of_ok run_cwd]
    dsimp only
    rw [hname, stemOf?_append hne, Option.isSome_some, if_pos rfl,
      candidates_below hdown hplace' hgenerated hne]
    rfl

theorem run_sourceOf?_ok_iff (hw : w.WellFormed) (hplace : ∀ s ∈ place, Path.IsName s)
    (hgenerated : generated.fold w.site.cwd =
      output.fold w.site.cwd ++ (place ++ [stem ++ registryExtension])) :
    (sourceOf? generated moduleDirectory output registryExtension extensions).run w =
        .ok found v ↔
      generated.hasNull = false ∧ output.hasNull = false ∧
        ((extensions.map (candidate w.site.cwd moduleDirectory place stem)).findM?
          (hasSource moduleDirectory)).run w = .ok found v := by
  rw [sourceOf?_eq hw hplace hgenerated]
  simp only [run_bind_ok_iff, run_requireKnown_ok_iff]
  constructor
  · rintro ⟨-, _, ⟨hknown, rfl⟩, -, _, ⟨hknown', rfl⟩, h⟩
    exact ⟨hknown, hknown', h⟩
  · rintro ⟨hknown, hknown', h⟩
    exact ⟨(), w, ⟨hknown, rfl⟩, (), w, ⟨hknown', rfl⟩, h⟩

/-- Where it is known for every file whether it is there, the search for the source ends. -/
theorem exists_run_sourceOf? (hw : w.WellFormed) (hplace : ∀ s ∈ place, Path.IsName s)
    (hgenerated : generated.fold w.site.cwd =
      output.fold w.site.cwd ++ (place ++ [stem ++ registryExtension]))
    (hknown : generated.hasNull = false) (hknown' : output.hasNull = false)
    (hlook : ∀ e ∈ extensions, ∃ b, (hasSource moduleDirectory (candidate w.site.cwd
      moduleDirectory place stem e)).run w = .ok b w) :
    ∃ found, (sourceOf? generated moduleDirectory output registryExtension extensions).run w =
      .ok found w := by
  have hall : ∀ p ∈ extensions.map (candidate w.site.cwd moduleDirectory place stem),
      ∃ b, (hasSource moduleDirectory p).run w = .ok b w := by
    simpa using hlook
  obtain ⟨found, hfind⟩ := exists_run_findM? hall
  exact ⟨found, (run_sourceOf?_ok_iff hw hplace hgenerated).2 ⟨hknown, hknown', hfind⟩⟩

theorem hasSource_still (a : Path) (b : Bool) (v : Workspace)
    (h : (hasSource moduleDirectory a).run w = .ok b v) : v = w :=
  (run_hasSource_ok_iff.1 h).2.2.2

theorem leadsTo_of_sourceOf? (hw : w.WellFormed) (hmodule : moduleDirectory.Clean)
    (hplace : ∀ s ∈ place, Path.IsName s)
    (hgenerated : generated.fold w.site.cwd =
      output.fold w.site.cwd ++ (place ++ [stem ++ registryExtension]))
    (h : (sourceOf? generated moduleDirectory output registryExtension extensions).run w =
      .ok found v) :
    v = w ∧ LeadsTo w.tree w.site.cwd moduleDirectory place stem extensions found := by
  have hpresent : ∀ e b, (hasSource moduleDirectory (candidate w.site.cwd moduleDirectory place stem
      e)).run w = .ok b w → (b = true ↔ w.tree.find? (candidate w.site.cwd moduleDirectory place stem
        e).parts ≠ none) := fun e b =>
    present_of_hasSource hw (straight_candidate hw.names hmodule hplace stem e)
  obtain ⟨-, -, hfind⟩ := (run_sourceOf?_ok_iff hw hplace hgenerated).1 h
  obtain ⟨rfl, hfound⟩ := found_of_findM? hasSource_still hfind
  refine ⟨rfl, ?_⟩
  cases hfound with
  | nothing fails =>
    refine .nowhere fun e he => ?_
    have hfails := fails _ (List.mem_map_of_mem he)
    by_contra hthere
    cases (hpresent e _ hfails).2 hthere
  | first mem passes =>
    obtain ⟨e, he, rfl⟩ := List.mem_map.1 mem
    exact .source he ((hpresent e _ passes).1 rfl)

/-! ## One file of a collection -/

/-- The extensions of the files whose registries are collected. -/
def Collection.allExtensions (c : Collection) : List String :=
  c.sourceExtensions ++ implementationExtensions

/-- Reads a registry and adds it to what was collected. -/
def mergeFile (c : Collection) (r : Registry) (file : Path) : Job Registry := do
  let stored ← read file c.hash Settings.defaultPatience
  match r.merge stored c.strict with
  | (merged, none) => return merged
  | (_, some e) => throw e

/-- Removes a registry file, and leaves what was collected as it is. -/
def dropFile (r : Registry) (file : Path) : Job Registry := do
  Job.report [.staleRegistryRemoved file]
  Job.remove file
  return r

theorem run_collectFile {c : Collection} {r : Registry} {file : Path}
    (hfile : file.sameAs w.site.cwd (aggregatePath c.moduleName c.output) = false)
    (h : (sourceOf? file c.moduleDirectory c.output registryExtension c.allExtensions).run w =
      .ok found w) :
    (collectFile c r file).run w =
      if found.isSome then (mergeFile c r file).run w else (dropFile r file).run w := by
  rw [collectFile, run_bind_of_ok run_cwd, if_neg (by simp [hfile])]
  dsimp only
  rw [Collection.allExtensions] at h
  rw [run_bind_of_ok h]
  cases found <;> rfl

/-- Where a registry is added, the files stay as they are. -/
theorem ends_mergeFile (c : Collection) (r : Registry) (file : Path) :
    Ends (mergeFile c r file) w
      (fun r' w' => w'.tree = w.tree ∧ w'.site = w.site ∧
        ∃ stored w₁, (read file c.hash Settings.defaultPatience).run w = .ok stored w₁ ∧
          r.merge stored c.strict = (r', none))
      fun w' => w'.tree = w.tree ∧ w'.site = w.site := by
  refine ends_bind ((still_read file c.hash _).ends (Q := fun stored w' =>
    (w'.tree = w.tree ∧ w'.site = w.site) ∧
      ∃ w₁, (read file c.hash Settings.defaultPatience).run w = .ok stored w₁)
    (fun stored w' hrun htree hsite => ⟨⟨htree, hsite⟩, w', hrun⟩) fun _ => And.intro) ?_
  rintro stored w' ⟨hsame, w₁, hrun⟩
  split
  · next merged hmerge => exact ends_pure ⟨hsame.1, hsame.2, stored, w₁, hrun, hmerge⟩
  · exact ends_throw hsame

/-- A registry file is dropped when it can be removed. -/
theorem run_dropFile_ok_iff {r r' : Registry} {file : Path} :
    (dropFile r file).run w = .ok r' v ↔
      file.hasNull = false ∧ r' = r ∧ ∃ t, w.tree.remove w.site.cwd file = .ok t ∧
        v = { w with events := w.events ++ [.staleRegistryRemoved file], tree := t } := by
  rw [dropFile, run_bind_of_ok (run_report _)]
  constructor
  · intro h
    obtain ⟨_, w₁, hremove, hpure⟩ := run_bind_ok_iff.1 h
    cases hpure
    obtain ⟨_, w₂, hknown, hchange⟩ := run_bind_ok_iff.1 hremove
    obtain ⟨hnull, rfl⟩ := run_requireKnown_ok_iff.1 hknown
    obtain ⟨t, ht, rfl⟩ := run_change_ok_iff.1 hchange
    exact ⟨hnull, rfl, t, ht, rfl⟩
  · rintro ⟨hnull, rfl, t, ht, rfl⟩
    refine run_bind_ok_iff.2 ⟨(), _, run_bind_ok_iff.2 ⟨(), _,
      run_requireKnown_ok_iff.2 ⟨hnull, rfl⟩, run_change_ok_iff.2 ⟨t, ht, rfl⟩⟩, rfl⟩

/-! ## The registry of a source -/

section registry
variable {c : Collection}

/-- Which file the registry of a source leads back to. -/
def recover (c : Collection) (cwd : List String) (source : Path) : Job (Option Path) :=
  sourceOf? (registryPath cwd c.moduleDirectory c.output source) c.moduleDirectory c.output
    registryExtension c.allExtensions

/-- What the registry of a file leads back to, and what a collection makes of it. -/
structure Recovery (c : Collection) (w : Workspace) (source : Path) (place : List String)
    (name : String) (found : Option Path) : Prop where
  found_iff : found.isSome = true ↔ Path.suffixOf name ∈ c.allExtensions ∨
    ∃ e ∈ c.allExtensions, e ≠ Path.suffixOf name ∧ w.tree.find? (candidate w.site.cwd
      c.moduleDirectory place (Path.stemOf name) e).parts ≠ none
  found_of_suffix : ∀ front e, front ≠ "" → Path.IsSuffix e → e ∈ c.allExtensions →
    name = front ++ e → found.isSome = true
  present : ∀ p, found = some p → w.tree.find? p.parts ≠ none ∧ ∃ e ∈ c.allExtensions,
    p = candidate w.site.cwd c.moduleDirectory place (Path.stemOf name) e ∧
      (Path.IsSuffix e → p.parent = (source.resolve w.site.cwd).parent ∧
        p.stem = (source.resolve w.site.cwd).stem)
  itself : Path.suffixOf name ∈ c.allExtensions →
    (∀ e ∈ c.allExtensions, e ≠ Path.suffixOf name → w.tree.find? (candidate w.site.cwd
      c.moduleDirectory place (Path.stemOf name) e).parts = none) →
    found = some (source.resolve w.site.cwd)
  merged : registryPath w.site.cwd c.moduleDirectory c.output source ≠
      (aggregatePath c.moduleName c.output).resolve w.site.cwd → found.isSome = true → ∀ r,
    Ends (collectFile c r (registryPath w.site.cwd c.moduleDirectory c.output source)) w
      (fun r' w' => w'.tree = w.tree ∧ w'.site = w.site ∧ ∃ stored w₁,
        (read (registryPath w.site.cwd c.moduleDirectory c.output source) c.hash
          Settings.defaultPatience).run w = .ok stored w₁ ∧ r.merge stored c.strict = (r', none))
      fun w' => w'.tree = w.tree ∧ w'.site = w.site
  dropped : registryPath w.site.cwd c.moduleDirectory c.output source ≠
      (aggregatePath c.moduleName c.output).resolve w.site.cwd → found = none → ∀ r r' w',
    (collectFile c r (registryPath w.site.cwd c.moduleDirectory c.output source)).run w =
        .ok r' w' → r' = r ∧ w'.tree.find? (registryPath w.site.cwd c.moduleDirectory c.output
          source).parts = none

private theorem candidate_suffixOf (hsource : Lies cwd c.moduleDirectory source place name) :
    candidate cwd c.moduleDirectory place (Path.stemOf name) (Path.suffixOf name) =
      source.resolve cwd := by
  have hplace : ".." ∉ place := fun hm => (hsource.names _ (by simp [hm])).up rfl
  have hname : Path.IsName (Path.stemOf name ++ Path.suffixOf name) := by
    rw [Path.stemOf_append_suffixOf]
    exact hsource.names name (by simp)
  rw [candidate_of_name hplace hname, Path.stemOf_append_suffixOf, Path.resolve, hsource.fold]

private theorem sibling_of_suffix (hsource : Lies cwd c.moduleDirectory source place name)
    (he : Path.IsSuffix e) :
    (candidate cwd c.moduleDirectory place (Path.stemOf name) e).parent =
        (source.resolve cwd).parent ∧
      (candidate cwd c.moduleDirectory place (Path.stemOf name) e).stem =
        (source.resolve cwd).stem := by
  have hplace : ".." ∉ place := fun hm => (hsource.names _ (by simp [hm])).up rfl
  have hname := hsource.names name (by simp)
  rw [candidate_of_name hplace (hname.stem_append he), Path.resolve, hsource.fold,
    ← List.append_assoc, ← List.append_assoc]
  constructor
  · simp [Path.parent, Path.absolute]
  · simp [Path.stem, Path.name, Path.absolute,
      Path.stemOf_append (Path.stemOf_ne_empty hname.nonempty) he]

theorem exists_recovery (hw : w.WellFormed) (hmodule : c.moduleDirectory.Clean)
    (houtput : c.output.Clean) (hsource : Lies w.site.cwd c.moduleDirectory source place name)
    (hthere : w.tree.find? (source.fold w.site.cwd) ≠ none)
    (hknown : (registryPath w.site.cwd c.moduleDirectory c.output source).hasNull = false)
    (hknown' : c.output.hasNull = false)
    (hlook : ∀ e ∈ c.allExtensions, ∃ b, (hasSource c.moduleDirectory (candidate w.site.cwd
      c.moduleDirectory place (Path.stemOf name) e)).run w = .ok b w) :
    ∃ found, (recover c w.site.cwd source).run w = .ok found w ∧
      Recovery c w source place name found := by
  have hup : ".." ∉ w.site.cwd := fun hm => (hw.names _ hm).up rfl
  have hdown : ".." ∉ c.moduleDirectory.fold w.site.cwd := Path.fold_clean _ _ hup
  have hplace : ∀ s ∈ place, Path.IsName s := fun s hs => hsource.names s (by simp [hs])
  have hstraight := straight_registryPath hw.names houtput hdown hsource
  have hfold : (registryPath w.site.cwd c.moduleDirectory c.output source).fold w.site.cwd =
      c.output.fold w.site.cwd ++ (place ++ [Path.stemOf name ++ registryExtension]) := by
    rw [hstraight.fold, registryPath_eq hdown hsource]
    rfl
  obtain ⟨found, hrun⟩ : ∃ found, (recover c w.site.cwd source).run w = .ok found w :=
    exists_run_sourceOf? hw hplace hfold hknown hknown' hlook
  obtain ⟨-, hleads⟩ := leadsTo_of_sourceOf? hw hmodule hplace hfold hrun
  have hitself := candidate_suffixOf hsource
  have hthere' : w.tree.find? (source.resolve w.site.cwd).parts ≠ none := hthere
  have hother : registryPath w.site.cwd c.moduleDirectory c.output source ≠
      (aggregatePath c.moduleName c.output).resolve w.site.cwd →
      (registryPath w.site.cwd c.moduleDirectory c.output source).sameAs w.site.cwd
        (aggregatePath c.moduleName c.output) = false := hstraight.sameAs_eq_false_iff.2
  have hfound : found.isSome = true ↔ ∃ e ∈ c.allExtensions, w.tree.find? (candidate w.site.cwd
      c.moduleDirectory place (Path.stemOf name) e).parts ≠ none := by
    cases hleads with
    | nowhere absent => simpa using absent
    | source mem present => simpa using ⟨_, mem, present⟩
  have hsuffix : Path.suffixOf name ∈ c.allExtensions → found.isSome = true := fun hmem =>
    hfound.2 ⟨_, hmem, by rwa [hitself]⟩
  refine ⟨found, hrun, ?_, ?_, ?_, ?_, ?_, ?_⟩
  · rw [hfound]
    constructor
    · rintro ⟨e, he, hpresent⟩
      by_cases hsame : e = Path.suffixOf name
      · exact .inl (hsame ▸ he)
      · exact .inr ⟨e, he, hsame, hpresent⟩
    · rintro (hmem | ⟨e, he, -, hpresent⟩)
      · exact hfound.1 (hsuffix hmem)
      · exact ⟨e, he, hpresent⟩
  · rintro front e hfront he hmem rfl
    exact hsuffix (by rwa [Path.suffixOf_append hfront he])
  · rintro p rfl
    cases hleads with
    | source mem present =>
      exact ⟨present, _, mem, rfl, sibling_of_suffix hsource⟩
  · intro hmem habsent
    cases hleads with
    | nowhere absent => exact absurd (absent _ hmem) (by rwa [hitself])
    | @source e mem present =>
      by_cases hsame : e = Path.suffixOf name
      · rw [hsame, hitself]
      · exact absurd (habsent e mem hsame) present
  · intro hne hsome r
    have hmerge := run_collectFile (r := r) (hother hne) hrun
    rw [if_pos hsome] at hmerge
    exact ⟨fun h => (ends_mergeFile c r _).of_ok (hmerge ▸ h),
      fun h => (ends_mergeFile c r _).of_error (hmerge ▸ h)⟩
  · rintro hne rfl r r' w' hcollect
    rw [run_collectFile (hother hne) hrun, if_neg (by simp)] at hcollect
    obtain ⟨-, hr, t, hremove, rfl⟩ := run_dropFile_ok_iff.1 hcollect
    exact ⟨hr, by rw [(FileTree.remove_ok hw.tree hstraight hremove).2, if_pos rfl]⟩

/-! ## Some sources -/

/-- A module of a header, a header with two extensions, and a header that is called like one. -/
def shelf : Workspace :=
  .start ⟨[], default, []⟩ ⟨.ofList [([], .directory), (["module"], .directory),
    (["module", "Shelf.h"], .file ""), (["module", "Box.gen.h"], .file ""),
    (["module", ".h"], .file ""), (["generated"], .directory),
    (["generated", "Box.gen.reflregistry.json"], .file "{}"),
    (["generated", ".h.reflregistry.json"], .file "{}")]⟩

/-- The collection of a module next to its output directory. -/
def besides (extensions : List String) : Collection :=
  ⟨"Module", .absolute ["module"], .absolute ["generated"], extensions, .crc32, false⟩

theorem wellFormed_shelf : shelf.WellFormed :=
  ⟨.of_keys (by decide) (by decide), by decide⟩

private theorem lies_shelf {name : String} (h : Path.IsName name) :
    Lies shelf.site.cwd (.absolute ["module"]) (.absolute ["module", name]) [] name := by
  refine ⟨?_, by simpa using h⟩
  rw [Path.fold_absolute]
  · rfl
  · simpa using Ne.symm h.up

/-- Whether each of the files that a registry may belong to is there is known. -/
private theorem hasSource_shelf : ∀ e ∈ (besides [".h"]).allExtensions,
    ∃ b, (hasSource (besides [".h"]).moduleDirectory (candidate shelf.site.cwd
      (besides [".h"]).moduleDirectory [] (Path.stemOf "Shelf.h") e)).run shelf = .ok b shelf := by
  have hknown : ∀ e ∈ (besides [".h"]).allExtensions,
      (candidate shelf.site.cwd (besides [".h"]).moduleDirectory [] (Path.stemOf "Shelf.h")
          e).hasNull = false ∧
        (shelf.tree.isThere (fun _ => true) shelf.site.cwd (candidate shelf.site.cwd
          (besides [".h"]).moduleDirectory [] (Path.stemOf "Shelf.h") e)).isOk = true := by
    decide +kernel
  exact fun e he => exists_run_hasSource (by decide) (hknown e he).1 (hknown e he).2

/-- The registry of a header with one extension leads back to it. -/
theorem exists_recovery_shelf : shelf.WellFormed ∧ (besides [".h"]).moduleDirectory.Clean ∧
    (besides [".h"]).output.Clean ∧ Lies shelf.site.cwd (besides [".h"]).moduleDirectory
      (.absolute ["module", "Shelf.h"]) [] "Shelf.h" ∧
    ∃ found, (recover (besides [".h"]) shelf.site.cwd (.absolute ["module", "Shelf.h"])).run shelf =
        .ok found shelf ∧
      Recovery (besides [".h"]) shelf (.absolute ["module", "Shelf.h"]) [] "Shelf.h" found := by
  have hname : Path.IsName "Shelf.h" := by decide
  have hmodule : (besides [".h"]).moduleDirectory.Clean := by unfold Path.Clean; decide
  have houtput : (besides [".h"]).output.Clean := by unfold Path.Clean; decide
  exact ⟨wellFormed_shelf, hmodule, houtput, lies_shelf hname,
    exists_recovery wellFormed_shelf hmodule houtput (lies_shelf hname) (by decide) (by decide)
      (by decide) hasSource_shelf⟩

/-- The registry of a header with two extensions, although both together are configured, leads
nowhere and is removed, and so is that of a header that has no stem before its extension. -/
theorem not_recover_shelf :
    ((".gen.h" ∈ (besides [".gen.h"]).sourceExtensions ∧
        "Box.gen.h".toList = "Box".toList ++ ".gen.h".toList ∧
        shelf.tree.find? ["module", "Box.gen.h"] = some (.file "")) ∧
      (recover (besides [".gen.h"]) shelf.site.cwd (.absolute ["module", "Box.gen.h"])).run shelf =
        .ok none shelf ∧
      ∀ r, ∃ w', (collectFile (besides [".gen.h"]) r (registryPath shelf.site.cwd
          (.absolute ["module"]) (.absolute ["generated"])
          (.absolute ["module", "Box.gen.h"]))).run shelf = .ok r w' ∧
        w'.tree.find? ["generated", "Box.gen.reflregistry.json"] = none) ∧
    (".h" ∈ (besides [".h"]).sourceExtensions ∧
        shelf.tree.find? ["module", ".h"] = some (.file "")) ∧
      (recover (besides [".h"]) shelf.site.cwd (.absolute ["module", ".h"])).run shelf =
        .ok none shelf := by
  refine ⟨⟨⟨by decide, by decide, by decide⟩, rfl, fun r => ⟨_, rfl, by decide +kernel⟩⟩,
    ⟨by decide, by decide⟩, rfl⟩

end registry

end Store
end Introspect
