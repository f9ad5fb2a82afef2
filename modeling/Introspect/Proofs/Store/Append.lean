import Introspect.Proofs.Document.Alike
import Introspect.Proofs.FileTree.WellFormed
import Introspect.Proofs.Json.LineEnds
import Introspect.Proofs.Registry.Accumulation
import Introspect.Proofs.Store.Open

/-! A registry file that grows: what is read from it after one registry after another was added. -/
namespace Introspect.Store
variable {path : Path} {patience : Patience} {w w' : Workspace} {r v : Registry}
  {rs : List Registry} {text : String} {hash : NameHash}

/-! ## Files that can be opened -/

/-- The file at a path holds a text, and its directory is there. -/
structure Holds (path : Path) (text : String) (w : Workspace) : Prop where
  known : path.hasNull = false
  directory : ∃ q, w.tree.locate w.site.cwd path.parent = .ok q ∧
    w.tree.find? q = some .directory
  file : ∃ q, w.tree.locate w.site.cwd path = .ok q ∧ w.tree.find? q = some (.file text)

/-- A text can be put into a file at the path, in directories created where needed. -/
def Writable (path : Path) (w : Workspace) : Prop :=
  ∃ w', (do Job.makeDirectory path.parent; Job.writeText path "" : Job Unit).run w = .ok () w'

/-- A text was put into the file at a path, in directories created where needed. -/
structure Puts (path : Path) (text : String) (w w' : Workspace) : Prop where
  known : path.hasNull = false
  put : ∃ w₁ q, (Job.makeDirectory path.parent).run w = .ok () w₁ ∧
    w₁.tree.locate w₁.site.cwd path = .ok q ∧ w₁.tree.find? q ≠ some .directory ∧
    w' = { w₁ with tree := w₁.tree.put q (.file text) }

theorem run_writeText_ok_iff :
    (do Job.makeDirectory path.parent; Job.writeText path text : Job Unit).run w = .ok () w' ↔
      Puts path text w w' := by
  constructor
  · intro h
    obtain ⟨⟨⟩, w₁, hmake, hrest⟩ := Job.run_bind_ok_iff.1 h
    obtain ⟨⟨⟩, w₂, hknown, hchange⟩ := Job.run_bind_ok_iff.1 hrest
    obtain ⟨hnull, rfl⟩ := Job.run_requireKnown_ok_iff.1 hknown
    obtain ⟨t, ht, rfl⟩ := Job.run_change_ok_iff.1 hchange
    obtain ⟨q, hq, hfree, rfl⟩ := FileTree.write_eq_ok_iff.1 ht
    exact ⟨hnull, _, q, hmake, hq, hfree, rfl⟩
  · rintro ⟨hnull, w₁, q, hmake, hq, hfree, rfl⟩
    have hknown : (Job.requireKnown path).run w₁ = .ok () w₁ :=
      Job.run_requireKnown_ok_iff.2 ⟨hnull, rfl⟩
    rw [Job.run_bind_of_ok hmake, Job.writeText, Job.run_bind_of_ok hknown]
    exact Job.run_change_ok_iff.2 ⟨_, FileTree.write_eq_ok_iff.2 ⟨q, hq, hfree, rfl⟩, rfl⟩

theorem run_write_ok_iff : (write path r patience).run w = .ok () w' ↔
    0 < patience.attempts ∧ Puts path (Document.toText r (some indentation)) w w' := by
  constructor
  · intro h
    obtain ⟨⟨⟩, w₁, hmake, hrest⟩ := Job.run_bind_ok_iff.1 h
    rw [Job.run_bind_of_ok Job.run_get] at hrest
    obtain ⟨t, w₂, hopened, hadjust⟩ := Job.run_bind_ok_iff.1 hrest
    obtain ⟨hp, hnull, hwrite, rfl⟩ := run_opened_ok_iff.1 hopened
    obtain ⟨q, hq, hfree, rfl⟩ := FileTree.write_eq_ok_iff.1 hwrite
    cases hadjust
    exact ⟨hp, hnull, _, q, hmake, hq, hfree, rfl⟩
  · rintro ⟨hp, hnull, w₁, q, hmake, hq, hfree, rfl⟩
    have hwrite : w₁.tree.write w₁.site.cwd path (Document.toText r (some indentation)) =
        .ok (w₁.tree.put q (.file (Document.toText r (some indentation)))) :=
      FileTree.write_eq_ok_iff.2 ⟨q, hq, hfree, rfl⟩
    rw [write, Job.run_bind_of_ok hmake, Job.run_bind_of_ok Job.run_get, hwrite,
      Job.run_bind_of_ok (run_opened hp hnull _)]
    rfl

/-- A file holds what was put there. -/
theorem Puts.holds (h : Puts path text w w') : Holds path text w' := by
  obtain ⟨hnull, w₁, q, hmake, hq, hfree, rfl⟩ := h
  have hkept : ∀ p, w₁.tree.find? p = some .directory →
      (w₁.tree.put q (.file text)).find? p = some .directory := by
    intro p hp
    have hne : q ≠ p := fun he => hfree (he ▸ hp)
    rw [FileTree.find?_put, if_neg hne, hp]
  obtain ⟨-, hmade, hsite⟩ := Job.run_makeDirectory_ok_iff.1 hmake
  obtain ⟨d, hd, hdirectory⟩ := FileTree.directory_of_makeDirectory hmade
  rw [hsite] at hq ⊢
  exact ⟨hnull, ⟨d, FileTree.locate_mono hkept hd, hkept d hdirectory⟩, q,
    FileTree.locate_mono hkept hq, by rw [FileTree.find?_put, if_pos rfl]⟩

/-- Where a text can be put, any other can be. -/
theorem Puts.other (h : Puts path text w w') (text' : String) : ∃ v, Puts path text' w v := by
  obtain ⟨hnull, w₁, q, hmake, hq, hfree, -⟩ := h
  exact ⟨_, hnull, w₁, q, hmake, hq, hfree, rfl⟩

/-- A file that is there is written over, and nothing else changes. -/
theorem Holds.puts (h : Holds path text w) (text' : String) :
    ∃ q, w.tree.locate w.site.cwd path = .ok q ∧ w.tree.find? q = some (.file text) ∧
      Puts path text' w { w with tree := w.tree.put q (.file text') } := by
  obtain ⟨d, hd, hdirectory⟩ := h.directory
  obtain ⟨q, hq, hfile⟩ := h.file
  have hmake : (Job.makeDirectory path.parent).run w = .ok () w := by
    rw [Job.run_makeDirectory_ok_iff]
    exact ⟨FileTree.hasNull_parent h.known, FileTree.makeDirectory_of_directory hd hdirectory, rfl⟩
  exact ⟨q, hq, hfile, h.known, w, q, hmake, hq, by simp [hfile], rfl⟩

theorem Writable.write (h : Writable path w) (hp : 0 < patience.attempts) (r : Registry) :
    ∃ w', (write path r patience).run w = .ok () w' ∧
      Holds path (Document.toText r (some indentation)) w' := by
  obtain ⟨w₂, hrun⟩ := h
  obtain ⟨w', hputs⟩ :=
    (run_writeText_ok_iff.1 hrun).other (Document.toText r (some indentation))
  exact ⟨w', run_write_ok_iff.2 ⟨hp, hputs⟩, hputs.holds⟩

theorem Holds.write (h : Holds path text w) (hp : 0 < patience.attempts) (r : Registry) :
    ∃ w', (write path r patience).run w = .ok () w' ∧
      Holds path (Document.toText r (some indentation)) w' := by
  obtain ⟨q, -, -, hputs⟩ := h.puts (Document.toText r (some indentation))
  exact ⟨_, run_write_ok_iff.2 ⟨hp, hputs⟩, hputs.holds⟩

/-! ## Reading back -/

theorem Holds.readText (h : Holds path (Document.toText v (some indentation)) w)
    (hp : 0 < patience.attempts) :
    (readText path patience).run w = .ok (Document.toText v (some indentation)) w := by
  let text := Document.toText v (some indentation)
  have hlines : String.ofList (Text.unifyNewlines text.toList) = text := by
    have hsame : Text.unifyNewlines text.toList = text.toList :=
      Json.unifyNewlines_print (some 2) (Document.encode v)
    rw [hsame, String.ofList_toList]
  have hread : w.tree.read w.site.cwd path = .ok text := FileTree.read_eq_ok_iff.2 h.file
  have hget : (get : Job Workspace).run w = .ok w w := rfl
  rw [Store.readText, Job.run_bind_of_ok hget, hread, Job.run_bind_of_ok (run_opened hp h.known _),
    hlines]
  rfl

/-- A registry that was written is read back from its file. -/
theorem Holds.read (h : Holds path (Document.toText v (some indentation)) w)
    (hp : 0 < patience.attempts) (hwell : v.WellFormed IsShort) (hcoherent : v.Coherent)
    (hnumbers : v.NoCollisions) :
    ∃ s, (read path v.hash patience).run w = .ok s w ∧ ∀ c, s.records c = v.records c := by
  obtain ⟨s, hs, -, htypes, hclasses, henums, haliases, hfunctions⟩ :=
    Document.exists_ofText hwell hcoherent hnumbers (Json.isBlank_blanks (some 2))
  have hof : Document.ofText v.hash (Document.toText v (some indentation)) = .ok s := hs
  refine ⟨s, ?_, ?_⟩
  · rw [Store.read, Job.run_bind_of_ok (h.readText hp), hof]
    rfl
  · rintro (_ | _ | _ | _ | _)
    exacts [htypes, hclasses, henums, haliases, hfunctions]

/-! ## One registry after another -/

/-- The file at the path holds what some registries are together. -/
def Keeps (path : Path) (hash : NameHash) (rs : List Registry) (w : Workspace) : Prop :=
  ∃ v : Registry, Holds path (Document.toText v (some indentation)) w ∧ v.hash = hash ∧
    v.Coherent ∧ Registry.Accumulates rs v

theorem Keeps.read (h : Keeps path hash rs w) (hrs : Registry.Combinable hash rs)
    (hp : 0 < patience.attempts) :
    ∃ s, (Store.read path hash patience).run w = .ok s w ∧ s.Coherent ∧
      Registry.Accumulates rs s := by
  obtain ⟨v, hholds, rfl, hcoherent, hv⟩ := h
  obtain ⟨s, hs, hrecords⟩ :=
    hholds.read hp (hv.wellFormed hrs.wellFormed) hcoherent (hv.noCollisions hrs)
  exact ⟨s, hs, .of_records hrecords hcoherent, .of_records hrecords hv⟩

/-- What is written is the text of a registry that is up to date, although the registry itself may
mention types as they were. -/
private theorem keeps_of_holds {u : Registry} (hu : u.Coherent) (hrs : Registry.Accumulates rs u)
    (hall : Registry.Combinable u.hash (rs ++ [r]))
    (h : Holds path (Document.toText (u.union r) (some indentation)) w) :
    Keeps path u.hash (rs ++ [r]) w := by
  have hr : r.Coherent := hall.coherent r (by simp)
  have htext : Document.toText (u.union r) (some indentation) =
      Document.toText (u.renewed r) (some indentation) := by
    rw [Document.toText, Registry.encode_union hu hr]
    rfl
  exact ⟨u.renewed r, htext ▸ h, rfl, hu.renewed hr,
    hrs.renewed (fun a ha => hall.coherent a (by simp [ha])) hr⟩

theorem Holds.run_isPresent (h : Holds path text w) : (Job.isPresent path).run w = .ok true w := by
  obtain ⟨q, hq, hfile⟩ := h.file
  have hthere : w.tree.isThere (fun _ => true) w.site.cwd path = .ok true := by
    simp [FileTree.isThere, FileTree.lookUp, hq, hfile]
  exact (Job.run_isThere_ok_iff h.known).2 ⟨hthere, rfl⟩

/-- What a registry is together with nothing. -/
def alone (r : Registry) : Registry :=
  ((Registry.empty r.hash).union (Registry.empty r.hash)).union r

private theorem run_append_new (hp : 0 < patience.attempts)
    (hnew : (Job.isPresent path).run w = .ok false w) (hwrite : Writable path w) :
    ∃ w', (append path r patience).run w = .ok (alone r) w' ∧
      Holds path (Document.toText (alone r) (some indentation)) w' := by
  obtain ⟨w', hrun, hholds⟩ := hwrite.write hp (alone r)
  refine ⟨w', ?_, hholds⟩
  rw [append, Job.run_bind_of_ok hnew]
  exact Job.run_bind_of_ok hrun

/-- A registry comes into a file that is not there yet. -/
theorem append_new (hall : Registry.Combinable r.hash [r]) (hp : 0 < patience.attempts)
    (hnew : (Job.isPresent path).run w = .ok false w) (hwrite : Writable path w) :
    ∃ s w', (append path r patience).run w = .ok s w' ∧ Keeps path r.hash [r] w' := by
  let u := (Registry.empty r.hash).union (Registry.empty r.hash)
  have hrecords : ∀ c, u.records c = (Registry.empty r.hash).records c :=
    Registry.records_empty_union r.hash _
  obtain ⟨w', hrun, hholds⟩ := run_append_new hp hnew hwrite
  exact ⟨alone r, w', hrun, keeps_of_holds (u := u)
    (.of_records hrecords (Registry.coherent_empty _))
    (.of_records hrecords (Registry.accumulates_empty _)) hall hholds⟩

/-- A registry comes into a file that holds others. -/
theorem Keeps.append (h : Keeps path r.hash rs w) (hall : Registry.Combinable r.hash (rs ++ [r]))
    (hp : 0 < patience.attempts) :
    ∃ s w', (Store.append path r patience).run w = .ok s w' ∧
      Keeps path r.hash (rs ++ [r]) w' := by
  obtain ⟨stored, hread, hcoherent, hstored⟩ := h.read (hall.of_subset (by simp)) hp
  obtain ⟨v, hholds, -⟩ := h
  let u := (Registry.empty r.hash).union stored
  have hrecords : ∀ c, u.records c = stored.records c := Registry.records_empty_union r.hash stored
  obtain ⟨w', hrun, hholds'⟩ := hholds.write hp (u.union r)
  refine ⟨u.union r, w', ?_, keeps_of_holds (u := u) (.of_records hrecords hcoherent)
    (.of_records hrecords hstored) hall hholds'⟩
  rw [Store.append, Job.run_bind_of_ok (hholds.run_isPresent), if_pos rfl, Job.run_bind_of_ok hread]
  exact Job.run_bind_of_ok hrun

/-- Adds registries to the one in a file, one after another. -/
def appendAll (path : Path) (rs : List Registry) (patience : Patience) : Job Unit :=
  rs.forM fun r => discard (append path r patience)

theorem Keeps.appendAll {more : List Registry} (h : Keeps path hash rs w)
    (hall : Registry.Combinable hash (rs ++ more)) (hp : 0 < patience.attempts) :
    ∃ w', (Store.appendAll path more patience).run w = .ok () w' ∧
      Keeps path hash (rs ++ more) w' := by
  induction more generalizing rs w with
  | nil => exact ⟨w, rfl, by rwa [List.append_nil]⟩
  | cons r more ih =>
    obtain rfl : r.hash = hash := hall.hashes r (by simp)
    obtain ⟨s, w₁, hrun, hkeeps⟩ := h.append (hall.of_subset (by simp)) hp
    have hlist : rs ++ [r] ++ more = rs ++ r :: more := by simp
    obtain ⟨w', hrest, hkeeps'⟩ := ih hkeeps (hlist ▸ hall)
    refine ⟨w', ?_, hlist ▸ hkeeps'⟩
    rw [Store.appendAll, Job.forM_cons, Job.run_bind_of_ok (Job.run_discard_of_ok hrun)]
    exact hrest

/-- Registries that are added one after another to a file that was not there, at a path where one
can be written, all come in. What is then read from the file has their names in the order of their
first appearance, and by each name the record of the last registry that has one, in which every
type is the registered one. -/
theorem read_appendAll (hne : rs ≠ []) (hrs : Registry.Combinable hash rs)
    (hp : 0 < patience.attempts) (hnew : (Job.isPresent path).run w = .ok false w)
    (hwrite : Writable path w) :
    ∃ w', (appendAll path rs patience).run w = .ok () w' ∧
      ∃ s, (read path hash patience).run w' = .ok s w' ∧ s.Coherent ∧
        Registry.Accumulates rs s := by
  cases rs with
  | nil => exact absurd rfl hne
  | cons r more =>
    obtain rfl : r.hash = hash := hrs.hashes r (by simp)
    obtain ⟨s, w₁, hrun, hkeeps⟩ := append_new (hrs.of_subset (by simp)) hp hnew hwrite
    obtain ⟨w', hrest, hkeeps'⟩ := hkeeps.appendAll hrs hp
    refine ⟨w', ?_, hkeeps'.read hrs hp⟩
    rw [appendAll, Job.forM_cons, Job.run_bind_of_ok (Job.run_discard_of_ok hrun)]
    exact hrest

/-! ## Some files -/

/-- A registry file at the top of a file tree. -/
def topPath : Path := .absolute ["module.reflregistry.json"]

/-- A file tree with nothing in it. -/
def vacant : Workspace := .start ⟨[], default, []⟩ .empty

/-- A file tree with a file where a registry file has its directory. -/
def obstructed : Workspace := .start ⟨[], default, []⟩ (FileTree.empty.put ["a"] (.file "x"))

private theorem isPresent_vacant : (Job.isPresent topPath).run vacant = .ok false vacant := rfl

private theorem writable_vacant : Writable topPath vacant := by
  refine ⟨{ vacant with tree := vacant.tree.put ["module.reflregistry.json"] (.file "") }, ?_⟩
  have hmake : (Job.makeDirectory topPath.parent).run vacant = .ok () vacant := by
    rw [Job.run_makeDirectory_ok_iff]
    have htop : vacant.tree.locate vacant.site.cwd topPath.parent = .ok [] := rfl
    exact ⟨rfl, FileTree.makeDirectory_of_directory htop rfl, rfl⟩
  rw [Job.run_bind_of_ok hmake]
  rfl

private theorem wellFormed_bare {file : Path} {line : Int} (hfile : file.Normal)
    (hline : IsShort line) : (Metadata.bare file line).WellFormed IsShort where
  file := hfile
  line := ⟨line, rfl, hline⟩
  reflected := ⟨_, rfl⟩
  tags := by simp [Metadata.bare]
  attributes := by simp [Metadata.bare]
  comment := ⟨_, rfl⟩

private theorem wellFormed_door : Registry.door.WellFormed IsShort := by
  have hplain : ∀ name kind, (CppType.plain ⟨.proper name, ""⟩ kind).id.WellFormed :=
    fun name kind => ⟨⟨name, rfl⟩, ⟨"", rfl⟩⟩
  refine ⟨?_, ?_, by simp [Registry.door, Registry.empty], by simp [Registry.door, Registry.empty],
    by simp [Registry.door, Registry.empty]⟩
  · intro t ht
    have hitems : Registry.door.types.items =
        [Registry.handle .record, .plain ⟨"Door", ""⟩ .record] := rfl
    rw [hitems] at ht
    obtain rfl | ht := List.mem_cons.1 ht
    · exact hplain _ _
    · obtain rfl := List.mem_singleton.1 ht
      exact hplain _ _
  · intro d hd
    obtain rfl := List.mem_singleton.1 hd
    refine ⟨wellFormed_bare (Path.normal_ofString _) (by unfold IsShort; decide), ⟨_, rfl⟩, by simp,
      ?_, by simp, ⟨none, rfl, by simp⟩⟩
    intro m hm
    obtain rfl := List.mem_singleton.1 hm
    exact ⟨⟨_, rfl⟩, by simp, wellFormed_bare (Path.normal_ofString _) (by unfold IsShort; decide)⟩

private theorem wellFormed_handles (kind : TypeKind) :
    (Registry.handles kind).WellFormed IsShort := by
  refine ⟨?_, by simp [Registry.handles, Registry.empty],
    by simp [Registry.handles, Registry.empty], by simp [Registry.handles, Registry.empty],
    by simp [Registry.handles, Registry.empty]⟩
  intro t ht
  obtain rfl := List.mem_singleton.1 ht
  exact ⟨⟨"Handle", rfl⟩, ⟨"", rfl⟩⟩

private theorem combinable_door_handles :
    Registry.Combinable NameHash.crc32 [Registry.door, Registry.handles .int32] where
  hashes := by simp [Registry.door, Registry.handles, Registry.empty]
  coherent := by simp [Registry.coherent_door, Registry.coherent_handles]
  wellFormed := by simp [wellFormed_door, wellFormed_handles]
  types := by
    unfold NameHash.Separates
    decide +kernel
  functions := by
    unfold NameHash.Separates
    decide +kernel
  fields := by
    unfold NameHash.Separates
    simp only [List.forall_mem_cons]
    decide +kernel
  methods := by
    unfold NameHash.Separates
    simp only [List.forall_mem_cons]
    decide +kernel

/-- A door, and then handles of another kind: what is read has the handles that came last. -/
theorem read_appendAll_door_handles :
    [Registry.door, Registry.handles .int32] ≠ [] ∧
      Registry.Combinable NameHash.crc32 [Registry.door, Registry.handles .int32] ∧
      0 < (⟨2, .whole 0⟩ : Patience).attempts ∧
      (Job.isPresent topPath).run vacant = .ok false vacant ∧ Writable topPath vacant ∧
      ∃ w', (appendAll topPath [Registry.door, Registry.handles .int32] ⟨2, .whole 0⟩).run vacant =
          .ok () w' ∧
        ∃ s, (read topPath NameHash.crc32 ⟨2, .whole 0⟩).run w' = .ok s w' ∧ s.Coherent ∧
          Registry.Accumulates [Registry.door, Registry.handles .int32] s :=
  ⟨by simp, combinable_door_handles, by decide, isPresent_vacant, writable_vacant,
    read_appendAll (by simp) combinable_door_handles (by decide) isPresent_vacant writable_vacant⟩

/-- Nothing is written below a file. -/
private theorem not_write_below (h : w.tree.find? (path.parent.fold w.site.cwd) = some (.file text))
    {u : Unit} : (write path r patience).run w ≠ .ok u w' := by
  intro hrun
  obtain ⟨⟨⟩, w₁, hmake, -⟩ := Job.run_bind_ok_iff.1 hrun
  obtain ⟨-, hmade, -⟩ := Job.run_makeDirectory_ok_iff.1 hmake
  obtain ⟨q, hq, hdirectory⟩ := FileTree.directory_of_makeDirectory hmade
  have hextends := FileTree.extends_makeDirectory w.tree w.site.cwd path.parent
  rw [hmade] at hextends
  have htext := hextends.text.2 h
  rw [← FileTree.locate_ok hq, hdirectory] at htext
  cases htext

private theorem records_alone (r : Registry) (c : Category) :
    (alone r).records c = r.records c := by
  rw [alone, Registry.records_union, Registry.records_empty_union,
    ← Registry.records_union, Registry.records_empty_union]

private theorem read_longLevel
    (h : Holds path (Document.toText Document.longLevel (some indentation)) w)
    (hp : 0 < patience.attempts) :
    (read path NameHash.crc32 patience).run w =
      .error (.longNumber (Text.longestWhole + 1)) w := by
  have hparse : Json.parse (Document.toText Document.longLevel (some indentation)) =
      .error (.longNumber (Text.longestWhole + 1)) :=
    Json.parse_print_of_stopsAt (Json.isBlank_blanks (some 2)) Document.stopsAt_longLevel
  have hof : Document.ofText NameHash.crc32
      (Document.toText Document.longLevel (some indentation)) =
        .error (.longNumber (Text.longestWhole + 1)) := by
    rw [Document.ofText, hparse]
  rw [read, Job.run_bind_of_ok (h.readText hp), hof]
  rfl

/-- Nothing comes into a file that would lie below another file, and nothing more comes into one
that holds a whole number that is too long. -/
theorem not_appendAll_obstructed_longLevel :
    (Registry.Combinable NameHash.crc32 [Registry.handles .int32] ∧
      (Job.isPresent (.absolute ["a", "module.reflregistry.json"])).run obstructed =
        .ok false obstructed ∧
      ¬ ∃ w', (appendAll (.absolute ["a", "module.reflregistry.json"]) [Registry.handles .int32]
        ⟨2, .whole 0⟩).run obstructed = .ok () w') ∧
    ((Document.longLevel.WellFormed fun _ => True) ∧ Document.longLevel.Coherent ∧
      Document.longLevel.NoCollisions ∧ (Job.isPresent topPath).run vacant = .ok false vacant ∧
      Writable topPath vacant ∧
      ¬ ∃ w', (appendAll topPath [Document.longLevel, Document.longLevel]
        ⟨2, .whole 0⟩).run vacant = .ok () w') := by
  have hnumbers : Document.longLevel.NoCollisions := by
    constructor <;> unfold NameHash.Separates <;> decide +kernel
  have hnew : (Job.isPresent (.absolute ["a", "module.reflregistry.json"])).run obstructed =
      .ok false obstructed := rfl
  refine ⟨⟨combinable_door_handles.of_subset (by simp), hnew, ?_⟩, Document.longLevel_wellFormed,
    Document.longLevel_coherent, hnumbers, isPresent_vacant, writable_vacant, ?_⟩
  · rintro ⟨w', hrun⟩
    obtain ⟨⟨⟩, w₁, hfirst, -⟩ := Job.run_bind_ok_iff.1 hrun
    obtain ⟨s, happend⟩ := Job.exists_of_run_discard hfirst
    rw [append, Job.run_bind_of_ok hnew] at happend
    obtain ⟨stored, w₂, hpure, hrest⟩ := Job.run_bind_ok_iff.1 happend
    cases hpure
    obtain ⟨⟨⟩, w₂, hwrite, -⟩ := Job.run_bind_ok_iff.1 hrest
    have hbelow : obstructed.tree.find? ["a"] = some (.file "x") := rfl
    exact not_write_below hbelow hwrite
  · rintro ⟨w', hrun⟩
    obtain ⟨w₁, hfirst, hholds⟩ : ∃ w₁,
        (append topPath Document.longLevel ⟨2, .whole 0⟩).run vacant =
          .ok (alone Document.longLevel) w₁ ∧
        Holds topPath (Document.toText (alone Document.longLevel) (some indentation)) w₁ :=
      run_append_new (by decide) isPresent_vacant writable_vacant
    have htext : Document.toText (alone Document.longLevel) (some indentation) =
        Document.toText Document.longLevel (some indentation) := by
      have hcoherent : (alone Document.longLevel).Coherent :=
        .of_records (records_alone _) Document.longLevel_coherent
      rw [Document.toText, (Registry.Alike.of_records (records_alone _)).encode_eq
        (Document.typeTable_of_coherent hcoherent)
        (Document.typeTable_of_coherent Document.longLevel_coherent)]
      rfl
    rw [htext] at hholds
    have hsecond : (append topPath Document.longLevel ⟨2, .whole 0⟩).run w₁ =
        .error (.longNumber (Text.longestWhole + 1)) w₁ := by
      rw [append, Job.run_bind_of_ok (hholds.run_isPresent), if_pos rfl]
      exact Job.run_bind_of_error (read_longLevel hholds (by decide))
    rw [appendAll, Job.forM_cons, Job.run_bind_of_ok (Job.run_discard_of_ok hfirst),
      Job.forM_cons, Job.run_bind_of_error (Job.run_discard_of_error hsecond)] at hrun
    cases hrun

end Introspect.Store
