import Introspect.FileTree
import Introspect.Proofs.Catalog
import Introspect.Proofs.Except

/-! What is at the places of a file tree after an operation, and which paths still lead where they
led before. -/
namespace Introspect.FileTree
variable {t t' : FileTree} {cwd place q : List String} {path : Path} {s : String} {n : Node}

theorem isDirectory_iff : t.isDirectory place = true ↔ t.find? place = some .directory := by
  simp [isDirectory]

theorem text?_eq_some_iff : t.text? place = some s ↔ t.find? place = some (.file s) := by
  unfold text?
  split
  · next h => simp [h]
  · next h =>
    constructor
    · nofun
    · exact fun hs => absurd hs (h s)

/-- The tree with something put at a place. -/
def put (t : FileTree) (place : List String) (n : Node) : FileTree := ⟨t.nodes.insert place n⟩

/-- The tree with nothing left at a place. -/
def cut (t : FileTree) (place : List String) : FileTree := ⟨t.nodes.erase place⟩

theorem find?_put : (t.put place n).find? q = if place = q then some n else t.find? q :=
  Table.find?_insert t.nodes place q n

theorem find?_cut : (t.cut place).find? q = if place = q then none else t.find? q :=
  Table.find?_erase t.nodes place q

/-! ## Where paths lead -/

/-- A path that can be followed leads where its components say. -/
theorem follow_ok {parts : List String} (h : t.follow path place parts = .ok q) :
    q = parts.foldl Path.descend place := by
  induction parts generalizing place with
  | nil => cases h; rfl
  | cons part rest ih =>
    rw [follow] at h
    split at h
    · cases h
    · cases h
    · split at h
      · cases h
      · exact ih h

theorem follow_append {path' : Path} {parts rest : List String}
    (h : t.follow path place parts = .ok q) :
    t.follow path' place (parts ++ rest) = t.follow path' q rest := by
  induction parts generalizing place with
  | nil =>
    cases h
    rfl
  | cons part parts ih =>
    rw [follow] at h
    split at h
    · cases h
    · cases h
    · next hdirectory =>
      split at h
      · cases h
      · next hshort =>
        rw [List.cons_append, follow, hdirectory]
        simp only [hshort, if_false]
        exact ih h

theorem follow_mono {parts : List String}
    (hdirectories : ∀ p, t.find? p = some .directory → t'.find? p = some .directory)
    (h : t.follow path place parts = .ok q) : t'.follow path place parts = .ok q := by
  induction parts generalizing place with
  | nil => exact h
  | cons part rest ih =>
    rw [follow] at h ⊢
    split at h
    · cases h
    · cases h
    · next hdirectory =>
      rw [hdirectories place hdirectory]
      split at h
      · cases h
      · next hshort =>
        simp only [hshort, if_false]
        exact ih h

theorem locate_ok (h : t.locate cwd path = .ok q) : q = path.fold cwd := by
  unfold locate at h
  split at h
  · cases h
  · exact follow_ok h

/-- A path leads to the same place in a tree that has all the directories, and more. -/
theorem locate_mono
    (hdirectories : ∀ p, t.find? p = some .directory → t'.find? p = some .directory)
    (h : t.locate cwd path = .ok q) : t'.locate cwd path = .ok q := by
  unfold locate at h ⊢
  split at h
  · cases h
  · next hshort =>
    rw [if_neg hshort]
    exact follow_mono hdirectories h

private theorem follow_nameTooLong {parts : List String} {p : Path}
    (hdirectories : ∀ p, t.find? p = some .directory → t'.find? p = some .directory)
    (h : t.follow path place parts = .error (.nameTooLong p)) :
    t'.follow path place parts = .error (.nameTooLong p) := by
  induction parts generalizing place with
  | nil => cases h
  | cons part rest ih =>
    rw [follow] at h ⊢
    split at h
    · cases h
    · cases h
    · next hdirectory =>
      rw [hdirectories place hdirectory]
      split at h
      · next hlong => simp only [hlong, if_true, h]
      · next hshort =>
        simp only [hshort, if_false]
        exact ih h

theorem locate_nameTooLong {p : Path}
    (hdirectories : ∀ p, t.find? p = some .directory → t'.find? p = some .directory)
    (h : t.locate cwd path = .error (.nameTooLong p)) :
    t'.locate cwd path = .error (.nameTooLong p) := by
  unfold locate at h ⊢
  split at h
  · next hlong => rw [if_pos hlong, h]
  · next hshort =>
    rw [if_neg hshort]
    exact follow_nameTooLong hdirectories h

theorem isThere_of_locate (h : t.locate cwd path = .ok q) {test : Node → Bool} :
    t.isThere test cwd path = .ok ((t.find? q).any test) := by
  rw [isThere, lookUp, h, ok_bind]
  cases t.find? q <;> rfl

/-- In a tree with the same directories the same is there, if the same passes the test where the
path leads. -/
theorem isThere_eq_of_directories {test : Node → Bool}
    (hdirectories : ∀ p, t.find? p = some .directory ↔ t'.find? p = some .directory)
    (hsame : ∀ q, t.locate cwd path = .ok q → (t'.find? q).any test = (t.find? q).any test) :
    t'.isThere test cwd path = t.isThere test cwd path := by
  have hmono := fun p => (hdirectories p).1
  have hback := fun p => (hdirectories p).2
  cases hlocate : t.locate cwd path with
  | ok q => rw [isThere_of_locate hlocate, isThere_of_locate (locate_mono hmono hlocate), hsame q hlocate]
  | error e =>
    unfold isThere lookUp
    cases hlocate' : t'.locate cwd path with
    | ok q =>
      rw [locate_mono hback hlocate'] at hlocate
      cases hlocate
    | error e' =>
      rw [hlocate]
      by_cases hlong : ∃ p, e = .nameTooLong p
      · obtain ⟨p, rfl⟩ := hlong
        rw [locate_nameTooLong hmono hlocate] at hlocate'
        cases hlocate'
        rfl
      · have hlong' : ¬ ∃ p, e' = .nameTooLong p := by
          rintro ⟨p, rfl⟩
          rw [locate_nameTooLong hback hlocate'] at hlocate
          cases hlocate
          exact hlong ⟨p, rfl⟩
        cases e <;> cases e' <;> simp_all [bind, Except.bind]

/-- Whether something is there can be told unless a name on the way is too long. -/
theorem exists_isThere_iff {test : Node → Bool} : (∃ b, t.isThere test cwd path = .ok b) ↔
    ∀ p, t.locate cwd path ≠ .error (.nameTooLong p) := by
  cases hlocate : t.locate cwd path with
  | ok q => simp [isThere_of_locate hlocate]
  | error e =>
    unfold isThere lookUp
    rw [hlocate]
    cases e <;> simp [bind, Except.bind]

/-- What can be told where there are more directories could be told before. -/
theorem exists_isThere_of_directories {test : Node → Bool}
    (hdirectories : ∀ p, t.find? p = some .directory → t'.find? p = some .directory)
    (h : ∃ b, t'.isThere test cwd path = .ok b) : ∃ b, t.isThere test cwd path = .ok b := by
  rw [exists_isThere_iff] at h ⊢
  exact fun p hlong => h p (locate_nameTooLong hdirectories hlong)

/-! ## Operations -/

theorem write_eq_ok_iff : t.write cwd path s = .ok t' ↔
    ∃ place, t.locate cwd path = .ok place ∧ t.find? place ≠ some .directory ∧
      t' = t.put place (.file s) := by
  rw [write, bind_eq_ok_iff]
  refine exists_congr fun place => and_congr_right fun _ => ?_
  by_cases hd : t.isDirectory place = true
  · simp [hd, isDirectory_iff.1 hd]
  · simp [hd, mt isDirectory_iff.2 hd, put, eq_comm]

/-- What is removed by a path that leads somewhere is not a directory. -/
theorem remove_eq_ok_iff (h : ∀ p, t.locate cwd path ≠ .error (.notFound p)) :
    t.remove cwd path = .ok t' ↔
      ∃ place, t.locate cwd path = .ok place ∧ t.find? place ≠ some .directory ∧
        t' = t.cut place := by
  rw [remove]
  cases hlocate : t.locate cwd path with
  | error e =>
    cases e with
    | notFound p => exact absurd hlocate (h p)
    | _ => simp
  | ok place =>
    by_cases hd : t.isDirectory place = true
    · simp [hd, isDirectory_iff.1 hd]
    · have hfree := mt isDirectory_iff.2 hd
      simp [hd, hfree, cut, @eq_comm _ t']

theorem ensureDirectory_eq_ok_iff : t.ensureDirectory cwd path = .ok t' ↔
    ∃ place, t.locate cwd path = .ok place ∧
      (t.find? place = some .directory ∧ t' = t ∨
        t.find? place = none ∧ t' = t.put place .directory) := by
  rw [ensureDirectory, bind_eq_ok_iff]
  refine exists_congr fun place => and_congr_right fun _ => ?_
  split
  · next h => simp [h, eq_comm]
  · next h => simp [h]
  · next h => simp [h, put, eq_comm]

theorem read_eq_ok_iff : t.read cwd path = .ok s ↔
    ∃ place, t.locate cwd path = .ok place ∧ t.find? place = some (.file s) := by
  simp only [read, lookUp, bind_eq_ok_iff]
  constructor
  · rintro ⟨n, ⟨place, hplace, hn⟩, hs⟩
    refine ⟨place, hplace, ?_⟩
    split at hn
    · next m hm =>
      cases hn
      cases n with
      | file s' => cases hs; exact hm
      | directory => cases hs
    · cases hn
  · rintro ⟨place, hplace, hs⟩
    exact ⟨.file s, ⟨place, hplace, by rw [hs]⟩, rfl⟩

/-- The tree after a directory was made, or as far as that went: directories may be new that the
path leads through, where nothing was before. -/
def Extends (cwd : List String) (path : Path) (t t' : FileTree) : Prop :=
  ∀ q, t'.find? q = t.find? q ∨
    t.find? q = none ∧ t'.find? q = some .directory ∧
      ∃ n, q = Path.fold cwd { path with parts := path.parts.take n }

namespace Extends

theorem refl (cwd : List String) (path : Path) (t : FileTree) : Extends cwd path t t :=
  fun _ => .inl rfl

theorem trans {t'' : FileTree} (h : Extends cwd path t t') (h' : Extends cwd path t' t'') :
    Extends cwd path t t'' := by
  intro q
  rcases h q with hq | ⟨hnone, hq, hn⟩ <;> rcases h' q with hq' | ⟨hnone', hq', hn'⟩
  · exact .inl (hq'.trans hq)
  · exact .inr ⟨hq ▸ hnone', hq', hn'⟩
  · exact .inr ⟨hnone, hq'.trans hq, hn⟩
  · rw [hq] at hnone'
    cases hnone'

theorem of_parent (h : Extends cwd path.parent t t') : Extends cwd path t t' := by
  intro q
  rcases h q with hq | ⟨hnone, hq, n, hn⟩
  · exact .inl hq
  · refine .inr ⟨hnone, hq, min n (path.parts.length - 1), ?_⟩
    simpa [Path.parent, List.dropLast_eq_take, List.take_take] using hn

theorem directory (h : Extends cwd path t t') (hq : t.find? q = some .directory) :
    t'.find? q = some .directory := by
  rcases h q with hsame | ⟨hnone, -, -⟩
  · exact hsame.trans hq
  · rw [hq] at hnone
    cases hnone

theorem text (h : Extends cwd path t t') :
    t'.find? q = some (.file s) ↔ t.find? q = some (.file s) := by
  rcases h q with hsame | ⟨hnone, hdirectory, -⟩
  · rw [hsame]
  · simp [hnone, hdirectory]

end Extends

theorem extends_ensureDirectory (h : t.ensureDirectory cwd path = .ok t') :
    Extends cwd path t t' := by
  obtain ⟨place, hplace, ⟨-, rfl⟩ | ⟨hnone, rfl⟩⟩ := ensureDirectory_eq_ok_iff.1 h
  · exact .refl cwd path _
  · intro q
    rw [find?_put]
    split
    · next hq =>
      subst hq
      refine .inr ⟨hnone, rfl, path.parts.length, ?_⟩
      rw [List.take_length]
      exact locate_ok hplace
    · exact .inl rfl

/-- Whether it succeeds or not, making a directory only adds directories on the way to it. -/
theorem extends_makeDirectory (t : FileTree) (cwd : List String) (path : Path) :
    Extends cwd path t (t.makeDirectory cwd path).1 := by
  fun_induction makeDirectory t cwd path with
  | case1 path t' h => exact extends_ensureDirectory h
  | case2 path p h hparts => exact .refl cwd path t
  | case3 path p h hparts t' fault hparent ih =>
    rw [hparent] at ih
    exact ih.of_parent
  | case4 path p h hparts t' hparent t'' h' ih =>
    rw [hparent] at ih
    exact ih.of_parent.trans (extends_ensureDirectory h')
  | case5 path p h hparts t' hparent fault h' ih =>
    rw [hparent] at ih
    exact ih.of_parent
  | case6 path fault h hfault => exact .refl cwd path t

theorem directory_of_ensureDirectory (h : t.ensureDirectory cwd path = .ok t') :
    ∃ place, t'.locate cwd path = .ok place ∧ t'.find? place = some .directory := by
  obtain ⟨place, hplace, ⟨hdirectory, rfl⟩ | ⟨-, rfl⟩⟩ := ensureDirectory_eq_ok_iff.1 h
  · exact ⟨place, hplace, hdirectory⟩
  · refine ⟨place, locate_mono (fun p hp => ?_) hplace, by simp [find?_put]⟩
    rw [find?_put]
    split
    · rfl
    · exact hp

/-- A directory that was made is there. -/
theorem directory_of_makeDirectory (h : t.makeDirectory cwd path = (t', none)) :
    ∃ place, t'.locate cwd path = .ok place ∧ t'.find? place = some .directory := by
  unfold makeDirectory at h
  split at h
  · next h' =>
    cases h
    exact directory_of_ensureDirectory h'
  · split at h
    · cases h
    · split at h
      · cases h
      · split at h
        · next h' =>
          cases h
          exact directory_of_ensureDirectory h'
        · cases h
  · cases h

/-- There is nothing to make where a directory is. -/
theorem makeDirectory_of_directory (hplace : t.locate cwd path = .ok place)
    (hdirectory : t.find? place = some .directory) : t.makeDirectory cwd path = (t, none) := by
  have hensure : t.ensureDirectory cwd path = .ok t :=
    ensureDirectory_eq_ok_iff.2 ⟨place, hplace, .inl ⟨hdirectory, rfl⟩⟩
  rw [makeDirectory, hensure]

end Introspect.FileTree
