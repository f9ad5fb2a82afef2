import Mathlib.Data.List.Induction
import Introspect.Proofs.FileTree.Basic

/-! File trees in which everything lies in a directory, and paths that lead straight down. -/
namespace Introspect

/-- The text can be the name of an entry of a directory. -/
structure Path.IsName (s : String) : Prop where
  nonempty : s ≠ ""
  here : s ≠ "."
  up : s ≠ ".."
  single : '/' ∉ s.toList

instance (s : String) : Decidable (Path.IsName s) :=
  decidable_of_iff (s ≠ "" ∧ s ≠ "." ∧ s ≠ ".." ∧ '/' ∉ s.toList)
    ⟨fun h => ⟨h.1, h.2.1, h.2.2.1, h.2.2.2⟩, fun h => ⟨h.1, h.2, h.3, h.4⟩⟩

/-- The path starts at the top and goes down with every component. -/
structure Path.Straight (p : Path) : Prop where
  anchor : p.anchor = .root
  names : ∀ s ∈ p.parts, IsName s

/-- The path starts at the top and goes down or back up with every component. -/
structure Path.Rooted (p : Path) : Prop where
  absolute : p.isAbsolute = true
  names : ∀ s ∈ p.parts, s = ".." ∨ IsName s

namespace Path
variable {p : Path} {cwd : List String}

theorem Straight.rooted (h : p.Straight) : p.Rooted where
  absolute := by simp [isAbsolute, h.anchor]
  names s hs := .inr (h.names s hs)

theorem Rooted.parent (h : p.Rooted) : p.parent.Rooted :=
  ⟨h.absolute, fun s hs => h.names s (List.dropLast_subset _ hs)⟩

theorem Straight.down (h : p.Straight) : ".." ∉ p.parts := fun hm => (h.names _ hm).up rfl

theorem Straight.fold (h : p.Straight) (cwd : List String) : p.fold cwd = p.parts := by
  have hdown := h.down
  obtain ⟨anchor, parts⟩ := p
  obtain ⟨rfl, -⟩ := h
  exact fold_absolute cwd parts hdown

theorem Straight.take (h : p.Straight) (n : Nat) :
    ({ p with parts := p.parts.take n } : Path).Straight :=
  ⟨h.anchor, fun s hs => h.names s (List.mem_of_mem_take hs)⟩

theorem Straight.parent (h : p.Straight) : p.parent.Straight :=
  ⟨h.anchor, fun s hs => h.names s (List.dropLast_subset _ hs)⟩

theorem Straight.resolve (h : p.Straight) (cwd : List String) : p.resolve cwd = p := by
  rw [Path.resolve, h.fold]
  obtain ⟨anchor, parts⟩ := p
  obtain ⟨rfl, -⟩ := h
  rfl

theorem Straight.sameAs_eq_false_iff (h : p.Straight) {q : Path} :
    p.sameAs cwd q = false ↔ p ≠ q.resolve cwd := by
  rw [sameAs, beq_eq_false_iff_ne, ne_eq, ne_eq, not_iff_not]
  constructor
  · intro he
    rw [← h.resolve cwd, Path.resolve, he, Path.resolve]
  · exact fun he => (h.fold cwd).trans (congrArg Path.parts he)

private theorem mem_foldl_descend {parts above : List String} {s : String}
    (h : s ∈ parts.foldl descend above) : s ∈ above ∨ s ∈ parts ∧ s ≠ ".." := by
  induction parts generalizing above with
  | nil => exact .inl h
  | cons part rest ih =>
    rcases ih h with habove | ⟨hrest, hne⟩
    · unfold descend at habove
      split at habove
      · exact .inl (List.dropLast_subset _ habove)
      · next hne =>
        rcases List.mem_append.1 habove with habove | hs
        · exact .inl habove
        · obtain rfl := List.mem_singleton.1 hs
          exact .inr ⟨List.mem_cons_self .., hne⟩
    · exact .inr ⟨List.mem_cons_of_mem _ hrest, hne⟩

/-- What is left of a path is from the path itself or from the working directory. -/
theorem mem_fold {s : String} (h : s ∈ p.fold cwd) : s ∈ cwd ∨ s ∈ p.parts ∧ s ≠ ".." := by
  rcases mem_foldl_descend h with habove | hparts
  · split at habove
    · cases habove
    · exact .inl habove
  · exact .inr hparts

/-- The components of a path that was resolved are names, if those of the path are, apart from the
ways up in it, and those of the working directory. -/
theorem straight_resolve (hcwd : ∀ s ∈ cwd, IsName s)
    (hp : ∀ s ∈ p.parts, s = ".." ∨ IsName s) : (p.resolve cwd).Straight := by
  refine ⟨rfl, fun s hs => ?_⟩
  rcases mem_fold hs with hcwd' | ⟨hparts, hne⟩
  · exact hcwd s hcwd'
  · exact (hp s hparts).resolve_left hne

theorem hasNull_eq_false_iff : p.hasNull = false ↔ ∀ s ∈ p.parts, '\x00' ∉ s.toList := by
  simp [hasNull]

/-- The system knows what a path leads to if it knows the path and the working directory. -/
theorem hasNull_resolve (hcwd : ∀ s ∈ cwd, '\x00' ∉ s.toList) (hp : p.hasNull = false) :
    (p.resolve cwd).hasNull = false :=
  hasNull_eq_false_iff.2 fun s hs =>
    (mem_fold hs).elim (hcwd s) fun h => hasNull_eq_false_iff.1 hp s h.1

end Path

namespace FileTree
variable {t t' : FileTree} {cwd place q : List String} {path : Path} {s : String} {n : Node}

/-- The top is a directory, whatever is somewhere is in a directory, and every entry has a name
that the system can know and that is not too long for it. -/
structure WellFormed (t : FileTree) : Prop where
  top : t.find? [] = some .directory
  parent : ∀ p name, t.find? (p ++ [name]) ≠ none → t.find? p = some .directory
  names : ∀ p, t.find? p ≠ none → ∀ s ∈ p, Path.IsName s ∧ '\x00' ∉ s.toList
  short : ∀ p, t.find? p ≠ none → ∀ s ∈ p, s.utf8ByteSize ≤ nameLimit

/-- Everything above what is there is a directory. -/
theorem WellFormed.above (ht : t.WellFormed) {p : List String} (hq : t.find? q ≠ none)
    (hp : p <+: q) (hne : p ≠ q) : t.find? p = some .directory := by
  obtain ⟨rest, rfl⟩ := hp
  induction rest using List.reverseRecOn with
  | nil => simp at hne
  | append_singleton rest name ih =>
    rw [← List.append_assoc] at hq
    have hparent := ht.parent _ _ hq
    cases rest with
    | nil => simpa using hparent
    | cons a rest => exact ih (by simp [hparent]) (by simp)

/-- Nothing lies below a file, or where nothing is. -/
theorem WellFormed.below (ht : t.WellFormed) (hplace : t.find? place ≠ some .directory)
    (hq : place <+: q) (hne : place ≠ q) : t.find? q = none := by
  by_contra hfound
  exact hplace (ht.above hfound hq hne)

/-- The system knows where something is. -/
theorem WellFormed.hasNull (ht : t.WellFormed) (h : t.find? path.parts ≠ none) :
    path.hasNull = false := by
  rw [Path.hasNull, List.any_eq_false]
  intro part hpart
  simpa using (ht.names _ h part hpart).2

/-! ## Straight paths -/

theorem follow_straight {parts : List String} (hdown : ".." ∉ parts) :
    t.follow path place parts = .ok q →
      q = place ++ parts ∧
      (∀ p, place <+: p → p <+: place ++ parts → p ≠ place ++ parts →
        t.find? p = some .directory) ∧
      ∀ part ∈ parts, part.utf8ByteSize ≤ nameLimit := by
  induction parts generalizing place with
  | nil =>
    intro h
    cases h
    refine ⟨by simp, fun p hp hp' hne => ?_, by simp⟩
    rw [List.append_nil] at hp' hne
    exact absurd (hp'.eq_of_length_le hp.length_le) hne
  | cons part rest ih =>
    intro h
    simp only [List.mem_cons, not_or] at hdown
    rw [follow] at h
    split at h
    · cases h
    · cases h
    · next hdirectory =>
      split at h
      · cases h
      · next hshort =>
        rw [Path.descend, if_neg (Ne.symm hdown.1)] at h
        obtain ⟨hq, habove, hnames⟩ := ih hdown.2 h
        rw [List.append_assoc, List.singleton_append] at hq
        refine ⟨hq, fun p hp hp' hne => ?_, ?_⟩
        · by_cases hplace : p = place
          · rw [hplace, hdirectory]
          · have hlt : place.length < p.length := by
              rcases Nat.lt_or_ge place.length p.length with hlt | hge
              · exact hlt
              · exact absurd (hp.eq_of_length_le hge).symm hplace
            have hlist : place ++ part :: rest = place ++ [part] ++ rest := by simp
            rw [hlist] at hp' hne
            refine habove p ?_ hp' hne
            exact List.prefix_of_prefix_length_le (List.prefix_append _ _) hp' (by simp; omega)
        · intro name hname
          obtain rfl | hname := List.mem_cons.1 hname
          · omega
          · exact hnames name hname

/-- A straight path that leads somewhere leads through directories, none of which has too long a
name. -/
theorem locate_straight (hp : path.Straight) (h : t.locate cwd path = .ok q) :
    q = path.parts ∧ (∀ p, p <+: path.parts → p ≠ path.parts → t.find? p = some .directory) ∧
      ∀ part ∈ path.parts, part.utf8ByteSize ≤ nameLimit := by
  unfold locate at h
  split at h
  · cases h
  · have habsolute : path.isAbsolute = true := by
      simp [Path.isAbsolute, hp.anchor]
    rw [habsolute, if_pos rfl] at h
    obtain ⟨hq, habove, hnames⟩ := follow_straight hp.down h
    exact ⟨hq, fun p hp' hne => habove p List.nil_prefix hp' hne, hnames⟩

/-- A straight path whose names are not too long fails to lead anywhere only where nothing is. -/
private theorem find?_of_follow_error (ht : t.WellFormed) {parts : List String}
    (hdown : ".." ∉ parts) {e : SystemFault} (h : t.follow path place parts = .error e)
    (he : ∀ p, e ≠ .nameTooLong p) : t.find? (place ++ parts) = none := by
  induction parts generalizing place with
  | nil => cases h
  | cons part rest ih =>
    simp only [List.mem_cons, not_or] at hdown
    rw [follow] at h
    split at h
    · next hnone => exact ht.below (by simp [hnone]) (List.prefix_append _ _) (by simp)
    · next hfile => exact ht.below (by simp [hfile]) (List.prefix_append _ _) (by simp)
    · split at h
      · cases h
        exact absurd rfl (he path)
      · rw [Path.descend, if_neg (Ne.symm hdown.1)] at h
        have hlist : place ++ part :: rest = place ++ [part] ++ rest := by simp
        rw [hlist]
        exact ih hdown.2 h

theorem find?_of_locate_error (ht : t.WellFormed) (hp : path.Straight) {e : SystemFault}
    (h : t.locate cwd path = .error e) (he : ∀ p, e ≠ .nameTooLong p) :
    t.find? path.parts = none := by
  unfold locate at h
  split at h
  · cases h
    exact absurd rfl (he path)
  · have habsolute : path.isAbsolute = true := by
      simp [Path.isAbsolute, hp.anchor]
    rw [habsolute, if_pos rfl] at h
    exact find?_of_follow_error ht hp.down h he

/-- What is at a place does not pass a test that is said to fail there. -/
theorem test_of_isThere_false (ht : t.WellFormed) (hp : path.Straight) {test : Node → Bool}
    (h : t.isThere test cwd path = .ok false) (hn : t.find? path.parts = some n) :
    test n = false := by
  unfold isThere lookUp at h
  cases hlocate : t.locate cwd path with
  | error e =>
    have hnone : t.find? path.parts = none := by
      refine find?_of_locate_error ht hp hlocate fun p he => ?_
      subst he
      rw [hlocate] at h
      cases h
    rw [hnone] at hn
    cases hn
  | ok q =>
    rw [hlocate, ok_bind, (locate_straight hp hlocate).1, hn] at h
    exact Except.ok.inj h

/-- Where nothing is said to be, nothing is. -/
theorem find?_of_isThere_false (ht : t.WellFormed) (hp : path.Straight)
    (h : t.isThere (fun _ => true) cwd path = .ok false) : t.find? path.parts = none := by
  by_contra hfound
  obtain ⟨n, hn⟩ := Option.ne_none_iff_exists'.1 hfound
  cases test_of_isThere_false ht hp h hn

theorem find?_of_isThere_true {test : Node → Bool} (h : t.isThere test cwd path = .ok true) :
    ∃ q n, t.locate cwd path = .ok q ∧ t.find? q = some n ∧ test n = true := by
  unfold isThere lookUp at h
  cases hlocate : t.locate cwd path with
  | error e =>
    rw [hlocate] at h
    cases e <;> cases h
  | ok q =>
    rw [hlocate, ok_bind] at h
    cases hfind : t.find? q with
    | none =>
      rw [hfind] at h
      cases h
    | some n =>
      rw [hfind] at h
      exact ⟨q, n, rfl, hfind, Except.ok.inj h⟩

/-- Where a path that is not too long leads, once its directory is there and its name is not too
long either. -/
theorem locate_of_parent (hp : path.Straight)
    (hne : path.parts ≠ []) (hshort : path.toString.utf8ByteSize ≤ pathLimit)
    (hname : (path.parts.getLast?.getD "").utf8ByteSize ≤ nameLimit)
    (hparent : t.locate cwd path.parent = .ok q) (hq : t.find? q = some .directory) :
    t.locate cwd path = .ok path.parts := by
  obtain ⟨front, name, hparts⟩ : ∃ front name, path.parts = front ++ [name] :=
    ⟨_, _, (List.dropLast_concat_getLast hne).symm⟩
  have habsolute : path.isAbsolute = true := by simp [Path.isAbsolute, hp.anchor]
  have hfollow : t.follow path.parent [] front = .ok q := by
    unfold locate at hparent
    split at hparent
    · cases hparent
    · simpa [Path.parent, hparts, Path.isAbsolute, hp.anchor] using hparent
  have hq' : q ++ [name] = path.parts := by
    rw [(locate_straight hp.parent hparent).1, hparts]
    simp [Path.parent, hparts]
  have hup : name ≠ ".." := (hp.names name (by simp [hparts])).up
  rw [hparts] at hname
  rw [locate, if_neg (Nat.not_lt.2 hshort), habsolute, if_pos rfl]
  conv_lhs => rw [hparts, follow_append hfollow, follow, hq]
  simp only [List.getLast?_concat, Option.getD_some] at hname
  rw [← hq']
  simp [Nat.not_lt.2 hname, Path.descend, hup, follow]

/-- Where something is or is not is only said of a path that is not too long. -/
theorem length_of_isThere {test : Node → Bool} {present : Bool}
    (h : t.isThere test cwd path = .ok present) : path.toString.utf8ByteSize ≤ pathLimit := by
  by_contra hlong
  rw [isThere, lookUp, locate, if_pos (Nat.not_le.1 hlong)] at h
  cases h

/-! ## What keeps a tree well-formed -/

/-- Something can be at the place: it is the top or in a directory, and the system can know all
names on the way, none of which is too long for it. -/
structure Room (t : FileTree) (place : List String) : Prop where
  parent : place ≠ [] → t.find? place.dropLast = some .directory
  names : ∀ s ∈ place, Path.IsName s ∧ '\x00' ∉ s.toList
  short : ∀ s ∈ place, s.utf8ByteSize ≤ nameLimit

theorem WellFormed.room (ht : t.WellFormed) (h : t.find? q ≠ none) : t.Room q where
  parent hne := by
    rw [← List.dropLast_concat_getLast hne] at h
    exact ht.parent _ _ h
  names := ht.names q h
  short := ht.short q h

private theorem WellFormed.room_of_follow (ht : t.WellFormed) {parts : List String}
    (hnames : ∀ s ∈ parts, s = ".." ∨ Path.IsName s) (hnull : ∀ s ∈ parts, '\x00' ∉ s.toList)
    (hplace : t.Room place) (h : t.follow path place parts = .ok q) : t.Room q := by
  induction parts generalizing place with
  | nil =>
    cases h
    exact hplace
  | cons part rest ih =>
    rw [follow] at h
    split at h
    · cases h
    · cases h
    · next hdirectory =>
      split at h
      · cases h
      · next hshort =>
        refine ih (fun s hs => hnames s (List.mem_cons_of_mem _ hs))
          (fun s hs => hnull s (List.mem_cons_of_mem _ hs)) ?_ h
        rw [Path.descend]
        split
        · refine ht.room ?_
          by_cases hne : place = []
          · simp [hne, ht.top]
          · simp [hplace.parent hne]
        · next hdown =>
          have hname := (hnames part (List.mem_cons_self ..)).resolve_left hdown
          refine ⟨fun _ => by rwa [List.dropLast_concat], fun s hs => ?_, fun s hs => ?_⟩ <;>
            rcases List.mem_append.1 hs with hs | hs
          · exact hplace.names s hs
          · obtain rfl := List.mem_singleton.1 hs
            exact ⟨hname, hnull s (List.mem_cons_self ..)⟩
          · exact hplace.short s hs
          · obtain rfl := List.mem_singleton.1 hs
            exact Nat.not_lt.1 hshort

/-- Something can be wherever a path from the top leads. -/
theorem WellFormed.room_of_locate (ht : t.WellFormed) (hp : path.Rooted)
    (hnull : path.hasNull = false) (h : t.locate cwd path = .ok q) : t.Room q := by
  have hknown : ∀ s ∈ path.parts, '\x00' ∉ s.toList := by
    simpa [Path.hasNull, List.any_eq_false] using hnull
  unfold locate at h
  split at h
  · cases h
  · rw [if_pos hp.absolute] at h
    exact ht.room_of_follow hp.names hknown ⟨fun he => absurd rfl he, nofun, nofun⟩ h

/-- Something comes to a place, instead of nothing or of a file. -/
theorem WellFormed.put (ht : t.WellFormed) (hroom : t.Room place)
    (hfree : t.find? place ≠ some .directory ∨ n = .directory) : (t.put place n).WellFormed := by
  have hdirectory : ∀ p, t.find? p = some .directory →
      (t.put place n).find? p = some .directory := by
    intro p hp
    rw [find?_put]
    split
    · next he =>
      subst he
      rcases hfree with hfree | rfl
      · exact absurd hp hfree
      · rfl
    · exact hp
  have hfound : ∀ p, (t.put place n).find? p ≠ none → p = place ∨ t.find? p ≠ none := by
    intro p hp
    rw [find?_put] at hp
    split at hp
    · next he => exact .inl he.symm
    · exact .inr hp
  refine ⟨hdirectory _ ht.top, fun p name hname => hdirectory p ?_, fun p hp => ?_,
    fun p hp => ?_⟩
  · rcases hfound _ hname with rfl | hname
    · simpa using hroom.parent (by simp)
    · exact ht.parent p name hname
  · rcases hfound p hp with rfl | hp
    exacts [hroom.names, ht.names p hp]
  · rcases hfound p hp with rfl | hp
    exacts [hroom.short, ht.short p hp]

theorem WellFormed.congr (ht : t.WellFormed) (h : ∀ q, t'.find? q = t.find? q) :
    t'.WellFormed := by
  obtain ⟨htop, hparent, hnames, hshort⟩ := ht
  refine ⟨?_, fun p name => ?_, fun p => ?_, fun p => ?_⟩
  · rw [h, htop]
  · rw [h, h]
    exact hparent p name
  · rw [h]
    exact hnames p
  · rw [h]
    exact hshort p

/-- Something goes that nothing lies below. -/
theorem WellFormed.cut (ht : t.WellFormed) (hne : place ≠ [])
    (hbelow : ∀ name, t.find? (place ++ [name]) = none) : (t.cut place).WellFormed := by
  have hfound : ∀ p, (t.cut place).find? p ≠ none → t.find? p ≠ none := by
    intro p hp
    rw [find?_cut] at hp
    split at hp
    · exact absurd rfl hp
    · exact hp
  refine ⟨?_, fun p name hname => ?_, fun p hp => ht.names p (hfound p hp),
    fun p hp => ht.short p (hfound p hp)⟩
  · rw [find?_cut, if_neg hne, ht.top]
  · have hold := hfound _ hname
    rw [find?_cut, if_neg]
    · exact ht.parent p name hold
    · rintro rfl
      exact hold (hbelow name)

theorem WellFormed.write (ht : t.WellFormed) (hp : path.Rooted) (hnull : path.hasNull = false)
    (h : t.write cwd path s = .ok t') : t'.WellFormed := by
  obtain ⟨place, hplace, hfree, rfl⟩ := write_eq_ok_iff.1 h
  exact ht.put (ht.room_of_locate hp hnull hplace) (.inl hfree)

theorem WellFormed.ensureDirectory (ht : t.WellFormed) (hp : path.Rooted)
    (hnull : path.hasNull = false)
    (h : t.ensureDirectory cwd path = .ok t') : t'.WellFormed := by
  obtain ⟨place, hplace, ⟨-, rfl⟩ | ⟨hnone, rfl⟩⟩ := ensureDirectory_eq_ok_iff.1 h
  · exact ht
  · exact ht.put (ht.room_of_locate hp hnull hplace) (.inr rfl)

theorem hasNull_parent (hnull : path.hasNull = false) : path.parent.hasNull = false := by
  simp only [Path.hasNull, Path.parent, List.any_eq_false] at hnull ⊢
  exact fun s hs => hnull s (List.dropLast_subset _ hs)

theorem WellFormed.makeDirectory (ht : t.WellFormed) (hp : path.Rooted)
    (hnull : path.hasNull = false) : (t.makeDirectory cwd path).1.WellFormed := by
  fun_induction FileTree.makeDirectory t cwd path with
  | case1 path t' h => exact ht.ensureDirectory hp hnull h
  | case2 path p h hparts => exact ht
  | case3 path p h hparts t' fault hparent ih =>
    rw [hparent] at ih
    exact ih hp.parent (hasNull_parent hnull)
  | case4 path p h hparts t' hparent t'' h' ih =>
    rw [hparent] at ih
    exact (ih hp.parent (hasNull_parent hnull)).ensureDirectory hp hnull h'
  | case5 path p h hparts t' hparent fault h' ih =>
    rw [hparent] at ih
    exact ih hp.parent (hasNull_parent hnull)
  | case6 path fault h hfault => exact ht

/-- Where a file was removed by a straight path, nothing is left; elsewhere nothing changes. -/
theorem remove_ok (ht : t.WellFormed) (hp : path.Straight) (h : t.remove cwd path = .ok t') :
    t.find? path.parts ≠ some .directory ∧
      ∀ q, t'.find? q = if path.parts = q then none else t.find? q := by
  unfold remove at h
  split at h
  · next hlocate =>
    cases h
    have hnone := find?_of_locate_error ht hp hlocate (by simp)
    refine ⟨by simp [hnone], fun q => ?_⟩
    split
    · next he => rw [← he, hnone]
    · rfl
  · cases h
  · next place hlocate =>
    obtain ⟨rfl, -⟩ := locate_straight hp hlocate
    split at h
    · cases h
    · next hfree =>
      cases h
      exact ⟨mt isDirectory_iff.2 hfree, fun q => find?_cut⟩

theorem WellFormed.remove (ht : t.WellFormed) (hp : path.Straight)
    (h : t.remove cwd path = .ok t') : t'.WellFormed := by
  obtain ⟨hfree, hfind⟩ := remove_ok ht hp h
  have hne : path.parts ≠ [] := fun he => hfree (he ▸ ht.top)
  have hbelow : ∀ name, t.find? (path.parts ++ [name]) = none := fun name =>
    ht.below hfree (List.prefix_append _ _) (by simp)
  refine (ht.cut hne hbelow).congr fun q => ?_
  rw [hfind q, find?_cut]

/-- A straight path leads the way a directory is made on: through places above it. -/
theorem Extends.straight (h : Extends cwd path t t') (hp : path.Straight) (q : List String) :
    t'.find? q = t.find? q ∨
      t.find? q = none ∧ t'.find? q = some .directory ∧ q <+: path.parts := by
  rcases h q with hsame | ⟨hnone, hdirectory, n, hn⟩
  · exact .inl hsame
  · refine .inr ⟨hnone, hdirectory, ?_⟩
    rw [hn, (hp.take n).fold]
    exact List.take_prefix _ _

/-- Where a directory was made, everything above is one. -/
theorem directories_of_makeDirectory (hp : path.Straight)
    (h : t.makeDirectory cwd path = (t', none)) (hq : q <+: path.parts) :
    t'.find? q = some .directory := by
  obtain ⟨place, hplace, hdirectory⟩ := directory_of_makeDirectory h
  obtain ⟨rfl, habove, -⟩ := locate_straight hp hplace
  by_cases he : q = path.parts
  · rw [he, hdirectory]
  · exact habove q hq he

end FileTree
end Introspect
