import Introspect.FileTree.Pattern
import Introspect.Proofs.FileTree.Sweep
import Introspect.Proofs.GeneratedPath

/-! Which paths a pattern selects in a file tree. -/
namespace Introspect

section
variable {ε α β : Type} {l : List α}

private theorem mem_filterAuxM_ok {f : α → Except ε Bool} {kept m : List α}
    (h : l.filterAuxM f kept = .ok m) {a : α} :
    a ∈ m ↔ a ∈ kept ∨ a ∈ l ∧ f a = .ok true := by
  induction l generalizing kept m with
  | nil =>
    cases h
    simp
  | cons a' l ih =>
    rw [List.filterAuxM, bind_eq_ok_iff] at h
    obtain ⟨b, hb, h⟩ := h
    rw [ih h]
    have hhead : a ∈ cond b (a' :: kept) kept ↔ a ∈ kept ∨ a = a' ∧ f a = .ok true := by
      constructor
      · intro ha
        cases b with
        | true =>
          rcases List.mem_cons.1 ha with rfl | ha
          · exact .inr ⟨rfl, hb⟩
          · exact .inl ha
        | false => exact .inl ha
      · rintro (ha | ⟨rfl, htrue⟩)
        · cases b with
          | true => exact List.mem_cons_of_mem _ ha
          | false => exact ha
        · obtain rfl : b = true := Except.ok.inj (hb.symm.trans htrue)
          exact List.mem_cons_self ..
    rw [hhead, List.mem_cons, or_and_right, or_assoc]

theorem mem_filterM_ok {f : α → Except ε Bool} {m : List α} (h : l.filterM f = .ok m) {a : α} :
    a ∈ m ↔ a ∈ l ∧ f a = .ok true := by
  rw [List.filterM, bind_eq_ok_iff] at h
  obtain ⟨kept, hkept, h⟩ := h
  cases h
  simp [mem_filterAuxM_ok hkept]

end

namespace FileTree
variable {t t' : FileTree} {cwd place rest : List String} {path p q r : Path}
  {part : PathPattern.Part} {parts : List PathPattern.Part} {directoriesOnly : Bool}
  {test : Node → Bool}

/-- A component of a pattern offers a path below one, which need not be there when the component
is a name. -/
def Offers (t : FileTree) (cwd : List String) (part : PathPattern.Part) (p q : Path) : Prop :=
  match part with
  | .depths => ∃ place rest, t.locate cwd p = .ok place ∧
      t.find? (place ++ rest) = some .directory ∧ q = p.onward rest
  | .like pattern => ∃ place name, t.locate cwd p = .ok place ∧
      t.find? (place ++ [name]) ≠ none ∧ Text.fits pattern name = true ∧ q = p.onward [name]
  | .named name => q = p.onward [name]

/-- What a path leads to has to be a directory when the pattern says so or goes on. -/
def wanted (directoriesOnly : Bool) (rest : List PathPattern.Part) : Node → Bool :=
  if directoriesOnly || !rest.isEmpty then (· == .directory) else fun _ => true

/-- A pattern leads from one path to another, through paths that are there. -/
def Selects (t : FileTree) (cwd : List String) (directoriesOnly : Bool) :
    List PathPattern.Part → Path → Path → Prop
  | [], p, q => q = p
  | part :: rest, p, q => ∃ r, t.Offers cwd part p r ∧
      t.isThere (wanted directoriesOnly rest) cwd r = .ok true ∧
      Selects t cwd directoriesOnly rest r q

private theorem mem_directories_iff {l : List Path} (h : t.directories cwd p = .ok l) :
    q ∈ l ↔ t.Offers cwd .depths p q := by
  rw [directories, bind_eq_ok_iff] at h
  obtain ⟨place, hplace, h⟩ := h
  cases h
  simp only [List.mem_map, List.mem_filter, Table.mem_keys_iff, Bool.and_eq_true,
    List.isPrefixOf_iff_prefix, isDirectory_iff, Offers, hplace]
  constructor
  · rintro ⟨_, ⟨-, ⟨rest, rfl⟩, hd⟩, rfl⟩
    exact ⟨place, rest, rfl, hd, by simp [Path.onward]⟩
  · rintro ⟨_, rest, ⟨⟩, hd, rfl⟩
    refine ⟨place ++ rest, ⟨?_, List.prefix_append _ _, hd⟩, by simp [Path.onward]⟩
    exact fun hnone => by cases hnone.symm.trans hd

private theorem mem_entries_iff {l : List Path} {pattern : String} (h : t.entries cwd p = .ok l) :
    q ∈ l.filter (fun q => Text.fits pattern q.name) ↔ t.Offers cwd (.like pattern) p q := by
  rw [entries, bind_eq_ok_iff] at h
  obtain ⟨place, hplace, h⟩ := h
  cases h
  simp only [List.mem_map, List.mem_filter, Table.mem_keys_iff, decide_eq_true_eq, Offers, hplace,
    Bool.and_eq_true, decide_not, Bool.not_eq_true', decide_eq_false_iff_not]
  constructor
  · rintro ⟨⟨k, ⟨hfound, hk, hne⟩, rfl⟩, hfits⟩
    obtain ⟨front, name, rfl⟩ : ∃ front name, k = front ++ [name] :=
      ⟨k.dropLast, k.getLast hne, (List.dropLast_concat_getLast hne).symm⟩
    rw [List.dropLast_concat] at hk
    subst hk
    exact ⟨front, name, rfl, hfound, by simpa [Path.name] using hfits, by simp [Path.onward]⟩
  · rintro ⟨_, name, ⟨⟩, hfound, hfits, rfl⟩
    refine ⟨⟨place ++ [name], ⟨hfound, by simp, by simp⟩, by simp [Path.onward]⟩, ?_⟩
    simpa [Path.name, Path.onward] using hfits

/-- The paths that a component of a pattern offers. -/
private def offered (t : FileTree) (cwd : List String) (part : PathPattern.Part) (p : Path) :
    Except SystemFault (List Path) :=
  match part with
  | .depths => t.directories cwd p
  | .like pattern => (t.entries cwd p).map (·.filter fun q => Text.fits pattern q.name)
  | .named name => .ok [p.onward [name]]

private theorem selectFrom_cons (t : FileTree) (cwd : List String) (directoriesOnly : Bool)
    (part : PathPattern.Part) (parts : List PathPattern.Part) (p : Path) :
    t.selectFrom cwd directoriesOnly (part :: parts) p = (do
      let found ← t.offered cwd part p
      let there ← found.filterM (t.isThere (wanted directoriesOnly parts) cwd)
      return (← there.mapM (t.selectFrom cwd directoriesOnly parts)).flatten) := by
  cases part <;> rfl

private theorem mem_offered_iff {l : List Path} (h : t.offered cwd part p = .ok l) :
    q ∈ l ↔ t.Offers cwd part p q := by
  cases part with
  | depths => exact mem_directories_iff h
  | like pattern =>
    unfold offered at h
    cases hentries : t.entries cwd p with
    | error e =>
      rw [hentries] at h
      cases h
    | ok entries =>
      rw [hentries] at h
      cases h
      exact mem_entries_iff hentries
  | named name =>
    cases h
    simp [Offers]

/-- What a pattern finds from a path on is what it leads to. -/
theorem mem_selectFrom_iff {l : List Path} (h : t.selectFrom cwd directoriesOnly parts p = .ok l) :
    q ∈ l ↔ t.Selects cwd directoriesOnly parts p q := by
  induction parts generalizing p l with
  | nil =>
    cases h
    simp [Selects]
  | cons part rest ih =>
    rw [selectFrom_cons, bind_eq_ok_iff] at h
    obtain ⟨found, hfound, h⟩ := h
    obtain ⟨there, hthere, h⟩ := bind_eq_ok_iff.1 h
    obtain ⟨lists, hlists, h⟩ := bind_eq_ok_iff.1 h
    cases h
    have hthere' : ∀ r, r ∈ there ↔
        t.Offers cwd part p r ∧ t.isThere (wanted directoriesOnly rest) cwd r = .ok true := by
      intro r
      rw [mem_filterM_ok hthere, mem_offered_iff hfound]
    rw [List.mem_flatten, Selects]
    constructor
    · rintro ⟨m, hm, hq⟩
      obtain ⟨r, hr, hrest⟩ := (mem_mapM_ok hlists).1 hm
      obtain ⟨hoffer, hthere⟩ := (hthere' r).1 hr
      exact ⟨r, hoffer, hthere, (ih hrest).1 hq⟩
    · rintro ⟨r, hoffer, hthere, hselects⟩
      have hr := (hthere' r).2 ⟨hoffer, hthere⟩
      obtain ⟨m, hm⟩ := exists_of_mapM_ok hlists hr
      exact ⟨m, (mem_mapM_ok hlists).2 ⟨r, hr, hm⟩, (ih hm).2 hselects⟩

theorem mem_select_iff {pattern : PathPattern} {l : List Path}
    (h : t.select cwd p pattern = .ok l) :
    q ∈ l ↔ t.Selects cwd pattern.directoriesOnly (.depths :: pattern.parts) p q := by
  rw [select, bind_eq_ok_iff] at h
  obtain ⟨l', hl', h⟩ := h
  cases h
  rw [List.mem_eraseDups, mem_selectFrom_iff hl']

/-! ## What is there -/

theorem isThere_eq_true_iff : t.isThere test cwd p = .ok true ↔
    ∃ place n, t.locate cwd p = .ok place ∧ t.find? place = some n ∧ test n = true := by
  refine ⟨find?_of_isThere_true, ?_⟩
  rintro ⟨place, n, hplace, hn, htest⟩
  rw [isThere, lookUp, hplace, ok_bind, hn]
  exact congrArg _ htest

private theorem names_of_follow (ht : t.WellFormed) {names : List String} {place' : List String}
    (h : t.follow path place names = .ok place') (hfound : t.find? place' ≠ none) :
    ∀ s ∈ names, s = ".." ∨ Path.IsName s ∧ '\x00' ∉ s.toList := by
  induction names generalizing place with
  | nil => simp
  | cons name names ih =>
    rw [follow] at h
    split at h
    · cases h
    · cases h
    · split at h
      · cases h
      · have hnext : t.find? (Path.descend place name) ≠ none := by
          cases names with
          | nil =>
            cases h
            exact hfound
          | cons name' names =>
            intro hnone
            rw [follow, hnone] at h
            cases h
        intro s hs
        rcases List.mem_cons.1 hs with rfl | hs
        · by_cases hup : s = ".."
          · exact .inl hup
          · rw [Path.descend, if_neg hup] at hnext
            exact .inr (ht.names _ hnext s (by simp))
        · exact ih h s hs

/-- Where something is there, every component of the path to it is a name that the system knows or
leads back up. -/
theorem names_of_isThere (ht : t.WellFormed) (h : t.isThere test cwd p = .ok true) :
    ∀ s ∈ p.parts, s = ".." ∨ Path.IsName s ∧ '\x00' ∉ s.toList := by
  obtain ⟨place, n, hplace, hn, -⟩ := isThere_eq_true_iff.1 h
  unfold locate at hplace
  split at hplace
  · cases hplace
  · exact names_of_follow ht hplace (by simp [hn])

theorem clean_of_isThere (ht : t.WellFormed) (h : t.isThere test cwd p = .ok true) : p.Clean :=
  fun s hs => (names_of_isThere ht h s hs).imp_right And.left

theorem hasNull_of_isThere (ht : t.WellFormed) (h : t.isThere test cwd p = .ok true) :
    p.hasNull = false := by
  rw [Path.hasNull, List.any_eq_false]
  intro s hs
  rcases names_of_isThere ht h s hs with rfl | ⟨-, hnull⟩
  · decide
  · simpa using hnull

theorem directory_of_isThere (h : t.isThere (· == .directory) cwd p = .ok true) :
    t.locate cwd p = .ok (p.fold cwd) ∧ t.find? (p.fold cwd) = some .directory := by
  obtain ⟨place, n, hplace, hn, hdirectory⟩ := isThere_eq_true_iff.1 h
  obtain rfl := locate_ok hplace
  obtain rfl : n = .directory := by simpa using hdirectory
  exact ⟨hplace, hn⟩

private theorem follow_present (ht : t.WellFormed) {rest : List String}
    (hfound : t.find? (place ++ rest) ≠ none) : t.follow p place rest = .ok (place ++ rest) := by
  induction rest generalizing place with
  | nil => rw [follow, List.append_nil]
  | cons name rest ih =>
    have hdirectory := ht.above hfound (List.prefix_append _ _) (by simp)
    have hname := (ht.names _ hfound name (by simp)).1
    have hshort := ht.short _ hfound name (by simp)
    have happend : place ++ name :: rest = place ++ [name] ++ rest := by simp
    rw [happend] at hfound ⊢
    rw [follow, hdirectory]
    simp only [Nat.not_lt.2 hshort, if_false, Path.descend, hname.up]
    exact ih hfound

/-- To what is there below a directory, a path through the directory leads, unless it is too long. -/
theorem locate_beneath (ht : t.WellFormed) (h : t.isThere (· == .directory) cwd p = .ok true)
    {rest : List String} (hfound : t.find? (p.fold cwd ++ rest) ≠ none) :
    t.locate cwd { p with parts := p.parts ++ rest } =
      if pathLimit < ({ p with parts := p.parts ++ rest } : Path).toString.utf8ByteSize then
        .error (.nameTooLong { p with parts := p.parts ++ rest })
      else .ok (p.fold cwd ++ rest) := by
  have hlocate := (directory_of_isThere h).1
  unfold locate at hlocate ⊢
  split at hlocate
  · cases hlocate
  · refine if_congr Iff.rfl rfl ?_
    have hanchor : ({ p with parts := p.parts ++ rest } : Path).isAbsolute = p.isAbsolute := rfl
    rw [hanchor, follow_append hlocate, follow_present ht hfound]

/-- What a pattern leads to is there. -/
theorem Selects.isThere (h : t.Selects cwd directoriesOnly (part :: parts) p q) :
    t.isThere (wanted directoriesOnly []) cwd q = .ok true := by
  induction parts generalizing part p with
  | nil =>
    obtain ⟨r, -, hthere, rfl⟩ := h
    exact hthere
  | cons part' parts ih =>
    obtain ⟨r, -, -, h⟩ := h
    exact ih h

theorem Selects.anchor (h : t.Selects cwd directoriesOnly parts p q) : q.anchor = p.anchor := by
  induction parts generalizing p with
  | nil => rw [h]
  | cons part parts ih =>
    obtain ⟨r, hoffer, -, h⟩ := h
    rw [ih h]
    cases part with
    | depths =>
      obtain ⟨place, rest, -, -, rfl⟩ := hoffer
      rfl
    | like pattern =>
      obtain ⟨place, name, -, -, -, rfl⟩ := hoffer
      rfl
    | named name =>
      rw [hoffer]
      rfl

/-! ## Trees with more in them -/

/-- A path that is selected is still selected when all directories stay, and it itself. -/
theorem Selects.mono (ht : t.WellFormed)
    (hdirectories : ∀ k, t.find? k = some .directory → t'.find? k = some .directory)
    (hq : ∀ n, t.find? (q.fold cwd) = some n → t'.find? (q.fold cwd) = some n)
    (h : t.Selects cwd directoriesOnly parts p q) : t'.Selects cwd directoriesOnly parts p q := by
  induction parts generalizing p with
  | nil => exact h
  | cons part rest ih =>
    obtain ⟨r, hoffer, hthere, h⟩ := h
    obtain ⟨k, n, hk, hn, htest⟩ := isThere_eq_true_iff.1 hthere
    have hfold : k = r.fold cwd := locate_ok hk
    have hkept : t'.find? k = some n := by
      cases rest with
      | nil =>
        obtain rfl : q = r := h
        rw [hfold] at hn ⊢
        exact hq n hn
      | cons part' rest =>
        obtain rfl : n = .directory := by simpa [wanted] using htest
        exact hdirectories k hn
    have hthere' := isThere_eq_true_iff.2 ⟨k, n, locate_mono hdirectories hk, hkept, htest⟩
    refine ⟨r, ?_, hthere', ih h⟩
    cases part with
    | depths =>
      obtain ⟨place, down, hplace, hd, hr⟩ := hoffer
      exact ⟨place, down, locate_mono hdirectories hplace, hdirectories _ hd, hr⟩
    | like pattern =>
      obtain ⟨place, name, hplace, hname, hfits, rfl⟩ := hoffer
      refine ⟨place, name, locate_mono hdirectories hplace, ?_, hfits, rfl⟩
      have hup : name ≠ ".." := (ht.names _ hname name (by simp)).1.up
      rw [Path.fold_onward cwd p hup, ← locate_ok hplace] at hfold
      rw [← hfold, hkept]
      simp
    | named name => exact hoffer

/-! ## Patterns that lead down -/

private theorem follow_congr {names : List String} (hdown : ".." ∉ names)
    (h : ∀ k, place <+: k → k <+: place ++ names → t'.find? k = t.find? k) :
    t'.follow path place names = t.follow path place names := by
  induction names generalizing place with
  | nil => rfl
  | cons name names ih =>
    obtain ⟨hup, hdown⟩ := not_or.1 (mt List.mem_cons.2 hdown)
    rw [follow, follow, h place (List.prefix_refl _) (List.prefix_append _ _)]
    split
    · rfl
    · rfl
    · split
      · rfl
      · rw [Path.descend, if_neg (Ne.symm hup)]
        refine ih hdown fun k hk hk' => h k ((List.prefix_append _ _).trans hk) ?_
        rwa [List.append_assoc, List.singleton_append] at hk'

/-- A straight path leads where it does because of what is on the way. -/
theorem locate_congr (hp : path.Straight) (h : ∀ k, k <+: path.parts → t'.find? k = t.find? k) :
    t'.locate cwd path = t.locate cwd path := by
  have habsolute : path.isAbsolute = true := by simp [Path.isAbsolute, hp.anchor]
  have hfollow : t'.follow path [] path.parts = t.follow path [] path.parts :=
    follow_congr hp.down fun k _ hk => h k (by simpa using hk)
  rw [locate, locate, habsolute, if_pos rfl, hfollow]

theorem isThere_congr (hp : path.Straight) (h : ∀ k, k <+: path.parts → t'.find? k = t.find? k) :
    t'.isThere test cwd path = .ok true ↔ t.isThere test cwd path = .ok true := by
  rw [isThere_eq_true_iff, isThere_eq_true_iff, locate_congr hp h]
  refine exists_congr fun place => exists_congr fun n => and_congr_right fun hplace => ?_
  rw [(locate_straight hp hplace).1, h _ (List.prefix_refl _)]

/-- What a component that does not lead up offers lies straight below. -/
private theorem Offers.onward (ht : t.WellFormed) (hdown : part ≠ .named "..")
    (h : t.Offers cwd part p r) : ∃ rest, r = p.onward rest ∧ ".." ∉ rest := by
  have hnames : ∀ {k : List String}, t.find? k ≠ none → ".." ∉ k := fun hk hup =>
    (ht.names _ hk _ hup).1.up rfl
  cases part with
  | depths =>
    obtain ⟨place, rest, -, hd, hr⟩ := h
    have hfound : t.find? (place ++ rest) ≠ none := by simp [hd]
    exact ⟨rest, hr, fun hup => hnames hfound (List.mem_append_right _ hup)⟩
  | like pattern =>
    obtain ⟨place, name, -, hname, -, hr⟩ := h
    exact ⟨[name], hr, fun hup => hnames hname (List.mem_append_right _ hup)⟩
  | named name =>
    exact ⟨[name], h, fun hup => hdown (by rw [List.mem_singleton.1 hup])⟩

private theorem Offers.straight (ht : t.WellFormed) (hp : p.Straight) (hdown : part ≠ .named "..")
    (h : t.Offers cwd part p r) (hthere : t.isThere test cwd r = .ok true) :
    r.Straight ∧ p.parts <+: r.parts := by
  obtain ⟨rest, rfl, hrest⟩ := h.onward ht hdown
  refine ⟨⟨hp.anchor, fun name hname => ?_⟩, List.prefix_append _ _⟩
  rcases clean_of_isThere ht hthere name hname with rfl | hname'
  · exact ((List.mem_append.1 hname).elim hp.down hrest).elim
  · exact hname'

/-- A pattern that does not lead up leads straight down. -/
theorem Selects.straight (ht : t.WellFormed) (hp : p.Straight) (hdown : .named ".." ∉ parts)
    (h : t.Selects cwd directoriesOnly parts p q) : q.Straight ∧ p.parts <+: q.parts := by
  induction parts generalizing p with
  | nil =>
    rw [h]
    exact ⟨hp, List.prefix_refl _⟩
  | cons part rest ih =>
    obtain ⟨r, hoffer, hthere, h⟩ := h
    obtain ⟨hpart, hrest⟩ := not_or.1 (mt List.mem_cons.2 hdown)
    obtain ⟨hr, hpr⟩ := hoffer.straight ht hp (Ne.symm hpart) hthere
    obtain ⟨hq, hrq⟩ := ih hr hrest h
    exact ⟨hq, hpr.trans hrq⟩

/-- A pattern that does not lead up selects a path because of what is on the way. -/
theorem Selects.congr (ht : t.WellFormed) (hp : p.Straight) (hdown : .named ".." ∉ parts)
    (hq : ∀ k, k <+: q.parts → t'.find? k = t.find? k)
    (h : t.Selects cwd directoriesOnly parts p q) : t'.Selects cwd directoriesOnly parts p q := by
  induction parts generalizing p with
  | nil => exact h
  | cons part rest ih =>
    obtain ⟨r, hoffer, hthere, h⟩ := h
    obtain ⟨hpart, hrest⟩ := not_or.1 (mt List.mem_cons.2 hdown)
    obtain ⟨hr, hpr⟩ := hoffer.straight ht hp (Ne.symm hpart) hthere
    have hrq := (h.straight ht hr hrest).2
    have hr' : ∀ k, k <+: r.parts → t'.find? k = t.find? k := fun k hk => hq k (hk.trans hrq)
    have hp' : ∀ k, k <+: p.parts → t'.find? k = t.find? k := fun k hk => hr' k (hk.trans hpr)
    refine ⟨r, ?_, (isThere_congr hr hr').2 hthere, ih hr hrest h⟩
    cases part with
    | depths =>
      obtain ⟨place, down, hplace, hd, rfl⟩ := hoffer
      refine ⟨place, down, (locate_congr hp hp').trans hplace, ?_, rfl⟩
      rw [hr', hd]
      rw [(locate_straight hp hplace).1]
      exact List.prefix_refl _
    | like pattern =>
      obtain ⟨place, name, hplace, hname, hfits, rfl⟩ := hoffer
      refine ⟨place, name, (locate_congr hp hp').trans hplace, ?_, hfits, rfl⟩
      rw [hr']
      · exact hname
      · rw [(locate_straight hp hplace).1]
        exact List.prefix_refl _
    | named name => exact hoffer

/-- A pattern with a component for the entries of a directory leads further down. -/
theorem Selects.below (ht : t.WellFormed) (hp : p.Straight) (hdown : .named ".." ∉ parts)
    {pattern : String} (hlike : .like pattern ∈ parts)
    (h : t.Selects cwd directoriesOnly parts p q) : Below p.parts q.parts := by
  induction parts generalizing p with
  | nil => cases hlike
  | cons part rest ih =>
    obtain ⟨r, hoffer, hthere, h⟩ := h
    obtain ⟨hpart, hrest⟩ := not_or.1 (mt List.mem_cons.2 hdown)
    obtain ⟨hr, hpr⟩ := hoffer.straight ht hp (Ne.symm hpart) hthere
    have hrq := (h.straight ht hr hrest).2
    refine ⟨hpr.trans hrq, fun he => ?_⟩
    rcases List.mem_cons.1 hlike with rfl | hlike
    · obtain ⟨place, name, -, -, -, rfl⟩ := hoffer
      have hle := hrq.length_le
      rw [← he] at hle
      simp only [Path.onward, List.length_append, List.length_singleton] at hle
      omega
    · have hlt := (ih hr hrest hlike h).length_lt
      have hle := hpr.length_le
      rw [he] at hle
      omega

end FileTree

/-! ## Patterns as text -/

namespace PathPattern
variable {s e : String} {pattern : PathPattern}

private theorem exists_of_mapM {α β : Type} {f : α → Option β} {l : List α} {m : List β}
    (h : l.mapM f = some m) :
    (∀ b ∈ m, ∃ a ∈ l, f a = some b) ∧ ∀ a ∈ l, ∃ b ∈ m, f a = some b := by
  induction l generalizing m with
  | nil =>
    cases h
    exact ⟨nofun, nofun⟩
  | cons a l ih =>
    rw [List.mapM_cons] at h
    obtain ⟨b, hb, h⟩ := Option.bind_eq_some_iff.1 h
    obtain ⟨bs, hbs, h⟩ := Option.bind_eq_some_iff.1 h
    cases h
    obtain ⟨hfrom, hto⟩ := ih hbs
    constructor
    · intro c hc
      rcases List.mem_cons.1 hc with rfl | hc
      · exact ⟨a, List.mem_cons_self .., hb⟩
      · obtain ⟨a', ha', he⟩ := hfrom c hc
        exact ⟨a', List.mem_cons_of_mem _ ha', he⟩
    · intro a' ha'
      rcases List.mem_cons.1 ha' with rfl | ha'
      · exact ⟨b, List.mem_cons_self .., hb⟩
      · obtain ⟨c, hc, he⟩ := hto a' ha'
        exact ⟨c, List.mem_cons_of_mem _ hc, he⟩

private theorem mapM_of_ofString? (h : ofString? s = some pattern) :
    (Path.ofString s).parts.mapM Part.ofString? = some pattern.parts := by
  unfold ofString? at h
  obtain ⟨parts, hparts, h⟩ := Option.bind_eq_some_iff.1 h
  cases h
  exact hparts

theorem mem_of_named (h : ofString? s = some pattern) {name : String}
    (hname : .named name ∈ pattern.parts) : name ∈ (Path.ofString s).parts := by
  obtain ⟨part, hpart, he⟩ := (exists_of_mapM (mapM_of_ofString? h)).1 _ hname
  unfold Part.ofString? at he
  split at he
  · cases he
  · split at he
    · cases he
    · split at he
      · cases he
      · cases he
        exact hpart

/-- What is looked for by an extension that begins with a dot is an entry of some directory. -/
theorem exists_like (h : ofString? ("*" ++ e) = some pattern) (he : Text.startsWith "." e = true) :
    ∃ x, .like x ∈ pattern.parts := by
  obtain ⟨e', he'⟩ := Option.isSome_iff_exists.1 he
  obtain rfl := Text.afterPrefix?_eq_some_iff.1 he'
  obtain ⟨x, hx⟩ : ∃ x,
      String.ofList ('*' :: '.' :: x) ∈ (Path.ofString ("*" ++ ("." ++ e'))).parts := by
    obtain ⟨first, others, hfirst⟩ := List.exists_cons_of_ne_nil (List.splitOn_ne_nil '/' e'.toList)
    refine ⟨first, ?_⟩
    have hlist : ("*" ++ ("." ++ e')).toList = '*' :: '.' :: e'.toList := by simp
    have hpieces : ('*' :: '.' :: e'.toList).splitOn '/' = ('*' :: '.' :: first) :: others := by
      simp [List.splitOn_cons_eq_if_modifyHead, hfirst]
    have hkept : String.ofList ('*' :: '.' :: first) ≠ "" ∧
        String.ofList ('*' :: '.' :: first) ≠ "." := by
      constructor <;> exact fun h => by simpa using congrArg String.toList h
    rw [Path.ofString, Text.pieces, hlist, hpieces]
    exact List.mem_filter.2 ⟨by simp, by simpa using hkept⟩
  obtain ⟨part, hpart, hof⟩ := (exists_of_mapM (mapM_of_ofString? h)).2 _ hx
  have hmark : String.ofList ('*' :: '.' :: x) ≠ depthMark := fun h => by
    simpa [depthMark] using congrArg String.toList h
  have hwild : isWild (String.ofList ('*' :: '.' :: x)) = true := by simp [isWild]
  unfold Part.ofString? at hof
  rw [if_neg hmark, if_pos hwild] at hof
  split at hof
  · cases hof
  · cases hof
    exact ⟨_, hpart⟩

end PathPattern
end Introspect
