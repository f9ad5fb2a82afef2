import Mathlib.Data.List.Nodup
import Introspect.Proofs.Pass.Frame

/-! Passes over several files: what is there in the end does not depend on their order, nor on how
often a file is passed over. -/
namespace Introspect

/-- Source extensions begin with a dot, as in settings that were read, and do not lead up. -/
def Settings.Downward (s : Settings) : Prop :=
  ∀ e ∈ s.sourceExtensions, Text.startsWith "." e = true ∧ ".." ∉ (Path.ofString ("*" ++ e)).parts

namespace Pass
open FileTree Job

variable {s : Settings} {w w' v : Workspace} {cwd : List String} {T t t' t₁ t₂ t₃ : FileTree}
  {input header : Path} {hash : NameHash} {r : Registry} {q : List String} {text : String}

/-! ## Headers that lie below the module directory -/

theorem IsHeader.straight (hs : s.Resolved) (hdown : s.Downward) (ht : t.WellFormed)
    (h : IsHeader s cwd t header) :
    header.Straight ∧ Below s.moduleDirectory.parts header.parts := by
  obtain ⟨e, he, pattern, hpattern, hselects, -⟩ := h
  obtain ⟨hdot, hup⟩ := hdown e he
  have hnamed : PathPattern.Part.named ".." ∉ PathPattern.Part.depths :: pattern.parts := by
    simpa using fun h => hup (PathPattern.mem_of_named hpattern h)
  obtain ⟨x, hlike⟩ := PathPattern.exists_like hpattern hdot
  exact ⟨(hselects.straight ht hs.moduleDirectory hnamed).1,
    hselects.below ht hs.moduleDirectory hnamed (List.mem_cons_of_mem _ hlike)⟩

/-- What is at and above the header decides whether it is one. -/
theorem IsHeader.congr (hs : s.Resolved) (hdown : s.Downward) (ht : t.WellFormed)
    (houtput : s.outputDirectory.hasNull = false)
    (hsame : ∀ q, ¬ Below s.outputDirectory.parts q → t'.find? q = t.find? q)
    (h : IsHeader s cwd t header) : IsHeader s cwd t' header := by
  have hstraight := (h.straight hs hdown ht).1
  have hout := h.outside hs ht houtput
  rw [hstraight.fold] at hout
  obtain ⟨e, he, pattern, hpattern, hselects, hwithin⟩ := h
  have hnamed : PathPattern.Part.named ".." ∉ PathPattern.Part.depths :: pattern.parts := by
    simpa using fun h => (hdown e he).2 (PathPattern.mem_of_named hpattern h)
  refine ⟨e, he, pattern, hpattern,
    hselects.congr ht hs.moduleDirectory hnamed fun k hk => ?_, hwithin⟩
  exact hsame k fun hbelow => hout (hbelow.1.trans hk)

theorem below_headerPlace (hs : s.Resolved) (hcwd : ∀ s ∈ cwd, Path.IsName s)
    (hheader : header.Straight) (hinside : Below s.moduleDirectory.parts header.parts) :
    Below s.outputDirectory.parts (headerPlace s cwd header) := by
  rw [← hheader.fold cwd] at hinside
  obtain ⟨front, name, -, hplace⟩ := place_eq hs hcwd hheader.clean hinside
  rw [headerPlace, hplace _ slash_headerExtension length_headerExtension]
  exact ⟨List.prefix_append _ _, by simp⟩

/-! ## Trees that differ below the output directory only -/

/-- The tree has the output directory, and outside of it what another tree has. -/
structure Beside (s : Settings) (T t : FileTree) : Prop where
  output : ∀ q, q <+: s.outputDirectory.parts → t.find? q = some .directory
  other : ∀ q, ¬ q <+: s.outputDirectory.parts → ¬ s.outputDirectory.parts <+: q →
    t.find? q = T.find? q

theorem Beside.same (h : Beside s T t) (h' : Beside s T t')
    (hq : ¬ Below s.outputDirectory.parts q) : t'.find? q = t.find? q := by
  by_cases hprefix : q <+: s.outputDirectory.parts
  · rw [h.output q hprefix, h'.output q hprefix]
  · have hout : ¬ s.outputDirectory.parts <+: q := fun hout =>
      hq ⟨hout, fun he => hprefix (he ▸ List.prefix_refl _)⟩
    rw [h.other q hprefix hout, h'.other q hprefix hout]

theorem Beside.of_same (h : Beside s T t)
    (hsame : ∀ q, ¬ Below s.outputDirectory.parts q → t'.find? q = t.find? q) : Beside s T t' := by
  refine ⟨fun q hq => ?_, fun q hq hout => ?_⟩
  · rw [hsame q fun hbelow => hbelow.2 (hbelow.1.eq_of_length_le hq.length_le), h.output q hq]
  · rw [hsame q fun hbelow => hout hbelow.1, h.other q hq hout]

/-- Above a place below the output directory lies the output directory or what is above it. -/
theorem below_or_prefix {p : List String} (hp : Below s.outputDirectory.parts p) (hq : Below q p) :
    Below s.outputDirectory.parts q ∨ q <+: s.outputDirectory.parts := by
  rcases List.prefix_or_prefix_of_prefix hp.1 hq.1 with h | h
  · by_cases he : s.outputDirectory.parts = q
    · exact .inr (he ▸ List.prefix_refl _)
    · exact .inl ⟨h, he⟩
  · exact .inr h

/-- New directories above places below the output directory lie below it, too. -/
theorem same_of_grows {O P L : List String → Prop} (h : Grows O P L t t')
    (houtput : ∀ q, q <+: s.outputDirectory.parts → t.find? q = some .directory)
    (hO : ∀ q, O q → Below s.outputDirectory.parts q)
    (hP : ∀ q, P q → Below s.outputDirectory.parts q)
    (hL : ∀ q, L q → ∃ p, Below s.outputDirectory.parts p ∧ Below q p)
    (hq : ¬ Below s.outputDirectory.parts q) : t'.find? q = t.find? q := by
  rcases h q with hsame | hOq | ⟨hnone, ⟨-, hPq⟩ | ⟨-, hLq⟩⟩
  · exact hsame
  · exact absurd (hO q hOq) hq
  · exact absurd (hP q hPq) hq
  · obtain ⟨p, hp, hqp⟩ := hL q hLq
    rcases below_or_prefix hp hqp with hbelow | hprefix
    · exact absurd hbelow hq
    · rw [houtput q hprefix] at hnone
      cases hnone

theorem prefix_directory (ht : t.WellFormed)
    (houtput : t.find? s.outputDirectory.parts = some .directory)
    (hq : q <+: s.outputDirectory.parts) : t.find? q = some .directory := by
  by_cases he : q = s.outputDirectory.parts
  · rw [he, houtput]
  · exact ht.above (by simp [houtput]) hq he

theorem beside_cleared (hs : s.Resolved) (hcwd : ∀ s ∈ cwd, Path.IsName s)
    (hinput : IsSource s cwd input) (ht₁ : t₁.WellFormed) (hcleared : Cleared s cwd input t t₁)
    (hother : ∀ q, ¬ q <+: s.outputDirectory.parts → ¬ s.outputDirectory.parts <+: q →
      t.find? q = T.find? q) : Beside s T t₁ := by
  refine ⟨fun q => prefix_directory ht₁ hcleared.output, fun q hq hout => ?_⟩
  have hq' : q ∉ outputs s cwd input := fun hmem =>
    hout (below_of_mem_outputs hs hcwd hinput hmem).1
  rcases hcleared.other q hq' with hsame | ⟨-, -, hprefix⟩
  · rw [hsame, hother q hq hout]
  · exact absurd hprefix hq

/-! ## What passes come to -/

/-- The place is kept for the empty generated header of a header. No header has its generated
header below it. -/
structure Reserved (s : Settings) (cwd : List String) (t : FileTree) (q : List String) : Prop where
  header : ∃ header, IsHeader s cwd t header ∧ q = headerPlace s cwd header
  short : (q.getLast?.getD "").utf8ByteSize ≤ nameLimit
  lowest : ∀ header, IsHeader s cwd t header → ¬ Below q (headerPlace s cwd header)

/-- What passes over several files start from. The front end answers for each file in its own way;
`opened` has the output directory. -/
structure Scene where
  settings : Settings
  hash : NameHash
  cwd : List String
  frontEnd : Path → FrontEnd
  before : FileTree
  opened : FileTree

namespace Scene
variable {c : Scene} {S S' : List Path} {f : Path}

/-- No directory stands where a header has its generated header. -/
structure Sound (c : Scene) : Prop where
  resolved : c.settings.Resolved
  downward : c.settings.Downward
  cwd : ∀ s ∈ c.cwd, Path.IsName s ∧ '\x00' ∉ s.toList
  opened : c.opened.WellFormed
  beside : Beside c.settings c.before c.opened
  known : c.settings.outputDirectory.hasNull = false
  free : ∀ header, IsHeader c.settings c.cwd c.opened header →
    c.before.find? (headerPlace c.settings c.cwd header) ≠ some .directory

/-- The text was written for one of some files. -/
def Written (c : Scene) (S : List Path) (q : List String) (text : String) : Prop :=
  ∃ f ∈ S, ∃ r, Reflects c.settings c.hash c.cwd (c.frontEnd f).unit r ∧
    (q, text) ∈ files c.settings c.cwd (f.resolve c.cwd) r

/-- The place is an output of one of some files. -/
def Touched (c : Scene) (S : List Path) (q : List String) : Prop :=
  ∃ f ∈ S, q ∈ outputs c.settings c.cwd (f.resolve c.cwd)

/-- The text that has to be at a place after passes over some files, unless it is empty and not
kept: what was written last, or what was there before, or the placeholder of a header. -/
inductive Due (c : Scene) (S : List Path) (q : List String) (text : String) : Prop where
  | written (h : c.Written S q text)
  | old (untouched : ¬ c.Touched S q) (there : c.before.find? q = some (.file text))
  | placeholder (untouched : ¬ c.Touched S q) (nothing : c.before.find? q = none)
      (reserved : Reserved c.settings c.cwd c.opened q) (empty : text = "")

/-- Outputs of different files lie at different places. -/
def Distinct (c : Scene) (S : List Path) : Prop :=
  ∀ f ∈ S, ∀ g ∈ S, ∀ q ∈ outputs c.settings c.cwd (f.resolve c.cwd),
    q ∈ outputs c.settings c.cwd (g.resolve c.cwd) → f = g

/-- A tree as it may be before a pass, after passes over some files. -/
structure Between (c : Scene) (S : List Path) (t : FileTree) : Prop where
  wellFormed : t.WellFormed
  reflected : ∀ f ∈ S, ∃ r, Reflects c.settings c.hash c.cwd (c.frontEnd f).unit r
  other : ∀ q, ¬ q <+: c.settings.outputDirectory.parts →
    ¬ c.settings.outputDirectory.parts <+: q → t.find? q = c.before.find? q
  due : ∀ q, Below c.settings.outputDirectory.parts q → ∀ text,
    t.find? q = some (.file text) → c.Due S q text
  there : ∀ q, Below c.settings.outputDirectory.parts q → ∀ text, c.Due S q text →
    t.find? q = some (.file text) ∨ text = "" ∧
      (Expendable c.settings q ∨ Reserved c.settings c.cwd c.opened q)
  free : ∀ q, Reserved c.settings c.cwd c.opened q → t.find? q ≠ some .directory

/-- A tree as it is after passes over some files. -/
structure After (c : Scene) (S : List Path) (t : FileTree) : Prop where
  wellFormed : t.WellFormed
  reflected : ∀ f ∈ S, ∃ r, Reflects c.settings c.hash c.cwd (c.frontEnd f).unit r
  beside : Beside c.settings c.before t
  texts : ∀ q, Below c.settings.outputDirectory.parts q → ∀ text,
    t.find? q = some (.file text) ↔ c.Due S q text ∧ ¬ (text = "" ∧ Expendable c.settings q)
  directories : ∀ q, Below c.settings.outputDirectory.parts q →
    (t.find? q = some .directory ↔ ∃ p text, Below q p ∧ t.find? p = some (.file text))
  free : ∀ q, Reserved c.settings c.cwd c.opened q → t.find? q ≠ some .directory

theorem Written.unique (hc : c.Sound) (hS : c.Distinct S)
    (hclean : ∀ f ∈ S, (f.resolve c.cwd).Clean) {text text' : String} (h : c.Written S q text) (h' : c.Written S q text') : text = text' := by
  obtain ⟨f, hf, r, hr, hmem⟩ := h
  obtain ⟨g, hg, r', hr', hmem'⟩ := h'
  have hq := mem_places_files.1 (List.mem_map_of_mem hmem)
  have hq' := mem_places_files.1 (List.mem_map_of_mem hmem')
  have hfg := hS f hf g hg q hq hq'
  subst hfg
  have hrr := hr.unique hr'
  subst hrr
  have hnodup := nodup_places (s := c.settings) (fun s hs => (hc.cwd s hs).1) (hclean f hf) r
  exact congrArg Prod.snd (List.inj_on_of_nodup_map hnodup hmem hmem' rfl)

theorem Written.touched (h : c.Written S q text) : c.Touched S q := by
  obtain ⟨f, hf, r, -, hmem⟩ := h
  exact ⟨f, hf, mem_places_files.1 (List.mem_map_of_mem hmem)⟩

theorem Due.unique (hc : c.Sound) (hS : c.Distinct S) (hclean : ∀ f ∈ S, (f.resolve c.cwd).Clean)
    {text text' : String} (h : c.Due S q text) (h' : c.Due S q text') : text = text' := by
  cases h with
  | written h =>
    cases h' with
    | written h' => exact h.unique hc hS hclean h'
    | old untouched _ => exact absurd h.touched untouched
    | placeholder untouched _ _ _ => exact absurd h.touched untouched
  | old untouched there =>
    cases h' with
    | written h' => exact absurd h'.touched untouched
    | old _ there' =>
      rw [there] at there'
      cases there'
      rfl
    | placeholder _ nothing _ _ =>
      rw [there] at nothing
      cases nothing
  | placeholder untouched nothing _ empty =>
    cases h' with
    | written h' => exact absurd h'.touched untouched
    | old _ there' =>
      rw [there'] at nothing
      cases nothing
    | placeholder _ _ _ empty' => rw [empty, empty']

theorem Touched.append (h : c.Touched S q) : c.Touched (S ++ [f]) q := by
  obtain ⟨g, hg, hq⟩ := h
  exact ⟨g, List.mem_append_left _ hg, hq⟩

theorem Touched.of_append (hf : q ∉ outputs c.settings c.cwd (f.resolve c.cwd))
    (h : c.Touched (S ++ [f]) q) : c.Touched S q := by
  obtain ⟨g, hg, hq⟩ := h
  rcases List.mem_append.1 hg with hg | hg
  · exact ⟨g, hg, hq⟩
  · exact absurd (List.mem_singleton.1 hg ▸ hq) hf

/-- A pass over a file has no say in what is due anywhere else. -/
theorem Due.append (h : c.Due S q text) (hf : q ∉ outputs c.settings c.cwd (f.resolve c.cwd)) :
    c.Due (S ++ [f]) q text := by
  cases h with
  | written h =>
    obtain ⟨g, hg, written⟩ := h
    exact .written ⟨g, List.mem_append_left _ hg, written⟩
  | old untouched there => exact .old (fun h => untouched (h.of_append hf)) there
  | placeholder untouched nothing reserved empty =>
    exact .placeholder (fun h => untouched (h.of_append hf)) nothing reserved empty

theorem Due.of_append (h : c.Due (S ++ [f]) q text)
    (hf : q ∉ outputs c.settings c.cwd (f.resolve c.cwd)) : c.Due S q text := by
  cases h with
  | written h =>
    obtain ⟨g, hg, r, hr, hmem⟩ := h
    rcases List.mem_append.1 hg with hg | hg
    · exact .written ⟨g, hg, r, hr, hmem⟩
    · rw [List.mem_singleton.1 hg] at hmem
      exact absurd (mem_places_files.1 (List.mem_map_of_mem hmem)) hf
  | old untouched there => exact .old (fun h => untouched h.append) there
  | placeholder untouched nothing reserved empty =>
    exact .placeholder (fun h => untouched h.append) nothing reserved empty

/-- Some text is due wherever a placeholder belongs. -/
theorem Between.due_of_reserved (ht : c.Between S t) (hc : c.Sound)
    (hq : Reserved c.settings c.cwd c.opened q) : ∃ text, c.Due S q text := by
  by_cases htouched : c.Touched S q
  · obtain ⟨g, hg, hmem⟩ := htouched
    obtain ⟨r, hr⟩ := ht.reflected g hg
    rw [← mem_places_files (r := r), List.mem_map] at hmem
    obtain ⟨⟨p, text⟩, hp, hplace⟩ := hmem
    exact ⟨text, .written ⟨g, hg, r, hr, hplace ▸ hp⟩⟩
  · cases hnode : c.before.find? q with
    | none => exact ⟨"", .placeholder htouched hnode hq rfl⟩
    | some n =>
      cases n with
      | file text => exact ⟨text, .old htouched hnode⟩
      | directory =>
        obtain ⟨header, hheader, hplace⟩ := hq.header
        exact absurd (hplace ▸ hnode) (hc.free header hheader)

/-- After passes, the next one may come. -/
theorem After.between (h : c.After S t) : c.Between S t := by
  refine ⟨h.wellFormed, h.reflected, h.beside.other,
    fun q hq text htext => ((h.texts q hq text).1 htext).1, fun q hq text hdue => ?_, h.free⟩
  by_cases hswept : text = "" ∧ Expendable c.settings q
  · exact .inr ⟨hswept.1, .inl hswept.2⟩
  · exact .inl ((h.texts q hq text).2 ⟨hdue, hswept⟩)

theorem Sound.names (hc : c.Sound) : ∀ s ∈ c.cwd, Path.IsName s := fun s hs => (hc.cwd s hs).1

/-! ## One pass -/

theorem Sound.below_headerPlace (hc : c.Sound) (ht : t.WellFormed)
    (hheader : IsHeader c.settings c.cwd t header) :
    Below c.settings.outputDirectory.parts (headerPlace c.settings c.cwd header) := by
  obtain ⟨hstraight, hinside⟩ := hheader.straight hc.resolved hc.downward ht
  exact Pass.below_headerPlace hc.resolved hc.names hstraight hinside

/-- Placeholders only lie below the output directory. -/
theorem Sound.same_of_placed (hc : c.Sound) (ht₁ : t₁.WellFormed)
    (houtput : t₁.find? c.settings.outputDirectory.parts = some .directory)
    (hplaced : Placed c.settings c.cwd (IsHeader c.settings c.cwd t₁) t₁ t')
    (hq : ¬ Below c.settings.outputDirectory.parts q) : t'.find? q = t₁.find? q := by
  refine same_of_grows hplaced (fun q => prefix_directory ht₁ houtput) (fun _ h => h.elim) ?_ ?_ hq
  · rintro q ⟨header, hheader, hq⟩
    rw [hq]
    exact hc.below_headerPlace ht₁ hheader
  · rintro q ⟨header, hheader, hbelow⟩
    exact ⟨_, hc.below_headerPlace ht₁ hheader, hbelow⟩

/-- Only the headers of the module are met. -/
theorem Sound.covers (hc : c.Sound) :
    Covers c.settings c.cwd f t fun t₁ => IsHeader c.settings c.cwd t₁ := by
  intro t₁ t' ht₁ ht' hcleared hplaced header hheader
  refine hheader.congr hc.resolved hc.downward ht' hcleared.known fun q hq => ?_
  exact (hc.same_of_placed ht₁ hcleared.output hplaced hq).symm

section pass
variable (hc : c.Sound) (hf : IsSource c.settings c.cwd (f.resolve c.cwd))
  (hS : c.Distinct (S ++ [f])) (hclean : ∀ g ∈ S ++ [f], (g.resolve c.cwd).Clean)
  (ht : c.Between S t) (ht₁ : t₁.WellFormed) (ht₂ : t₂.WellFormed)
  (hprepared : Prepared c.settings c.cwd (f.resolve c.cwd) (IsHeader c.settings c.cwd t₁) t t₁ t₂)

include hc hf ht ht₁ hprepared in
private theorem beside_cleared : Beside c.settings c.before t₁ :=
  Pass.beside_cleared hc.resolved hc.names hf ht₁ hprepared.cleared ht.other

include hc hf ht ht₁ hprepared in
private theorem isHeader_iff :
    IsHeader c.settings c.cwd t₁ header ↔ IsHeader c.settings c.cwd c.opened header := by
  have hbeside := beside_cleared hc hf ht ht₁ hprepared
  constructor
  · exact fun h => h.congr hc.resolved hc.downward ht₁ hc.known
      fun q hq => hbeside.same hc.beside hq
  · exact fun h => h.congr hc.resolved hc.downward hc.opened hc.known
      fun q hq => hc.beside.same hbeside hq

include hc hf ht ht₁ hprepared in
/-- A place that is kept for a placeholder gets one, unless a text is there. -/
private theorem reserved_placed (hq : Reserved c.settings c.cwd c.opened q) :
    ∃ text, t₂.find? q = some (.file text) ∧ (t₁.find? q = none → text = "") := by
  obtain ⟨⟨header, hheader, hplace⟩, hshort, hlowest⟩ := hq
  have hheader₁ := (isHeader_iff hc hf ht ht₁ hprepared).2 hheader
  have hbelow : Below c.settings.outputDirectory.parts q :=
    hplace ▸ hc.below_headerPlace ht₁ hheader₁
  have hfound : t₂.find? q ≠ none := by
    rw [hplace] at hshort ⊢
    exact (hprepared.occupied header hheader₁).present.resolve_right (Nat.not_lt.2 hshort)
  have hfree := ht.free q ⟨⟨header, hheader, hplace⟩, hshort, hlowest⟩
  rcases hprepared.placed q with
    hsame | hfalse | ⟨hnone, ⟨hfile, -⟩ | ⟨-, header', hheader', habove⟩⟩
  · by_cases hmem : q ∈ outputs c.settings c.cwd (f.resolve c.cwd)
    · rw [hsame, hprepared.cleared.gone q hmem] at hfound
      exact absurd rfl hfound
    · rcases hprepared.cleared.other q hmem with hsame' | ⟨-, -, hprefix⟩
      · rw [hsame, hsame'] at hfound ⊢
        cases hnode : t.find? q with
        | none => exact absurd hnode hfound
        | some n =>
          cases n with
          | directory => exact absurd hnode hfree
          | file text => exact ⟨text, rfl, nofun⟩
      · exact absurd (hbelow.1.eq_of_length_le hprefix.length_le) hbelow.2
  · exact hfalse.elim
  · exact ⟨"", hfile, fun _ => rfl⟩
  · exact absurd habove (hlowest header' ((isHeader_iff hc hf ht ht₁ hprepared).1 hheader'))

include hc hf ht ht₁ ht₂ hprepared in
/-- What is new before the input is examined are placeholders where they belong. -/
private theorem file_placed (hq : Below c.settings.outputDirectory.parts q)
    (h : t₂.find? q = some (.file text)) :
    q ∉ outputs c.settings c.cwd (f.resolve c.cwd) ∧ t.find? q = some (.file text) ∨
      t₁.find? q = none ∧ Reserved c.settings c.cwd c.opened q ∧ text = "" := by
  rcases hprepared.placed q with
    hsame | hfalse | ⟨hnone, ⟨hfile, header, hheader, hplace⟩ | ⟨hdirectory, -⟩⟩
  · left
    by_cases hmem : q ∈ outputs c.settings c.cwd (f.resolve c.cwd)
    · rw [hsame, hprepared.cleared.gone q hmem] at h
      cases h
    · refine ⟨hmem, ?_⟩
      rcases hprepared.cleared.other q hmem with hsame' | ⟨-, hdirectory, -⟩
      · rw [← hsame', ← hsame, h]
      · rw [hsame, hdirectory] at h
        cases h
  · exact hfalse.elim
  · right
    have hheaders : ∀ header, IsHeader c.settings c.cwd t₁ header ↔
        IsHeader c.settings c.cwd c.opened header :=
      fun header => isHeader_iff hc hf ht ht₁ hprepared
    refine ⟨hnone, ⟨⟨header, (hheaders header).1 hheader, hplace⟩, ?_,
      fun header' hheader' habove => ?_⟩, ?_⟩
    · have hne : q ≠ [] := by
        rintro rfl
        exact hq.2 (List.prefix_nil.1 hq.1)
      rw [List.getLast?_eq_some_getLast hne, Option.getD_some]
      exact ht₂.short q (by simp [h]) _ (List.getLast_mem hne)
    · have hdirectory := (hprepared.occupied header' ((hheaders header').2 hheader')).above q habove
      rw [h] at hdirectory
      cases hdirectory
    · rw [hfile] at h
      cases h
      rfl
  · rw [hdirectory] at h
    cases h

include hc hf ht ht₁ ht₂ hprepared in
/-- What is there before the pass cleans up is due. -/
private theorem due_of_file (hr : Reflects c.settings c.hash c.cwd (c.frontEnd f).unit r)
    (hfiled : FiledAll (files c.settings c.cwd (f.resolve c.cwd) r) t₂ t₃)
    (hq : Below c.settings.outputDirectory.parts q) (h : t₃.find? q = some (.file text)) :
    c.Due (S ++ [f]) q text := by
  by_cases hmem : q ∈ (files c.settings c.cwd (f.resolve c.cwd) r).map Prod.fst
  · obtain ⟨⟨p, written⟩, hp, hplace⟩ := List.mem_map.1 hmem
    have hthere := hfiled.text _ hp
    dsimp only at hplace hthere
    rw [hplace, h] at hthere
    cases hthere
    exact .written ⟨f, by simp, r, hr, hplace ▸ hp⟩
  · have hout : q ∉ outputs c.settings c.cwd (f.resolve c.cwd) := mem_places_files.not.1 hmem
    have h₂ : t₂.find? q = some (.file text) := by
      rcases hfiled.other q hmem with hsame | ⟨-, hdirectory, -⟩
      · rw [← hsame, h]
      · rw [h] at hdirectory
        cases hdirectory
    rcases file_placed hc hf ht ht₁ ht₂ hprepared hq h₂ with ⟨-, hold⟩ | ⟨hnone, hreserved, rfl⟩
    · exact (ht.due q hq text hold).append hout
    · obtain ⟨x, hx⟩ := ht.due_of_reserved hc hreserved
      rcases ht.there q hq x hx with hpresent | ⟨hempty, -⟩
      · rcases hprepared.cleared.other q hout with hsame | ⟨hnone', -⟩
        · rw [hsame, hpresent] at hnone
          cases hnone
        · rw [hpresent] at hnone'
          cases hnone'
      · exact hempty ▸ hx.append hout

include hc hf hS hclean ht ht₁ ht₂ hprepared in
/-- What is due is there before the pass cleans up, unless it is empty and not kept. -/
private theorem file_of_due (hr : Reflects c.settings c.hash c.cwd (c.frontEnd f).unit r)
    (hfiled : FiledAll (files c.settings c.cwd (f.resolve c.cwd) r) t₂ t₃)
    (hq : Below c.settings.outputDirectory.parts q) (h : c.Due (S ++ [f]) q text)
    (hkept : ¬ (text = "" ∧ Expendable c.settings q)) : t₃.find? q = some (.file text) := by
  by_cases hmem : q ∈ (files c.settings c.cwd (f.resolve c.cwd) r).map Prod.fst
  · obtain ⟨⟨p, written⟩, hp, hplace⟩ := List.mem_map.1 hmem
    have hthere := hfiled.text _ hp
    dsimp only at hplace hthere
    have hdue : c.Due (S ++ [f]) q written := .written ⟨f, by simp, r, hr, hplace ▸ hp⟩
    rw [hplace] at hthere
    rw [hthere, h.unique hc hS hclean hdue]
  · have hout : q ∉ outputs c.settings c.cwd (f.resolve c.cwd) := mem_places_files.not.1 hmem
    have hdue := h.of_append hout
    have h₂ : t₂.find? q = some (.file text) := by
      rcases ht.there q hq text hdue with hpresent | ⟨hempty, hexpendable | hreserved⟩
      · refine hprepared.placed.of_found ?_
        rcases hprepared.cleared.other q hout with hsame | ⟨hnone, -⟩
        · rw [hsame, hpresent]
        · rw [hpresent] at hnone
          cases hnone
      · exact absurd ⟨hempty, hexpendable⟩ hkept
      · obtain ⟨x, hx, -⟩ := reserved_placed hc hf ht ht₁ hprepared hreserved
        rcases file_placed hc hf ht ht₁ ht₂ hprepared hq hx with ⟨-, hold⟩ | ⟨-, -, hempty'⟩
        · have hunique := ((ht.due q hq x hold).append hout).unique hc hS hclean h
          rw [hx, hunique]
        · rw [hx, hempty, hempty']
    rcases hfiled.other q hmem with hsame | ⟨hnone, -⟩
    · rw [hsame, h₂]
    · rw [h₂] at hnone
      cases hnone

include hc hf ht ht₁ hprepared in
private theorem beside_filed
    (hfiled : FiledAll (files c.settings c.cwd (f.resolve c.cwd) r) t₂ t₃) :
    Beside c.settings c.before t₃ := by
  have hplaces : ∀ p ∈ files c.settings c.cwd (f.resolve c.cwd) r,
      Below c.settings.outputDirectory.parts p.1 := fun p hp =>
    below_of_mem_outputs hc.resolved hc.names hf (mem_places_files.1 (List.mem_map_of_mem hp))
  have hplaced := (beside_cleared hc hf ht ht₁ hprepared).of_same fun q hq =>
    hc.same_of_placed ht₁ hprepared.cleared.output hprepared.placed hq
  have hgrows := hfiled.grows (P := fun _ => False) hplaces
    (L := fun q => ∃ p, Below c.settings.outputDirectory.parts p ∧ Below q p)
    fun p hp q hq => ⟨p.1, hplaces p hp, hq⟩
  exact hplaced.of_same fun q hq => same_of_grows hgrows hplaced.output (fun _ h => h)
    (fun _ h => h.elim) (fun _ h => h) hq

include hc hf ht ht₁ hprepared in
private theorem free_filed
    (hfiled : FiledAll (files c.settings c.cwd (f.resolve c.cwd) r) t₂ t₃)
    (hq : Reserved c.settings c.cwd c.opened q) : t₃.find? q ≠ some .directory := by
  obtain ⟨x, hx, -⟩ := reserved_placed hc hf ht ht₁ hprepared hq
  intro hdirectory
  by_cases hmem : q ∈ (files c.settings c.cwd (f.resolve c.cwd) r).map Prod.fst
  · obtain ⟨p, hp, hplace⟩ := List.mem_map.1 hmem
    rw [← hplace, hfiled.text p hp] at hdirectory
    cases hdirectory
  · rcases hfiled.other q hmem with hsame | ⟨hnone, -⟩
    · rw [hsame, hx] at hdirectory
      cases hdirectory
    · rw [hx] at hnone
      cases hnone

include hc hf hS hclean ht ht₁ ht₂ hprepared in
/-- A pass leads from a tree before it to a tree after it. -/
private theorem after_pass (hr : Reflects c.settings c.hash c.cwd (c.frontEnd f).unit r)
    (hfiled : FiledAll (files c.settings c.cwd (f.resolve c.cwd) r) t₂ t₃)
    (ht' : t'.WellFormed) (hswept : Swept c.settings t₃ t') : c.After (S ++ [f]) t' := by
  have hbeside := beside_filed hc hf ht ht₁ hprepared hfiled
  have houtput := hbeside.output _ (List.prefix_refl _)
  refine ⟨ht', fun g hg => ?_, hbeside.of_same fun q hq => ?_, fun q hq text => ⟨fun h => ?_, ?_⟩,
    fun q hq => ⟨fun h => ?_, ?_⟩, fun q hq h => ?_⟩
  · rcases List.mem_append.1 hg with hg | hg
    · exact ht.reflected g hg
    · rw [List.mem_singleton.1 hg]
      exact ⟨r, hr⟩
  · rcases hswept.change q with hsame | ⟨hexpendable, -⟩ | ⟨hbelow, -⟩
    · exact hsame
    · exact absurd hexpendable.1 hq
    · exact absurd hbelow hq
  · have h₃ : t₃.find? q = some (.file text) := by
      rcases hswept.change q with hsame | ⟨-, -, hnone⟩ | ⟨-, -, hnone, -⟩
      · rw [← hsame, h]
      · rw [hnone] at h
        cases h
      · rw [hnone] at h
        cases h
    refine ⟨due_of_file hc hf ht ht₁ ht₂ hprepared hr hfiled hq h₃, ?_⟩
    rintro ⟨hempty, hexpendable⟩
    exact hswept.files houtput q hexpendable (hempty ▸ h)
  · rintro ⟨hdue, hkept⟩
    have h₃ := file_of_due hc hf hS hclean ht ht₁ ht₂ hprepared hr hfiled hq hdue hkept
    rcases hswept.change q with hsame | ⟨hexpendable, hempty, -⟩ | ⟨-, hdirectory, -⟩
    · rw [hsame, h₃]
    · rw [h₃] at hempty
      cases hempty
      exact absurd ⟨rfl, hexpendable⟩ hkept
    · rw [h₃] at hdirectory
      cases hdirectory
  · exact exists_file_below (hswept.directories houtput) hq h
  · rintro ⟨p, text, hbelow, hfile⟩
    exact ht'.above (by simp [hfile]) hbelow.1 hbelow.2
  · refine free_filed hc hf ht ht₁ hprepared hfiled hq ?_
    rcases hswept.change q with hsame | ⟨-, -, hnone⟩ | ⟨-, -, hnone, -⟩
    · rw [← hsame, h]
    · rw [hnone] at h
      cases h
    · rw [hnone] at h
      cases h

end pass

/-! ## Several passes -/

theorem Due.congr (hset : ∀ f, f ∈ S ↔ f ∈ S') (h : c.Due S q text) : c.Due S' q text := by
  have htouched : c.Touched S' q → c.Touched S q := fun ⟨f, hf, hq⟩ => ⟨f, (hset f).2 hf, hq⟩
  cases h with
  | written h =>
    obtain ⟨f, hf, written⟩ := h
    exact .written ⟨f, (hset f).1 hf, written⟩
  | old untouched there => exact .old (fun h => untouched (htouched h)) there
  | placeholder untouched nothing reserved empty =>
    exact .placeholder (fun h => untouched (htouched h)) nothing reserved empty

/-- What passes over some files come to depends on which files these are. -/
theorem After.unique (hset : ∀ f, f ∈ S ↔ f ∈ S') (h : c.After S t) (h' : c.After S' t')
    (q : List String) : t.find? q = t'.find? q := by
  by_cases hq : Below c.settings.outputDirectory.parts q
  · have htexts : ∀ p, Below c.settings.outputDirectory.parts p → ∀ text,
        t.find? p = some (.file text) ↔ t'.find? p = some (.file text) := by
      intro p hp text
      rw [h.texts p hp, h'.texts p hp]
      exact and_congr_left fun _ => ⟨.congr hset, .congr fun f => (hset f).symm⟩
    have hdirectory : t.find? q = some .directory ↔ t'.find? q = some .directory := by
      rw [h.directories q hq, h'.directories q hq]
      exact exists_congr fun p => exists_congr fun text =>
        and_congr_right fun hbelow => htexts p (hq.trans hbelow) text
    refine Option.ext fun n => ?_
    cases n with
    | file text => exact htexts q hq text
    | directory => exact hdirectory
  · exact h'.beside.same h.beside hq

theorem after_reflectFile (hc : c.Sound) (hf : IsSource c.settings c.cwd f)
    (hS : c.Distinct (S ++ [f])) (hclean : ∀ g ∈ S ++ [f], (g.resolve c.cwd).Clean)
    (hw : w.WellFormed) (hcwd : w.site.cwd = c.cwd) (ht : c.Between S w.tree)
    (h : (reflectFile c.settings c.hash (c.frontEnd f) f).run w = .ok r w') :
    c.After (S ++ [f]) w'.tree ∧ w'.site = w.site := by
  have hresolve := hf
  rw [← hcwd] at hresolve
  have hsource := hresolve.resolve hw
  obtain ⟨t₁, t₂, t₃, ht₁, ht₂, -, hprepared, hfiled, hturns, hr⟩ :=
    stages_of_reflectFile hc.resolved hw hf.clean (hcwd ▸ hc.covers) h
  rw [hcwd] at hsource hprepared hfiled hr
  exact ⟨after_pass hc hsource hS hclean ht ht₁ ht₂ hprepared hr hfiled hturns.wellFormed
    hturns.tree, hturns.site⟩

end Scene

/-- Passes over several files, one after another. -/
def reflectFiles (s : Settings) (hash : NameHash) (frontEnd : Path → FrontEnd) (l : List Path) :
    Job Unit :=
  l.forM fun f => discard (reflectFile s hash (frontEnd f) f)

namespace Scene
variable {c : Scene} {S S' l : List Path} {f : Path} {u : Unit}

/-- By induction on the files: each pass starts from what those before it came to. -/
theorem after_reflectFiles (hc : c.Sound) (hw : w.WellFormed) (hcwd : w.site.cwd = c.cwd)
    (hsources : ∀ f ∈ S ++ l, IsSource c.settings c.cwd f) (hS : c.Distinct (S ++ l))
    (ht : c.Between S w.tree) (hl : l ≠ [])
    (h : (reflectFiles c.settings c.hash c.frontEnd l).run w = .ok u w') :
    c.After (S ++ l) w'.tree := by
  induction l generalizing S w with
  | nil => exact absurd rfl hl
  | cons f l ih =>
    unfold reflectFiles at h
    rw [forM_cons, run_bind_ok_iff] at h
    obtain ⟨_, w₁, hfirst, hrest⟩ := h
    obtain ⟨r, hfirst⟩ := exists_of_run_discard hfirst
    have hsub : ∀ g ∈ S ++ [f], g ∈ S ++ f :: l := by
      intro g hg
      rcases List.mem_append.1 hg with hg | hg
      · exact List.mem_append_left _ hg
      · exact List.mem_append_right _ (List.mem_singleton.1 hg ▸ List.mem_cons_self ..)
    have hclean : ∀ g ∈ S ++ [f], (g.resolve c.cwd).Clean := fun g hg =>
      ((hsources g (hsub g hg)).clean.straight hc.names).clean
    obtain ⟨hafter, hsite⟩ := after_reflectFile hc (hsources f (by simp))
      (fun g hg k hk => hS g (hsub g hg) k (hsub k hk)) hclean hw hcwd ht hfirst
    rw [List.append_cons] at hsources hS ⊢
    by_cases hl : l = []
    · rw [hl] at hrest ⊢
      cases hrest
      rwa [List.append_nil]
    · exact ih ⟨hafter.wellFormed, hsite ▸ hw.cwd⟩ (hsite ▸ hcwd) hsources hS hafter.between hl
        hrest

/-- Before any pass, what is there is due. -/
theorem Sound.between (hc : c.Sound) (ht : c.before.WellFormed) : c.Between [] c.before := by
  refine ⟨ht, nofun, fun _ _ _ => rfl, fun q _ text h => .old (fun ⟨f, hf, _⟩ => nomatch hf) h,
    fun q _ text h => ?_, fun q hq => ?_⟩
  · cases h with
    | written h =>
      obtain ⟨f, hf, -⟩ := h
      cases hf
    | old untouched there => exact .inl there
    | placeholder untouched nothing reserved empty => exact .inr ⟨empty, .inr reserved⟩
  · obtain ⟨header, hheader, hplace⟩ := hq.header
    exact hplace ▸ hc.free header hheader

/-- Once a pass has succeeded, passes may start from the files before it. -/
theorem exists_sound {frontEnd : Path → FrontEnd} (hs : s.Resolved) (hdown : s.Downward)
    (hw : w.WellFormed) (hf : IsSource s w.site.cwd f)
    (hfree : ∀ header, IsHeader s w.site.cwd w.tree header →
      w.tree.find? (headerPlace s w.site.cwd header) ≠ some .directory)
    (h : (reflectFile s hash (frontEnd f) f).run w = .ok r w') :
    ∃ t₁, Sound ⟨s, hash, w.site.cwd, frontEnd, w.tree, t₁⟩ := by
  obtain ⟨t₁, _, _, ht₁, -, -, hprepared, -⟩ := stages_of_reflectFile (K := fun _ _ => True)
    hs hw hf.clean (fun _ _ _ _ _ _ _ _ => trivial) h
  have hcleared := hprepared.cleared
  have hbeside : Beside s w.tree t₁ :=
    Pass.beside_cleared hs hw.names (hf.resolve hw) ht₁ hcleared fun _ _ _ => rfl
  refine ⟨t₁, hs, hdown, hw.cwd, ht₁, hbeside, hcleared.known, fun header hheader hdirectory => ?_⟩
  -- Where the output directory was there before, no header is new.
  obtain ⟨hstraight, hinside⟩ := hheader.straight hs hdown ht₁
  have hbelow := Pass.below_headerPlace hs hw.names hstraight hinside
  have houtput := hw.tree.above (by simp [hdirectory]) hbelow.1 hbelow.2
  have hsame : Beside s w.tree w.tree :=
    ⟨fun q => prefix_directory hw.tree houtput, fun _ _ _ => rfl⟩
  exact hfree header (hheader.congr hs hdown ht₁ hcleared.known fun q => hbeside.same hsame)
    hdirectory

end Scene

/-- Passes that succeed come to the same files in any order, however often a file is passed over. -/
theorem reflectFiles_comm {frontEnd : Path → FrontEnd} {l l' : List Path} {w₁ w₂ : Workspace}
    {u₁ u₂ : Unit} (hs : s.Resolved) (hdown : s.Downward) (hw : w.WellFormed)
    (hsources : ∀ f ∈ l, IsSource s w.site.cwd f)
    (hdistinct : ∀ f ∈ l, ∀ g ∈ l, f ≠ g →
      ∀ q ∈ outputs s w.site.cwd f, q ∉ outputs s w.site.cwd g)
    (hfree : ∀ header, IsHeader s w.site.cwd w.tree header →
      w.tree.find? (headerPlace s w.site.cwd header) ≠ some .directory)
    (hset : ∀ f, f ∈ l ↔ f ∈ l')
    (h₁ : (reflectFiles s hash frontEnd l).run w = .ok u₁ w₁)
    (h₂ : (reflectFiles s hash frontEnd l').run w = .ok u₂ w₂) (q : List String) :
    w₁.tree.find? q = w₂.tree.find? q := by
  cases l with
  | nil =>
    have hl' : l' = [] := List.eq_nil_iff_forall_not_mem.2 fun f hf => nomatch (hset f).2 hf
    subst hl'
    cases h₁
    cases h₂
    rfl
  | cons f l =>
    have hl' : l' ≠ [] := List.ne_nil_of_mem ((hset f).1 (List.mem_cons_self ..))
    have hfirst := h₁
    unfold reflectFiles at hfirst
    rw [forM_cons, run_bind_ok_iff] at hfirst
    obtain ⟨_, w', hfirst, -⟩ := hfirst
    obtain ⟨r, hfirst⟩ := exists_of_run_discard hfirst
    obtain ⟨t₁, hc⟩ :=
      Scene.exists_sound hs hdown hw (hsources f (List.mem_cons_self ..)) hfree hfirst
    have hcommon : Scene.Distinct ⟨s, hash, w.site.cwd, frontEnd, w.tree, t₁⟩ (f :: l) := by
      intro g hg k hk q hq hq'
      by_contra hne
      rw [outputs_resolve hw] at hq hq'
      exact hdistinct g hg k hk hne q hq hq'
    have hafter := Scene.after_reflectFiles (S := []) hc hw rfl hsources hcommon
      (hc.between hw.tree) (List.cons_ne_nil _ _) h₁
    have hafter' := Scene.after_reflectFiles (S := []) hc hw rfl
      (fun g hg => hsources g ((hset g).2 hg))
      (fun g hg k hk => hcommon g ((hset g).2 hg) k ((hset k).2 hk))
      (hc.between hw.tree) hl' h₂
    exact hafter.unique hset hafter' q

/-! ## Two headers -/

/-- A module of two headers, for which nothing was generated. -/
def pair : Workspace :=
  .start ⟨[], default, []⟩ ⟨.ofList [([], .directory), (["module"], .directory),
    (["module", "a.h"], .file ""), (["module", "b.h"], .file "")]⟩

/-- What passes over files come to, where they succeed. -/
private def treeAfter? (s : Settings) (w : Workspace) (l : List Path) : Option FileTree :=
  match (reflectFiles s .crc32 (fun _ => silent) l).run w with
  | .ok _ w' => some w'.tree
  | .error _ _ => none

private theorem exists_run_of_treeAfter {l : List Path} (h : treeAfter? s w l = some t) :
    ∃ w', (reflectFiles s .crc32 (fun _ => silent) l).run w = .ok () w' ∧ w'.tree = t := by
  unfold treeAfter? at h
  split at h
  · next w' hrun => exact ⟨w', hrun, Option.some.inj h⟩
  · cases h

private theorem downward_beside : beside.Downward := by
  unfold Settings.Downward
  decide +kernel

private theorem wellFormed_pair : pair.WellFormed := ⟨.of_keys (by decide) (by decide), by decide⟩

private theorem isSource_pair :
    ∀ f ∈ [Path.absolute ["module", "a.h"], .absolute ["module", "b.h"]],
      IsSource beside pair.site.cwd f := by
  intro f hf
  rcases List.mem_cons.1 hf with rfl | hf
  · exact ⟨by unfold Path.Clean; decide, by decide, ⟨by decide, by decide⟩, by decide⟩
  · obtain rfl := List.mem_singleton.1 hf
    exact isSource_second

/-- Two headers are passed over in one order and, with a repetition, in the other. -/
theorem reflectFiles_comm_pair : beside.Resolved ∧ beside.Downward ∧ pair.WellFormed ∧ ∃ w₁ w₂,
    (reflectFiles beside .crc32 (fun _ => silent)
      [.absolute ["module", "a.h"], .absolute ["module", "b.h"]]).run pair = .ok () w₁ ∧
    (reflectFiles beside .crc32 (fun _ => silent)
      [.absolute ["module", "b.h"], .absolute ["module", "a.h"],
        .absolute ["module", "b.h"]]).run pair = .ok () w₂ ∧
    w₁.tree.find? ["generated", "a.reflgen.h"] = some (.file "") ∧
    ∀ q, w₁.tree.find? q = w₂.tree.find? q := by
  have hfirst : (treeAfter? beside pair
      [.absolute ["module", "a.h"], .absolute ["module", "b.h"]]).any
      (·.find? ["generated", "a.reflgen.h"] == some (.file "")) = true := by decide +kernel
  have hsecond : (treeAfter? beside pair [.absolute ["module", "b.h"], .absolute ["module", "a.h"],
      .absolute ["module", "b.h"]]).isSome = true := by decide +kernel
  obtain ⟨t₁, ht₁, htext⟩ := (Option.any_eq_true _ _).1 hfirst
  obtain ⟨t₂, ht₂⟩ := Option.isSome_iff_exists.1 hsecond
  obtain ⟨w₁, hw₁, rfl⟩ := exists_run_of_treeAfter ht₁
  obtain ⟨w₂, hw₂, rfl⟩ := exists_run_of_treeAfter ht₂
  refine ⟨resolved_beside, downward_beside, wellFormed_pair, w₁, w₂, hw₁, hw₂, by simpa using htext,
    reflectFiles_comm resolved_beside downward_beside wellFormed_pair isSource_pair
      (by decide +kernel) (fun header hheader hdirectory => ?_) (fun f => by simp +contextual [or_comm]) hw₁ hw₂⟩
  obtain ⟨hstraight, hinside⟩ :=
    hheader.straight resolved_beside downward_beside wellFormed_pair.tree
  have hbelow := below_headerPlace resolved_beside wellFormed_pair.names hstraight hinside
  have houtput := wellFormed_pair.tree.above (by simp [hdirectory]) hbelow.1 hbelow.2
  have hnone : pair.tree.find? beside.outputDirectory.parts = none := by decide
  rw [hnone] at houtput
  cases houtput

/-- A module with a directory next to a header. -/
def climbing : Workspace :=
  .start ⟨[], default, []⟩ ⟨.ofList [([], .directory), (["module"], .directory),
    (["module", "a.h"], .file ""), (["module", "b.d"], .directory),
    (["module", "b.d", "c.h"], .file "")]⟩

/-- Settings by which a directory below the output directory leads to a header. -/
def upward : Settings :=
  { beside with
    outputDirectory := .absolute ["module", "generated"]
    sourceExtensions := [".d/../../a.h"] }

/-- A second pass over a file can come to other files than the first: where a directory had the name
of a generated header, and where an extension leads up. -/
theorem exists_pass_not_idempotent :
    (beside.Resolved ∧ beside.Downward ∧ obstructed.WellFormed ∧
      IsSource beside obstructed.site.cwd (.absolute ["module", "b.h"]) ∧ ∃ w₁ w₂,
        (reflectFiles beside .crc32 (fun _ => silent)
          [.absolute ["module", "b.h"]]).run obstructed = .ok () w₁ ∧
        (reflectFiles beside .crc32 (fun _ => silent)
          [.absolute ["module", "b.h"], .absolute ["module", "b.h"]]).run obstructed = .ok () w₂ ∧
        w₁.tree.find? ["generated", "a.reflgen.h"] ≠ w₂.tree.find? ["generated", "a.reflgen.h"]) ∧
    upward.Resolved ∧ climbing.WellFormed ∧
      IsSource upward climbing.site.cwd (.absolute ["module", "b.d", "c.h"]) ∧ ∃ w₁ w₂,
        (reflectFiles upward .crc32 (fun _ => silent)
          [.absolute ["module", "b.d", "c.h"]]).run climbing = .ok () w₁ ∧
        (reflectFiles upward .crc32 (fun _ => silent) [.absolute ["module", "b.d", "c.h"],
          .absolute ["module", "b.d", "c.h"]]).run climbing = .ok () w₂ ∧
        w₁.tree.find? ["module", "generated", "a.reflgen.h"] ≠
          w₂.tree.find? ["module", "generated", "a.reflgen.h"] := by
  have hdiffer : ∀ {s : Settings} {w : Workspace} {l l' : List Path} {q : List String},
      ((treeAfter? s w l).any fun t₁ => (treeAfter? s w l').any fun t₂ =>
        t₁.find? q != t₂.find? q) = true →
      ∃ w₁ w₂, (reflectFiles s .crc32 (fun _ => silent) l).run w = .ok () w₁ ∧
        (reflectFiles s .crc32 (fun _ => silent) l').run w = .ok () w₂ ∧
        w₁.tree.find? q ≠ w₂.tree.find? q := by
    intro s w l l' q h
    obtain ⟨t₁, ht₁, h⟩ := (Option.any_eq_true _ _).1 h
    obtain ⟨t₂, ht₂, hne⟩ := (Option.any_eq_true _ _).1 h
    obtain ⟨w₁, hw₁, rfl⟩ := exists_run_of_treeAfter ht₁
    obtain ⟨w₂, hw₂, rfl⟩ := exists_run_of_treeAfter ht₂
    exact ⟨w₁, w₂, hw₁, hw₂, by simpa using hne⟩
  refine ⟨⟨resolved_beside, downward_beside, wellFormed_obstructed, isSource_second,
    hdiffer (by decide +kernel)⟩, ⟨⟨rfl, by decide⟩, ⟨rfl, by decide⟩⟩,
    ⟨.of_keys (by decide) (by decide), by decide⟩,
    ⟨by unfold Path.Clean; decide, by decide, ⟨by decide, by decide⟩, by decide⟩,
    hdiffer (by decide +kernel)⟩

end Pass
end Introspect
