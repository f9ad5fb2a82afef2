import Introspect.Emission.FileCode
import Introspect.Proofs.Emission.Lines

/-! The base that the generated members of a class call `Super`. -/
namespace Introspect.Emission
open Code (linesAll)
variable {r : Registry} {c b : ClassRecord} {l : String}

/-- What a line begins with that gives a base the name `Super`. -/
def superPrefix : String := "using Super = "

/-- A base that has objects of its own and can be named without arguments. -/
def Usable (b : ClassRecord) : Prop := b.isAbstract = false ∧ b.type.isGeneric = false

instance : DecidablePred Usable := fun b =>
  inferInstanceAs (Decidable (b.isAbstract = false ∧ b.type.isGeneric = false))

/-- The first of the direct bases that is registered and satisfies a condition, and the names of
those declared ahead of it. -/
structure FirstBase (r : Registry) (c : ClassRecord) (P : ClassRecord → Prop) (front : List String)
    (b : ClassRecord) : Prop where
  declared : ∃ n back, c.baseNames = front ++ n :: back ∧ r.classes.find? n = some b
  holds : P b
  first : ∀ m ∈ front, ∀ a, r.classes.find? m = some a → ¬ P a

/-! ## The first base -/

theorem find?_directBases_iff {P : ClassRecord → Prop} [DecidablePred P] :
    (r.directBases c).find? (fun b => decide (P b)) = some b ↔ ∃ front, FirstBase r c P front b := by
  rw [Registry.directBases, List.find?_filterMap, Option.bind_eq_some_iff]
  constructor
  · rintro ⟨n, hfind, hn⟩
    obtain ⟨hany, front, back, hnames, hfront⟩ := List.find?_eq_some_iff_append.1 hfind
    rw [hn, Option.any_some, decide_eq_true_eq] at hany
    refine ⟨front, ⟨n, back, hnames, hn⟩, hany, fun m hm a ha => ?_⟩
    simpa [ha] using hfront m hm
  · rintro ⟨front, ⟨n, back, hnames, hn⟩, hb, hfront⟩
    refine ⟨n, List.find?_eq_some_iff_append.2 ⟨by simpa [hn] using hb, front, back, hnames, ?_⟩, hn⟩
    intro m hm
    cases hfind : r.classes.find? m with
    | none => rfl
    | some a => simpa using hfront m hm a hfind

theorem exists_firstBase_iff {P : ClassRecord → Prop} [DecidablePred P] :
    (∃ front b, FirstBase r c P front b) ↔
      ∃ n ∈ c.baseNames, ∃ b, r.classes.find? n = some b ∧ P b := by
  constructor
  · rintro ⟨front, b, ⟨n, back, hnames, hn⟩, hb, -⟩
    exact ⟨n, by simp [hnames], b, hn, hb⟩
  · rintro ⟨n, hmem, b, hn, hb⟩
    have hbase : b ∈ r.directBases c := List.mem_filterMap.2 ⟨n, hmem, hn⟩
    cases hfind : (r.directBases c).find? (fun b => decide (P b)) with
    | none => exact absurd (List.find?_eq_none.1 hfind b hbase) (by simpa using hb)
    | some a =>
      obtain ⟨front, ha⟩ := find?_directBases_iff.1 hfind
      exact ⟨front, a, ha⟩

private theorem FirstBase.front_eq_of_prefix {P : ClassRecord → Prop} {front more : List String}
    {d : ClassRecord} (h : FirstBase r c P front b) (h' : FirstBase r c P (front ++ more) d) :
    more = [] := by
  obtain ⟨n, back, hnames, hn⟩ := h.declared
  obtain ⟨n', back', hnames', -⟩ := h'.declared
  cases more with
  | nil => rfl
  | cons m more =>
    rw [hnames, List.append_assoc, List.append_right_inj, List.cons_append, List.cons.injEq] at hnames'
    exact absurd h.holds (h'.first n (by simp [hnames'.1]) b hn)

theorem FirstBase.front_unique {P : ClassRecord → Prop} {front front' : List String}
    {d : ClassRecord} (h : FirstBase r c P front b) (h' : FirstBase r c P front' d) :
    front = front' := by
  obtain ⟨n, back, hnames, -⟩ := h.declared
  obtain ⟨n', back', hnames', -⟩ := h'.declared
  obtain ⟨more, rfl, -⟩ | ⟨more, rfl, -⟩ := List.append_eq_append_iff.1 (hnames.symm.trans hnames')
  · rw [h.front_eq_of_prefix h', List.append_nil]
  · rw [h'.front_eq_of_prefix h, List.append_nil]

/-- The search passes over abstract bases only, so it may end at a base that cannot be named. -/
theorem superClass?_eq_some_iff : superClass? r c = some b ↔
    ∃ front, FirstBase r c Usable front b ∧
      ∀ m ∈ front, ∀ a, r.classes.find? m = some a → a.isAbstract = true := by
  have hconcrete : superClass? r c = some b ↔
      (r.directBases c).find? (fun a => decide (a.isAbstract = false)) = some b ∧
        b.type.isGeneric = false := by
    have htest : (fun a : ClassRecord => !a.isAbstract) = fun a => decide (a.isAbstract = false) := by
      funext a
      cases a.isAbstract <;> rfl
    rw [superClass?, htest]
    cases (r.directBases c).find? fun a => decide (a.isAbstract = false) with
    | none => simp
    | some a =>
      simp only [CppType.isInstantiable, Bool.not_eq_true', Option.ite_none_right_eq_some,
        Option.some.injEq]
      constructor
      · rintro ⟨ha, rfl⟩
        exact ⟨rfl, ha⟩
      · rintro ⟨rfl, ha⟩
        exact ⟨ha, rfl⟩
  rw [hconcrete, find?_directBases_iff]
  constructor
  · rintro ⟨⟨front, h⟩, hb⟩
    have hfront : ∀ m ∈ front, ∀ a, r.classes.find? m = some a → a.isAbstract = true :=
      fun m hm a ha => eq_true_of_ne_false (h.first m hm a ha)
    refine ⟨front, ⟨h.declared, ⟨h.holds, hb⟩, fun m hm a ha husable => ?_⟩, hfront⟩
    exact h.first m hm a ha husable.1
  · rintro ⟨front, h, hfront⟩
    exact ⟨⟨front, h.declared, h.holds.1, fun m hm a ha => by simp [hfront m hm a ha]⟩, h.holds.2⟩

/-! ## The macro -/

/-- A line that begins with another letter is not the one looked for. -/
private theorem mem_line_cons_iff {text suffix rest : String} {cs : List Code}
    (h : text.toList.head?.any (· != 'u')) :
    superPrefix ++ rest ∈ linesAll suffix (.line text :: cs) ↔
      superPrefix ++ rest ∈ linesAll suffix cs := by
  obtain ⟨d, hhead, hd⟩ := (Option.any_eq_true _ _).1 h
  have hne : text.isEmpty = false := by
    refine eq_false_of_ne_true fun hempty => ?_
    simp [String.isEmpty_iff.1 hempty] at hhead
  have hother : superPrefix ++ rest ≠ ended suffix text := by
    intro hline
    have hfront : (superPrefix ++ rest).toList.head? = some 'u' := head?_toList_append rfl rest
    rw [hline, ended, hne, if_neg (by simp), head?_toList_append hhead, Option.some.injEq] at hfront
    simp [hfront] at hd
  rw [Code.linesAll_cons, Code.lines_line, List.singleton_append, List.mem_cons,
    or_iff_right hother]

private theorem mem_blank_cons_iff {rest : String} {cs : List Code} :
    superPrefix ++ rest ∈ linesAll "" (.blank :: cs) ↔ superPrefix ++ rest ∈ linesAll "" cs := by
  rw [Code.linesAll_cons, Code.lines_blank, List.singleton_append, List.mem_cons,
    or_iff_right (by simp [superPrefix])]

private theorem ended_super (b : ClassRecord) :
    ended "\\" ("using Super = " ++ b.type.id.globalText ++ ";") =
      superPrefix ++ (b.type.id.globalText ++ ";\\") := by
  rw [ended, if_neg (by simp), String.append_assoc, String.append_assoc]
  rfl

private theorem mem_accessors_iff {rest : String} :
    superPrefix ++ rest ∈ linesAll "\\" (accessors r c) ↔
      ∃ b, superClass? r c = some b ∧ rest = b.type.id.globalText ++ ";\\" := by
  rw [accessors, Code.linesAll_append, Code.linesAll_append, List.mem_append, List.mem_append]
  constructor
  · rintro ((h | h) | h)
    · cases hsuper : superClass? r c with
      | none => simp [hsuper] at h
      | some b =>
        rw [hsuper, Code.linesAll_cons, Code.linesAll_nil, List.append_nil, Code.lines_line,
          List.mem_singleton, ended_super, String.append_right_inj] at h
        exact ⟨b, rfl, h⟩
    · rw [mem_line_cons_iff (by simp), mem_line_cons_iff (by simp)] at h
      exact absurd h List.not_mem_nil
    · split at h
      · rw [mem_line_cons_iff (by simp), mem_line_cons_iff (by simp),
          mem_line_cons_iff (by simp)] at h
        exact absurd h List.not_mem_nil
      · exact absurd h List.not_mem_nil
  · rintro ⟨b, hb, rfl⟩
    refine .inl (.inl ?_)
    rw [hb, Code.linesAll_cons, Code.linesAll_nil, List.append_nil, Code.lines_line,
      List.mem_singleton, ended_super]

/-- Besides what belongs to the macro itself there are the friends and the members, and only the
members have such a line. -/
private theorem mem_bodyMacro_super_iff {rest : String} :
    superPrefix ++ rest ∈ linesAll "" (bodyMacro r c) ↔
      superPrefix ++ rest ∈ linesAll "\\" (accessors r c) := by
  have hclosing : superPrefix ++ rest ∉ linesAll "" [.blank, .line "#else",
      .line ("#define " ++ bodyMacroName c ++ "()"), .line "#endif"] := by
    rw [mem_blank_cons_iff, mem_line_cons_iff (by simp), mem_line_cons_iff (by simp),
      mem_line_cons_iff (by simp)]
    exact List.not_mem_nil
  rw [bodyMacro, mem_blank_cons_iff, mem_line_cons_iff (by simp), mem_line_cons_iff (by simp),
    mem_line_cons_iff (by simp), Code.linesAll_cons, List.mem_append, or_iff_left hclosing,
    Code.lines, Code.linesAll_cons, Code.linesAll_nil, List.append_nil, Code.lines,
    mem_line_cons_iff (by simp), mem_line_cons_iff (by simp), mem_line_cons_iff (by simp),
    Code.linesAll_cons, Code.linesAll_nil, List.append_nil, Code.lines]

/-- The body macro of a class has a line for `Super` where some direct base is registered and usable
and those ahead of the first such base are abstract, and the line names that base. So the line is
there for every class with a usable base, except where a generic one that is not abstract stands ahead
of the first. The macro is in the header of every class with a body marker. -/
theorem mem_bodyMacro_superLine_iff (r : Registry) (c : ClassRecord) :
    (∀ rest, superPrefix ++ rest ∈ linesAll "" (bodyMacro r c) ↔
      ∃ front b, FirstBase r c Usable front b ∧
        (∀ m ∈ front, ∀ a, r.classes.find? m = some a → a.isAbstract = true) ∧
        rest = b.type.id.globalText ++ ";\\") ∧
    (((∃ rest, superPrefix ++ rest ∈ linesAll "" (bodyMacro r c)) ↔
        ∃ n ∈ c.baseNames, ∃ b, r.classes.find? n = some b ∧ Usable b) ↔
      ∀ front b, FirstBase r c Usable front b →
        ∀ m ∈ front, ∀ a, r.classes.find? m = some a → a.isAbstract = true) ∧
    ∀ s : Selection, c ∈ s.classes → c.bodyLine.isPresent →
      ∃ before after, headerCode r s = before ++ bodyMacro r c ++ after := by
  have hline : ∀ rest, superPrefix ++ rest ∈ linesAll "" (bodyMacro r c) ↔
      ∃ front b, FirstBase r c Usable front b ∧
        (∀ m ∈ front, ∀ a, r.classes.find? m = some a → a.isAbstract = true) ∧
        rest = b.type.id.globalText ++ ";\\" := by
    intro rest
    rw [mem_bodyMacro_super_iff, mem_accessors_iff]
    constructor
    · rintro ⟨b, hb, hrest⟩
      obtain ⟨front, hfirst, hfront⟩ := superClass?_eq_some_iff.1 hb
      exact ⟨front, b, hfirst, hfront, hrest⟩
    · rintro ⟨front, b, hfirst, hfront, hrest⟩
      exact ⟨b, superClass?_eq_some_iff.2 ⟨front, hfirst, hfront⟩, hrest⟩
  refine ⟨hline, ?_, fun s hc hpresent => ?_⟩
  · rw [← exists_firstBase_iff]
    constructor
    · intro hall front b hfirst
      obtain ⟨rest, hrest⟩ := hall.2 ⟨front, b, hfirst⟩
      obtain ⟨front', b', hfirst', hfront', -⟩ := (hline rest).1 hrest
      rwa [hfirst.front_unique hfirst']
    · intro hfront
      constructor
      · rintro ⟨rest, hrest⟩
        obtain ⟨front, b, hfirst, -, -⟩ := (hline rest).1 hrest
        exact ⟨front, b, hfirst⟩
      · rintro ⟨front, b, hfirst⟩
        exact ⟨_, (hline _).2 ⟨front, b, hfirst, hfront front b hfirst, rfl⟩⟩
  · have hmem : c ∈ s.classes.filter (·.bodyLine.isPresent) := List.mem_filter.2 ⟨hc, hpresent⟩
    obtain ⟨front, back, hmarked⟩ := List.append_of_mem hmem
    rw [headerCode, hmarked, List.flatMap_append, List.flatMap_cons, ← List.append_assoc,
      ← List.append_assoc]
    exact ⟨_, _, rfl⟩

/-- A class that is marked for reflection, with a body marker. -/
def shape (type : CppType) (abstract : Bool) (bases : List String) : ClassRecord :=
  ⟨type, { Metadata.bare (.ofString "/module/Shapes.h") 1 with reflected := true }, .structKey,
    abstract, [], [], bases.map .proper, .proper (some 8)⟩

def figure : ClassRecord := shape (.plain ⟨"Figure", ""⟩ .record) true []

/-- A class template with one parameter. -/
def genericShape (name : String) (bases : List String) : ClassRecord :=
  shape (.templated ⟨name, ""⟩ .record .generic (.plain ⟨"T", ""⟩ .template) []) false bases

def grid : ClassRecord := genericShape "Grid" []

def named : ClassRecord := shape (.plain ⟨"Named", ""⟩ .record) false []

/-- A class with an unknown base and an abstract one ahead of a usable one. -/
def circle : ClassRecord :=
  shape (.plain ⟨"Circle", ""⟩ .record) false ["Missing", "Figure", "Named", "Grid"]

/-- A class template with a generic base ahead of a usable one. -/
def board : ClassRecord := genericShape "Board" ["Grid", "Named"]

def shapes : Registry :=
  { Registry.empty .crc32 with classes := .ofList [figure, grid, named, circle, board] }

theorem mem_bodyMacro_superLine_iff_circle :
    FirstBase shapes circle Usable ["Missing", "Figure"] named ∧
      superPrefix ++ "::Named;\\" ∈ linesAll "" (bodyMacro shapes circle) := by
  have htest : ∀ m ∈ ["Missing", "Figure"], (shapes.classes.find? m).all (·.isAbstract) := by
    decide +kernel
  have hfront : ∀ m ∈ ["Missing", "Figure"], ∀ a, shapes.classes.find? m = some a →
      a.isAbstract = true := fun m hm a ha => by simpa [ha] using htest m hm
  have hfirst : FirstBase shapes circle Usable ["Missing", "Figure"] named := by
    refine ⟨⟨"Named", ["Grid"], rfl, by decide +kernel⟩, by decide, fun m hm a ha husable => ?_⟩
    simpa [hfront m hm a ha] using husable.1
  exact ⟨hfirst, ((mem_bodyMacro_superLine_iff shapes circle).1 "::Named;\\").2
    ⟨_, named, hfirst, hfront, by decide⟩⟩

/-- The first usable base goes without the line where a generic one stands ahead of it. -/
theorem not_mem_bodyMacro_board :
    FirstBase shapes board Usable ["Grid"] named ∧
      ∀ rest, superPrefix ++ rest ∉ linesAll "" (bodyMacro shapes board) := by
  have htest : ∀ m ∈ ["Grid"], (shapes.classes.find? m).all fun a => !decide (Usable a) := by
    decide +kernel
  refine ⟨⟨⟨"Named", [], rfl, by decide +kernel⟩, by decide, fun m hm a ha => ?_⟩, fun rest h => ?_⟩
  · simpa [ha] using htest m hm
  · rw [mem_bodyMacro_super_iff, mem_accessors_iff] at h
    obtain ⟨b, hb, -⟩ := h
    have hnone : superClass? shapes board = none := by decide +kernel
    rw [hnone] at hb
    cases hb

end Introspect.Emission
