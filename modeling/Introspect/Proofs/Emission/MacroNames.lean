import Mathlib
import Introspect.Proofs.Emission.Getters

/-! The names of body macros, and which of them a header defines. -/
namespace Introspect.Emission
open Code (linesAll AllLines)
variable {c d : ClassRecord} {l m : Int}

/-- A longer stem with a line comes to the same as a shorter one with another line: characters that
the longer stem ends with begin the line of the shorter one. -/
def Overlaps (s : String) (l : Int) (s' : String) (m : Int) : Prop :=
  ∃ shared : String, shared ≠ "" ∧ s' = s ++ shared ∧ toString l = shared ++ toString m

/-- The line that a macro with a body is defined by. -/
def macroDefinition (name : String) : String := "#define " ++ name ++ "()\\"

/-! ## Names -/

private theorem append_eq_append_iff_of_ne {s s' t t' : String} : s ++ t = s' ++ t' ↔
    s = s' ∧ t = t' ∨ (∃ a, a ≠ "" ∧ s' = s ++ a ∧ t = a ++ t') ∨
      ∃ a, a ≠ "" ∧ s = s' ++ a ∧ t' = a ++ t := by
  rw [append_eq_append_iff]
  constructor
  · rintro (⟨a, hs, ht⟩ | ⟨a, hs, ht⟩) <;> by_cases ha : a = ""
    · subst ha
      exact .inl ⟨by simpa using hs.symm, by simpa using ht⟩
    · exact .inr (.inl ⟨a, ha, hs, ht⟩)
    · subst ha
      exact .inl ⟨by simpa using hs, by simpa using ht.symm⟩
    · exact .inr (.inr ⟨a, ha, hs, ht⟩)
  · rintro (⟨rfl, rfl⟩ | ⟨a, -, hs, ht⟩ | ⟨a, -, hs, ht⟩)
    · exact .inl ⟨"", by simp, by simp⟩
    · exact .inl ⟨a, hs, ht⟩
    · exact .inr ⟨a, hs, ht⟩

private theorem toString_inj : toString l = toString m ↔ l = m := by
  rw [Int.toString_eq_repr, Int.toString_eq_repr, Int.repr_inj]

private theorem bodyMacroName_of_line (hl : c.bodyLine = .proper (some l)) :
    bodyMacroName c = macroPrefix ++ "_" ++ (c.metadata.file.stem ++ toString l) := by
  rw [bodyMacroName, hl, String.append_assoc]
  rfl

private theorem sameName_iff (hl : c.bodyLine = .proper (some l))
    (hm : d.bodyLine = .proper (some m)) :
    bodyMacroName c = bodyMacroName d ↔ c.metadata.file.stem = d.metadata.file.stem ∧ l = m ∨
      Overlaps c.metadata.file.stem l d.metadata.file.stem m ∨
      Overlaps d.metadata.file.stem m c.metadata.file.stem l := by
  rw [bodyMacroName_of_line hl, bodyMacroName_of_line hm, String.append_right_inj,
    append_eq_append_iff_of_ne, toString_inj]
  rfl

/-! ## Headers -/

/-- The line defines no macro with a body. -/
def NoMacro (l : String) : Prop := ∀ name, l ≠ macroDefinition name

theorem noMacro_of_last {l : String} (hl : l.toList.getLast? ≠ some '\\') : NoMacro l := by
  rintro name rfl
  exact hl (getLast?_toList_append ("#define " ++ name) (by decide))

theorem noMacro_of_back (front : String) {s : String} (hs : s.toList.getLast?.any (· != '\\')) :
    NoMacro (front ++ s) := by
  obtain ⟨c, hlast, hc⟩ := (Option.any_eq_true _ _).1 hs
  refine noMacro_of_last fun hend => ?_
  rw [getLast?_toList_append front hlast] at hend
  cases hend
  cases hc

theorem noMacro_of_front {l : String} (hl : l.toList.head?.any (· != '#')) (rest : String) :
    NoMacro (l ++ rest) := by
  rintro name hdefinition
  obtain ⟨c, hhead, hc⟩ := (Option.any_eq_true _ _).1 hl
  have hfront : (macroDefinition name).toList.head? = some '#' := by simp [macroDefinition]
  rw [← hdefinition, head?_toList_append hhead rest] at hfront
  cases hfront
  cases hc

private theorem noMacro_scope {name : String} {body : List Code} (h : AllLines NoMacro body) :
    AllLines NoMacro [Code.scope name body] :=
  .scope (noMacro_of_front (by decide) name) (noMacro_of_last (by decide))
    (noMacro_of_last (by decide)) h

private theorem noMacro_declareGetters (first : String) (others : List String) :
    AllLines NoMacro [declareGetters first others] := by
  have hdeclaration : ∀ g, AllLines NoMacro [specialization, .line (g ++ ";")] := fun g =>
    .line_cons (noMacro_of_last (by decide)) (.line_cons (noMacro_of_back g (by decide)) .nil)
  exact noMacro_scope ((hdeclaration first).append
    (.flatMap fun g _ => .line_cons (noMacro_of_last (by decide)) (hdeclaration g)))

private theorem noMacro_declareClass (c : ClassRecord) : AllLines NoMacro (declareClass c) := by
  have hdeclared : AllLines NoMacro [Code.declareClass c] :=
    noMacro_scope (.line_cons (noMacro_of_back _ (s := ";") (by decide)) .nil)
  rw [declareClass]
  exact .ite (.ite hdeclared .nil) (hdeclared.append (noMacro_declareGetters _ _))

private theorem noMacro_declareEnum (e : EnumRecord) : AllLines NoMacro (declareEnum e) := by
  have hdeclared : AllLines NoMacro [Code.declareEnum e] :=
    noMacro_scope (.line_cons (noMacro_of_back _ (by decide)) .nil)
  exact hdeclared.append (noMacro_declareGetters _ _)

private theorem noMacro_declareFunction (f : FunctionRecord) :
    AllLines NoMacro (declareFunction f) := by
  have hdeclared : AllLines NoMacro [Code.declareFunction f] :=
    noMacro_scope (.line_cons (noMacro_of_back _ (s := ");") (by decide)) .nil)
  exact hdeclared.append (noMacro_declareGetters _ _)

/-- A line of a macro that goes on in the next line and is no directive. -/
private theorem noMacro_ended {text : String} (h : text.toList.head?.any (· != '#')) :
    NoMacro (ended "\\" text) := by
  have hne : text.isEmpty = false := by
    refine eq_false_of_ne_true fun hempty => ?_
    rw [String.isEmpty_iff.1 hempty] at h
    cases h
  rw [ended, hne, if_neg (by simp)]
  exact noMacro_of_front h _

private theorem macroDefinition_inj {name name' : String} :
    macroDefinition name = macroDefinition name' ↔ name = name' := by
  rw [← String.toList_inj, ← String.toList_inj]
  simp [macroDefinition]

/-- The lines between a macro and its end. -/
private theorem noMacro_members (r : Registry) (c : ClassRecord) (friends : List String)
    (hfriends : ∀ text ∈ friends, text.toList.head?.any (· != '#')) :
    AllLines NoMacro [.postfixed "\\" [.indented 2 ((friends.map fun text => .line text) ++
      [.indented 1 (accessors r c)])]] := by
  intro l hl
  simp only [Code.linesAll_cons, Code.lines, Code.linesAll_nil, Code.linesAll_append,
    Code.linesAll_map_line, List.append_nil, List.mem_append, List.mem_map] at hl
  obtain ⟨text, htext, rfl⟩ | hl := hl
  · exact noMacro_ended (hfriends text htext)
  · obtain ⟨k, hk, hl⟩ := Code.mem_linesAll.1 hl
    obtain ⟨text, rfl, htext⟩ := exists_line_of_mem_accessors hk
    obtain rfl := List.mem_singleton.1 hl
    exact noMacro_ended htext

private theorem mem_between_iff {a b : List Code} {name name' : String}
    (ha : AllLines NoMacro a) (hb : AllLines NoMacro b) :
    macroDefinition name ∈ linesAll "" (a ++ .line (macroDefinition name') :: b) ↔
      name' = name := by
  rw [Code.linesAll_append, List.mem_append, Code.linesAll_cons, List.mem_append, Code.lines_line,
    ended_empty, List.mem_singleton, macroDefinition_inj]
  refine ⟨?_, fun h => .inr (.inl h.symm)⟩
  rintro (hl | rfl | hl)
  · exact absurd rfl (ha _ hl name)
  · rfl
  · exact absurd rfl (hb _ hl name)

/-- In the code of a body macro, that macro is the only one with a body. -/
theorem mem_bodyMacro_iff {r : Registry} {name : String} :
    macroDefinition name ∈ linesAll "" (bodyMacro r c) ↔ bodyMacroName c = name := by
  let friendLine (result function : String) : String :=
    "friend const " ++ runtime result ++ "& " ++ runtime function ++ "<" ++ c.type.name ++ ">();"
  have hopening : AllLines NoMacro [.blank,
      .line ("// " ++ c.qualifiedName ++ " class declaration"), .line ("#if !" ++ buildMacro)] :=
    .line_cons (noMacro_of_last (by decide)) (.line_cons (noMacro_of_back _ (by decide))
      (.line_cons (noMacro_of_back _ (by decide)) .nil))
  have hmembers := noMacro_members r c [friendLine "TypeInfo" "GetReflectedType",
    friendLine "ClassInfo" "GetReflectedClass", "public:"] (by simp [friendLine])
  have hclosing : AllLines NoMacro [.blank, .line "#else",
      .line ("#define " ++ bodyMacroName c ++ "()"), .line "#endif"] :=
    .line_cons (noMacro_of_last (by decide)) (.line_cons (noMacro_of_last (by decide))
      (.line_cons (noMacro_of_back _ (by decide)) (.line_cons (noMacro_of_last (by decide)) .nil)))
  exact mem_between_iff hopening (hmembers.append hclosing)

theorem mem_headerCode_iff {r : Registry} {s : Selection} {name : String} :
    macroDefinition name ∈ linesAll "" (headerCode r s) ↔
      ∃ c ∈ s.classes, c.bodyLine.isPresent ∧ bodyMacroName c = name := by
  have hopening : AllLines NoMacro
      [.line "#pragma once", .blank, .includes "CppReflStatics.h" false, .blank] := by
    unfold AllLines
    exact fun l hl => noMacro_of_last (by revert l; decide)
  have hclasses : AllLines NoMacro (s.classes.flatMap declareClass) :=
    .flatMap fun c _ => noMacro_declareClass c
  have henums : AllLines NoMacro (s.enums.flatMap declareEnum) :=
    .flatMap fun e _ => noMacro_declareEnum e
  have hfunctions : AllLines NoMacro (s.functions.flatMap declareFunction) :=
    .flatMap fun f _ => noMacro_declareFunction f
  have hrest := ((hopening.append hclasses).append henums).append hfunctions
  rw [headerCode, Code.linesAll_append, List.mem_append, Code.linesAll_flatMap, List.mem_flatMap]
  constructor
  · rintro (hl | ⟨c, hc, hl⟩)
    · exact absurd rfl (hrest _ hl name)
    · obtain ⟨hc, hpresent⟩ := List.mem_filter.1 hc
      exact ⟨c, hc, hpresent, mem_bodyMacro_iff.1 hl⟩
  · rintro ⟨c, hc, hpresent, hname⟩
    exact .inr ⟨c, List.mem_filter.2 ⟨hc, hpresent⟩, mem_bodyMacro_iff.2 hname⟩

/-- The macros that a header defines with a body are those of the classes with a body marker. -/
theorem mem_headerLines_iff {cwd : List String} {r : Registry} {file : Path} {name : String} :
    macroDefinition name ∈ headerLines cwd r file ↔
      ∃ c ∈ (r.inFile cwd file true).classes, c.bodyLine.isPresent ∧ bodyMacroName c = name := by
  unfold headerLines
  dsimp only
  split
  · exact mem_headerCode_iff
  next hany =>
  have hnone : (r.inFile cwd file true).classes = [] := by
    simp only [Selection.any, Bool.not_eq_true', Bool.not_eq_false, Bool.and_eq_true,
      List.isEmpty_iff] at hany
    exact hany.1.1.1
  simp [hnone]

/-- Two classes share the name of a body macro if the stems of their files are the same and so are
the lines, or if one stem goes on where the other ends with what the line behind that begins with.
Within one file another line makes another name. Headers define macros with these names only. -/
theorem bodyMacroName_eq_iff (cwd : List String) (r : Registry)
    (hl : c.bodyLine = .proper (some l)) (hm : d.bodyLine = .proper (some m)) :
    (bodyMacroName c = bodyMacroName d ↔ c.metadata.file.stem = d.metadata.file.stem ∧ l = m ∨
      Overlaps c.metadata.file.stem l d.metadata.file.stem m ∨
      Overlaps d.metadata.file.stem m c.metadata.file.stem l) ∧
    (c.metadata.file = d.metadata.file → l ≠ m → bodyMacroName c ≠ bodyMacroName d) ∧
    ∀ file name, macroDefinition name ∈ headerLines cwd r file ↔
      ∃ k ∈ (r.inFile cwd file true).classes, k.bodyLine.isPresent ∧ bodyMacroName k = name := by
  refine ⟨sameName_iff hl hm, fun hfile hne hname => ?_, fun _ _ => mem_headerLines_iff⟩
  have hapart : ∀ s l m, ¬ Overlaps s l s m := by
    rintro s l m ⟨shared, hshared, hs, -⟩
    have hlists : s.toList = s.toList ++ shared.toList := by
      rw [← String.toList_append, ← hs]
    exact hshared (String.toList_inj.1 (List.self_eq_append_right.1 hlists))
  rw [sameName_iff hl hm, hfile] at hname
  obtain ⟨-, hlines⟩ | hoverlap | hoverlap := hname
  · exact hne hlines
  · exact hapart _ _ _ hoverlap
  · exact hapart _ _ _ hoverlap

/-- A class that is marked for reflection, with a body marker. -/
def sheet (name place : String) (line : Int) : ClassRecord :=
  ⟨.plain ⟨name, ""⟩ .record, { Metadata.bare (.ofString place) 1 with reflected := true },
    .structKey, false, [], [], [], .proper (some line)⟩

/-- Classes in files whose names or lines differ. -/
def sheets : Registry :=
  { Registry.empty .crc32 with
    classes := .ofList [sheet "Plain" "/module/A.h" 12, sheet "Numbered" "/module/A1.h" 2,
      sheet "Framed" "/module/ui/A.h" 12] }

/-- Two classes at different lines of one file have macros of their own. -/
theorem bodyMacroName_eq_iff_sheet :
    let top := sheet "Top" "/module/A.h" 2
    let bottom := sheet "Bottom" "/module/A.h" 12
    top.bodyLine = .proper (some 2) ∧ bottom.bodyLine = .proper (some 12) ∧
      bodyMacroName top ≠ bodyMacroName bottom := by
  intro top bottom
  exact ⟨rfl, rfl,
    (bodyMacroName_eq_iff (c := top) (d := bottom) [] sheets rfl rfl).2.1 rfl (by decide)⟩

/-- Another file makes no other name where stem and line overlap, nor in another directory. -/
theorem bodyMacroName_sheets :
    let classes := (sheets.within [] (.ofString "/module")).classes
    classes.map (fun c => (c.metadata.file.toString, c.bodyLine)) =
        [("/module/A.h", .proper (some 12)), ("/module/A1.h", .proper (some 2)),
          ("/module/ui/A.h", .proper (some 12))] ∧
      ∀ c ∈ classes, bodyMacroName c = "CPPREFL_INTERNAL_REFLECTION_A12" := by
  decide +kernel

end Introspect.Emission
