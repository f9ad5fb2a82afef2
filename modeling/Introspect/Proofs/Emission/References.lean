import Mathlib.Data.List.Count
import Mathlib.Data.List.Nodup
import Introspect.Emission.ModuleCode
import Introspect.Proofs.Emission.Getters
import Introspect.Proofs.Reflection.Closure

/-! Getters that generated code calls, and where they are defined. -/
namespace Introspect.Emission
open Reflection (written)
variable {cwd : List String} {r : Registry} {moduleDirectory file : Path} {c x : ClassRecord}
  {e : EnumRecord}

/-- Generated code calls the getter of a class: where a class derived from it is registered, where
the module is, or in the members that the body macro of the class itself stands for. -/
inductive CallsClass (cwd : List String) (r : Registry) (moduleDirectory : Path)
    (x : ClassRecord) : Prop
  | base {file : Path} {c : ClassRecord} (hc : c ∈ (r.inFile cwd file true).classes)
      (hplain : c.type.isTemplated = false) (hx : x ∈ registeredBases r c)
  | entry (hx : x ∈ moduleClasses cwd r moduleDirectory)
  | members {file : Path} (hx : x ∈ (r.inFile cwd file true).classes)
      (hbody : x.bodyLine.isPresent)

/-- A getter is declared once in the header of a file and defined once in its source, and no source
of another file defines it. -/
structure Served (cwd : List String) (r : Registry) (moduleDirectory : Path) (g : String)
    (file : Path) : Prop where
  declared : (specializations (headerLines cwd r file)).count (g ++ ";") = 1
  defined : (specializations (sourceLines cwd r moduleDirectory file)).count g = 1
  nowhereElse : ∀ other, g ∈ specializations (sourceLines cwd r moduleDirectory other) →
    other.sameAs cwd file

/-! ## Getters are apart -/

/-- Getters of different kinds differ behind their first word. -/
theorem getter_ne {result result' function function' argument argument' : String}
    (h : result.toList.head? ≠ result'.toList.head?) (hresult : result.toList ≠ [])
    (hresult' : result'.toList ≠ []) :
    getter result function argument ≠ getter result' function' argument' := by
  intro heq
  have hfront (s f a : String) (hs : s.toList ≠ []) :
      (getter s f a).toList[6]? = s.toList.head? := by
    obtain ⟨c, r, hr⟩ := List.exists_cons_of_ne_nil hs
    simp [getter, hr]
  exact h (by rw [← hfront _ function argument hresult, heq, hfront _ _ _ hresult'])

private theorem getter_inj {result function argument argument' : String} :
    getter result function argument = getter result function argument' ↔ argument = argument' := by
  rw [← String.toList_inj, ← String.toList_inj]
  simp [getter]

private theorem globalText_inj {t u : CppType} :
    t.id.globalText = u.id.globalText ↔ t.qualifiedName = u.qualifiedName := by
  rw [← String.toList_inj, ← String.toList_inj]
  simp [QualifiedName.globalText, CppType.qualifiedName]

theorem classGetter_inj {t u : CppType} :
    classGetter t = classGetter u ↔ t.qualifiedName = u.qualifiedName :=
  getter_inj.trans globalText_inj

private theorem enumGetter_inj {t u : CppType} :
    enumGetter t = enumGetter u ↔ t.qualifiedName = u.qualifiedName :=
  getter_inj.trans globalText_inj

theorem typeGetter_ne_classGetter (t u : CppType) : typeGetter t ≠ classGetter u :=
  getter_ne (by decide) (by decide) (by decide)

private theorem typeGetter_ne_enumGetter (t u : CppType) : typeGetter t ≠ enumGetter u :=
  getter_ne (by decide) (by decide) (by decide)

theorem classGetter_ne_enumGetter (t u : CppType) : classGetter t ≠ enumGetter u :=
  getter_ne (by decide) (by decide) (by decide)

theorem functionGetter_ne_classGetter (f : FunctionRecord) (t : CppType) :
    functionGetter f ≠ classGetter t := getter_ne (by decide) (by decide) (by decide)

private theorem functionGetter_ne_enumGetter (f : FunctionRecord) (t : CppType) :
    functionGetter f ≠ enumGetter t := getter_ne (by decide) (by decide) (by decide)

/-! ## How often a getter is there -/

private theorem count_flatMap_of_key {α : Type} {l : List α} {f : α → List String}
    {key : α → String} {g k : String} (h : ∀ a, (f a).count g = if key a = k then 1 else 0) :
    (l.flatMap f).count g = (l.map key).count k := by
  induction l with
  | nil => rfl
  | cons a l ih =>
    rw [List.flatMap_cons, List.count_append, ih, h, List.map_cons, List.count_cons, Nat.add_comm]
    simp

private theorem count_flatMap_of_none {α : Type} {l : List α} {f : α → List String} {g : String}
    (h : ∀ a, g ∉ f a) : (l.flatMap f).count g = 0 := by
  rw [List.count_eq_zero, List.mem_flatMap]
  exact fun ⟨a, _, ha⟩ => h a ha

/-- The getter of a class is there as often as classes of the name that are no templates. -/
theorem count_classGetter (s : Selection) (t : CppType) : (getters s).count (classGetter t) =
    ((s.classes.filter fun c => !c.type.isTemplated).map ClassRecord.qualifiedName).count
      t.qualifiedName := by
  have hclasses : ∀ c : ClassRecord, [typeGetter c.type, classGetter c.type].count (classGetter t) =
      if c.qualifiedName = t.qualifiedName then 1 else 0 := by
    intro c
    by_cases h : c.type.qualifiedName = t.qualifiedName <;>
      simp [typeGetter_ne_classGetter, classGetter_inj, ClassRecord.qualifiedName, h]
  rw [getters, List.count_append, List.count_append, count_flatMap_of_key hclasses,
    count_flatMap_of_none (l := s.enums), count_flatMap_of_none (l := s.functions), Nat.add_zero]
  · simp [(functionGetter_ne_classGetter _ _).symm]
  · simp [(typeGetter_ne_classGetter _ _).symm, classGetter_ne_enumGetter]

/-- The getter of an enum is there as often as enums of the name. -/
theorem count_enumGetter (s : Selection) (t : CppType) : (getters s).count (enumGetter t) =
    (s.enums.map EnumRecord.qualifiedName).count t.qualifiedName := by
  have henums : ∀ e : EnumRecord, [typeGetter e.type, enumGetter e.type].count (enumGetter t) =
      if e.qualifiedName = t.qualifiedName then 1 else 0 := by
    intro e
    by_cases h : e.type.qualifiedName = t.qualifiedName <;>
      simp [typeGetter_ne_enumGetter, enumGetter_inj, EnumRecord.qualifiedName, h]
  rw [getters, List.count_append, List.count_append, count_flatMap_of_key henums,
    count_flatMap_of_none (l := s.classes.filter fun c => !c.type.isTemplated),
    count_flatMap_of_none (l := s.functions), Nat.add_zero, Nat.zero_add]
  · simp [(functionGetter_ne_enumGetter _ _).symm]
  · simp [(typeGetter_ne_enumGetter _ _).symm, (classGetter_ne_enumGetter _ _).symm]

/-! ## Records of a file -/

private theorem name_inj {α : Type} {key : α → String} {items : Catalog key} {a b : α}
    (ha : a ∈ items.items) (hb : b ∈ items.items) (h : key a = key b) : a = b :=
  List.inj_on_of_nodup_map items.nodup ha hb h

/-- Of the records that pass a test, one has the name of a record if that passes it, and none
otherwise. -/
private theorem count_key_filter {α : Type} {key : α → String} (items : Catalog key) {a : α}
    (ha : a ∈ items.items) (keep : α → Bool) :
    ((items.items.filter keep).map key).count (key a) = if keep a then 1 else 0 := by
  have hnodup : ((items.items.filter keep).map key).Nodup :=
    items.nodup.sublist (List.filter_sublist.map _)
  rw [List.Nodup.count hnodup]
  refine if_congr ⟨fun h => ?_, fun h => List.mem_map_of_mem (List.mem_filter.2 ⟨ha, h⟩)⟩ rfl rfl
  obtain ⟨b, hb, hname⟩ := List.mem_map.1 h
  obtain ⟨hb, hkeep⟩ := List.mem_filter.1 hb
  rwa [← name_inj hb ha hname]

theorem CallsClass.registered (h : CallsClass cwd r moduleDirectory x) :
    x ∈ r.classes.items ∧ x.metadata.isReflected := by
  cases h with
  | @base file c hc hplain hx =>
    obtain ⟨hbase, hkeep⟩ := List.mem_filter.1 hx
    obtain ⟨name, -, hfound⟩ := List.mem_filterMap.1 hbase
    rw [Bool.and_eq_true] at hkeep
    exact ⟨Catalog.mem_of_find? hfound, hkeep.2⟩
  | entry hx =>
    obtain ⟨hwithin, hkeep⟩ := List.mem_filter.1 hx
    rw [Bool.and_eq_true, Bool.and_eq_true] at hkeep
    exact ⟨(List.mem_filter.1 hwithin).1, hkeep.1.2⟩
  | @members file hx hbody =>
    obtain ⟨hregistered, hkeep⟩ := List.mem_filter.1 hx
    rw [Bool.and_eq_true] at hkeep
    exact ⟨hregistered, hkeep.1⟩

/-- A getter is served if it is there once in its own file and in no other. -/
private theorem served_iff {g : String} : Served cwd r moduleDirectory g file ↔
    (getters (r.inFile cwd file true)).count g = 1 ∧
      ∀ other, g ∈ getters (r.inFile cwd other true) → other.sameAs cwd file := by
  have hdeclared : ((getters (r.inFile cwd file true)).map (· ++ ";")).count (g ++ ";") =
      (getters (r.inFile cwd file true)).count g :=
    List.count_map_of_injective _ (· ++ ";") (fun a b h => by simpa [← String.toList_inj] using h) g
  constructor
  · rintro ⟨-, hdefined, hnowhere⟩
    simp only [specializations_sourceLines] at hdefined hnowhere
    exact ⟨hdefined, hnowhere⟩
  · rintro ⟨hcount, hnowhere⟩
    refine ⟨?_, ?_, ?_⟩
    · rw [specializations_headerLines, hdeclared, hcount]
    · rw [specializations_sourceLines, hcount]
    · simpa only [specializations_sourceLines] using hnowhere

/-- A getter that is there just in its own file, if it is anywhere. -/
private theorem served_iff_of_count {g : String} {keep : Bool}
    (hcount : ∀ other, (getters (r.inFile cwd other true)).count g =
      if file.sameAs cwd other && keep then 1 else 0) :
    Served cwd r moduleDirectory g file ↔ keep = true := by
  have hself : file.sameAs cwd file = true := beq_self_eq_true _
  rw [served_iff, hcount, hself, Bool.true_and]
  refine ⟨fun h => of_not_not fun hkeep => by simp [hkeep] at h, ?_⟩
  rintro rfl
  refine ⟨rfl, fun other hother => ?_⟩
  have hpos := List.count_pos_iff.2 hother
  rw [hcount, Bool.and_true] at hpos
  have hsame : file.sameAs cwd other = true := of_not_not fun hnot => by simp [hnot] at hpos
  rw [Path.sameAs, beq_iff_eq] at hsame ⊢
  exact hsame.symm

/-- The getter of a class is served if that is no template. -/
theorem served_classGetter_iff (hx : x ∈ r.classes.items) (hmarked : x.metadata.isReflected) :
    Served cwd r moduleDirectory (classGetter x.type) x.metadata.file ↔
      x.type.isTemplated = false := by
  have hcount : ∀ other, (getters (r.inFile cwd other true)).count (classGetter x.type) =
      if x.metadata.file.sameAs cwd other && !x.type.isTemplated then 1 else 0 := by
    intro other
    have hname : x.type.qualifiedName = x.qualifiedName := rfl
    rw [count_classGetter, hname, Registry.inFile, Registry.select, List.filter_filter,
      count_key_filter r.classes hx]
    simp [hmarked, Bool.and_comm]
  rw [served_iff_of_count hcount, Bool.not_eq_true']

theorem served_enumGetter (he : e ∈ r.enums.items) (hmarked : e.metadata.isReflected) :
    Served cwd r moduleDirectory (enumGetter e.type) e.metadata.file := by
  have hcount : ∀ other, (getters (r.inFile cwd other true)).count (enumGetter e.type) =
      if e.metadata.file.sameAs cwd other && true then 1 else 0 := by
    intro other
    have hname : e.type.qualifiedName = e.qualifiedName := rfl
    rw [count_enumGetter, hname, Registry.inFile, Registry.select, count_key_filter r.enums he]
    simp [hmarked]
  exact (served_iff_of_count hcount).2 rfl

/-- Whatever class generated code calls the getter of, that is declared once and defined once, both
in the file of the class, unless the class is a template or a specialisation of one: then it is
not. Every getter of an enum that is called is. -/
theorem calls_served_iff (cwd : List String) (r : Registry) (moduleDirectory : Path) :
    (∀ x, CallsClass cwd r moduleDirectory x →
      (Served cwd r moduleDirectory (classGetter x.type) x.metadata.file ↔
        x.type.isTemplated = false)) ∧
    ∀ e ∈ moduleEnums cwd r moduleDirectory,
      Served cwd r moduleDirectory (enumGetter e.type) e.metadata.file := by
  refine ⟨fun x hx => ?_, fun e he => ?_⟩
  · obtain ⟨hregistered, hmarked⟩ := hx.registered
    exact served_classGetter_iff hregistered hmarked
  · obtain ⟨hwithin, hmarked⟩ := List.mem_filter.1 he
    exact served_enumGetter (List.mem_filter.1 hwithin).1 hmarked

/-- A class template `Box`, its specialisation for `int`, a class `Lid`, and a class `Jar` derived
from both, all of them marked. -/
def jars : CompilationUnit where
  root := 0
  cursors := #[
    written .unit "a.h" none [1, 4, 6, 8],
    written .classTemplate "Box" none [2, 3],
    written .annotationNode "mark" none [],
    written .templateTypeParameter "T" (some 0) [],
    written .structDecl "Box" (some 2) [5],
    written .annotationNode "mark" none [],
    written .structDecl "Lid" (some 3) [7],
    written .annotationNode "mark" none [],
    written .structDecl "Jar" (some 4) [9, 10, 11],
    written .annotationNode "mark" none [],
    written .baseSpecifier "Box<int>" (some 2) [],
    written .baseSpecifier "Lid" (some 3) []]
  types := #[
    ⟨.unexposed, "T", false, true, 0, none, some 3, []⟩,
    ⟨.int, "int", false, false, 1, none, none, []⟩,
    ⟨.record, "Box<int>", false, false, 2, none, some 4, [1]⟩,
    ⟨.record, "Lid", false, false, 3, none, some 6, []⟩,
    ⟨.record, "Jar", false, false, 4, none, some 8, []⟩]

/-- The classes of a unit that a class in the file of the jars is derived from. -/
private def basesOfJars (r : Registry) : List ClassRecord :=
  ((r.inFile [] (.ofString "/module/a.h") true).classes.filter fun c =>
    !c.type.isTemplated).flatMap (registeredBases r)

private theorem callsClass_of_mem_basesOfJars {r : Registry} (hx : x ∈ basesOfJars r) :
    CallsClass [] r (.ofString "/module") x := by
  obtain ⟨c, hc, hx⟩ := List.mem_flatMap.1 hx
  obtain ⟨hc, hplain⟩ := List.mem_filter.1 hc
  exact .base hc (by simpa using hplain) hx

/-- The getter of the lid is called and served. -/
theorem calls_served_iff_jars : ∃ p x,
    (Reflection.reflect (Reflection.walkOver jars) 0).run (.start (.empty NameHash.crc32)) =
      .ok () p ∧
    CallsClass [] p.registry (.ofString "/module") x ∧ x.qualifiedName = "Lid" ∧
    Served [] p.registry (.ofString "/module") (classGetter x.type) x.metadata.file := by
  have hleaves : Reflection.leaves jars fun p =>
      (basesOfJars p.registry).any fun x => x.qualifiedName == "Lid" && !x.type.isTemplated := by
    decide +kernel
  obtain ⟨p, hrun, htest⟩ := Reflection.exists_of_leaves hleaves
  obtain ⟨x, hx, htest⟩ := List.any_eq_true.1 htest
  rw [Bool.and_eq_true, beq_iff_eq, Bool.not_eq_true'] at htest
  have hcalls := callsClass_of_mem_basesOfJars hx
  exact ⟨p, x, hrun, hcalls, htest.1,
    ((calls_served_iff [] p.registry (.ofString "/module")).1 x hcalls).2 htest.2⟩

/-- The getter of the specialised box is called where the jar is registered, and not served. -/
theorem exists_call_not_served_jars : ∃ p x,
    (Reflection.reflect (Reflection.walkOver jars) 0).run (.start (.empty NameHash.crc32)) =
      .ok () p ∧
    CallsClass [] p.registry (.ofString "/module") x ∧ x.qualifiedName = "Box<int>" ∧
    x.metadata.file.isWithin [] (.ofString "/module") ∧
    ¬ Served [] p.registry (.ofString "/module") (classGetter x.type) x.metadata.file := by
  have hleaves : Reflection.leaves jars fun p =>
      (basesOfJars p.registry).any fun x => x.qualifiedName == "Box<int>" && x.type.isTemplated &&
        x.metadata.file.isWithin [] (.ofString "/module") := by decide +kernel
  obtain ⟨p, hrun, htest⟩ := Reflection.exists_of_leaves hleaves
  obtain ⟨x, hx, htest⟩ := List.any_eq_true.1 htest
  rw [Bool.and_eq_true, Bool.and_eq_true, beq_iff_eq] at htest
  have hcalls := callsClass_of_mem_basesOfJars hx
  refine ⟨p, x, hrun, hcalls, htest.1.1, htest.2, ?_⟩
  rw [served_classGetter_iff hcalls.registered.1 hcalls.registered.2, htest.1.2]
  simp

end Introspect.Emission
