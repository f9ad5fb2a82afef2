import Mathlib.Data.List.Forall2
import Mathlib.Data.List.Nodup
import Mathlib.Data.List.Pairwise
import Introspect.Proofs.Emission.References

/-! The names that the source of a file defines in one scope: the arrays in the getter of a class,
and the variables that dynamic arrays are registered with. -/
namespace Introspect.Emission
variable {r : Registry} {s : Selection} {c d : ClassRecord} {f g : Field} {m n : Metadata}
  {o name name' : String}

/-! ## Blocks -/

namespace Code

mutual
/-- The bodies of all blocks with the opener, in order. -/
def bodies (opener : String) : Code → List (List Code)
  | .line _ => []
  | .indented _ body => bodiesAll opener body
  | .block head _ _ body => (if head = opener then [body] else []) ++ bodiesAll opener body
  | .postfixed _ body => bodiesAll opener body
def bodiesAll (opener : String) : List Code → List (List Code)
  | [] => []
  | c :: cs => bodies opener c ++ bodiesAll opener cs
end

@[simp] theorem bodies_line (text : String) : bodies o (.line text) = [] := rfl

@[simp] theorem bodies_blank : bodies o blank = [] := rfl

@[simp] theorem bodies_includes (header : String) (system : Bool) :
    bodies o (includes header system) = [] := by
  cases system <;> rfl

@[simp] theorem bodiesAll_nil : bodiesAll o [] = [] := rfl

@[simp] theorem bodiesAll_cons (c : Code) (cs : List Code) :
    bodiesAll o (c :: cs) = bodies o c ++ bodiesAll o cs := rfl

@[simp] theorem bodiesAll_append (a b : List Code) :
    bodiesAll o (a ++ b) = bodiesAll o a ++ bodiesAll o b := by
  induction a with
  | nil => rfl
  | cons c a ih => simp [ih]

theorem bodiesAll_flatMap {α : Type} (l : List α) (f : α → List Code) :
    bodiesAll o (l.flatMap f) = l.flatMap fun a => bodiesAll o (f a) := by
  induction l with
  | nil => rfl
  | cons a l ih => rw [List.flatMap_cons, List.flatMap_cons, bodiesAll_append, ih]

theorem bodiesAll_eq_nil {code : List Code} (h : ∀ c ∈ code, bodies o c = []) :
    bodiesAll o code = [] := by
  induction code with
  | nil => rfl
  | cons c code ih => rw [bodiesAll_cons, h c (by simp), ih fun d hd => h d (by simp [hd])]; rfl

end Code

open Code (bodies bodiesAll)

theorem bodies_scope (hname : name ≠ "") (body : List Code) : bodies o (.scope name body) =
    (if "namespace " ++ name = o then [body] else []) ++ bodiesAll o body := by
  rw [Code.scope, if_neg (by simpa using hname), Code.braced, bodies]

/-- The definition of an array up to its items. -/
def arrayHead (element : String) (count : Nat) (name : String) : String :=
  "static const std::array<" ++ element ++ ", " ++ toString count ++ "> " ++ name ++ " ="

private theorem head?_arrayHead (element : String) (count : Nat) (name : String) :
    (arrayHead element count name).toList.head? = some 's' := by
  unfold arrayHead
  simp

theorem arrayLine_eq (element name : String) (items : List String) : arrayLine element name items =
    .line (arrayHead (runtime element) items.length name ++
      (" \x7b" ++ ",".intercalate items ++ "\x7d;")) := by
  unfold arrayLine arrayHead
  refine congrArg Code.line (String.toList_inj.1 ?_)
  simp

theorem entries_eq (element : String) (count : Nat) (items : List String) :
    entries element count name items =
      .block (arrayHead element count name) "\x7b" "\x7d;" (items.map fun i => .line i) := rfl

section getter
variable (ho : o.toList.head? ≠ some 's')
include ho

private theorem bodies_entries (element : String) (count : Nat) (items : List String) :
    bodies o (entries element count name items) = [] := by
  have hopener : arrayHead element count name ≠ o := by
    rintro rfl
    exact ho (head?_arrayHead element count name)
  have hitems : bodiesAll o (items.map fun i => .line i) = [] :=
    Code.bodiesAll_eq_nil fun c hc => by
      obtain ⟨i, -, rfl⟩ := List.mem_map.1 hc
      rfl
  rw [entries_eq, bodies, if_neg hopener, hitems]
  rfl

omit ho in
private theorem bodiesAll_metadataCode : bodiesAll o (metadataCode name m).code = [] := by
  rw [metadataCode, Code.bodiesAll_append]
  split <;> split <;> rfl

private theorem bodiesAll_classBody : bodiesAll o (classBody r c) = [] := by
  rw [classBody]
  split <;> simp [bodies_entries ho, bodiesAll_metadataCode, Code.bodiesAll_flatMap]

omit ho in
private theorem bodiesAll_define (head : String) (body : List Code) (hbody : bodiesAll o body = []) :
    bodiesAll o (define head body) = if head = o then [body] else [] := by
  simp [define, specialization, Code.braced, bodies, hbody]

omit ho in
private theorem bodiesAll_defineType (t : CppType) (kind : String) (ht : typeGetter t ≠ o) :
    bodiesAll o (defineType t kind) = [] := by
  rw [defineType, bodiesAll_define _ _ rfl, if_neg ht]

private theorem bodiesAll_defineClass (ht : typeGetter c.type ≠ o) : bodiesAll o (defineClass r c) =
    if classGetter c.type = o then [classBody r c] else [] := by
  rw [defineClass, Code.bodiesAll_append, bodiesAll_defineType _ _ ht,
    bodiesAll_define _ _ (bodiesAll_classBody ho)]
  rfl

private theorem bodiesAll_defineEnum {e : EnumRecord} (ht : typeGetter e.type ≠ o)
    (he : enumGetter e.type ≠ o) : bodiesAll o (defineEnum e) = [] := by
  rw [defineEnum, Code.bodiesAll_append, bodiesAll_defineType _ _ ht, bodiesAll_define, if_neg he]
  · rfl
  · simp [bodies_entries ho, bodiesAll_metadataCode]

private theorem bodiesAll_defineFunction {f : FunctionRecord} (hf : functionGetter f ≠ o) :
    bodiesAll o (defineFunction f) = [] := by
  rw [defineFunction, bodiesAll_define, if_neg hf]
  split <;> simp [bodies_entries ho, bodiesAll_metadataCode]

end getter

/-! ## The source of a file -/

/-- The classes that a source has getters of. -/
def plainClasses (s : Selection) : List ClassRecord := s.classes.filter fun c => !c.type.isTemplated

/-- The fields that functions are registered for. -/
def dynamicFields (c : ClassRecord) : List Field := c.fields.filter fun f => isDynamicArray f.use.type

/-- The variables of the dynamic arrays of some classes, in order. -/
def dynamicNames (classes : List ClassRecord) : List String :=
  classes.flatMap fun c => (dynamicFields c).map (dynamicArrayName c)

private theorem bodiesAll_sourceCode (ho : o.toList.head? ≠ some 's')
    (hscope : "namespace " ++ runtimeNamespace ≠ o) (htype : ∀ t, typeGetter t ≠ o)
    (henum : ∀ t, enumGetter t ≠ o) (hfunction : ∀ f, functionGetter f ≠ o) (path : String) :
    let arrays := (plainClasses s).flatMap fun c => (dynamicFields c).map (dynamicArray c)
    bodiesAll o (sourceCode r s path) =
      ((plainClasses s).flatMap fun c => if classGetter c.type = o then [classBody r c] else []) ++
        if arrays.isEmpty then [] else
          if "namespace " ++ privateNamespace = o then [arrays] else [] := by
  intro arrays
  have hincludes : bodiesAll o (runtimeHeaders.map fun h => .includes h false) = [] :=
    Code.bodiesAll_eq_nil fun c hc => by
      obtain ⟨h, -, rfl⟩ := List.mem_map.1 hc
      rfl
  have henums : bodiesAll o (s.enums.flatMap defineEnum) = [] := by
    simp [Code.bodiesAll_flatMap, bodiesAll_defineEnum ho (htype _) (henum _)]
  have hfunctions : bodiesAll o (s.functions.flatMap defineFunction) = [] := by
    simp [Code.bodiesAll_flatMap, bodiesAll_defineFunction ho (hfunction _)]
  have hclasses : bodiesAll o ((plainClasses s).flatMap (defineClass r)) =
      (plainClasses s).flatMap fun c => if classGetter c.type = o then [classBody r c] else [] := by
    simp [Code.bodiesAll_flatMap, bodiesAll_defineClass ho (htype _)]
  have harrays : bodiesAll o arrays = [] := by
    simp [arrays, Code.bodiesAll_flatMap, Code.bodiesAll_eq_nil, dynamicArray]
  have hregistered : bodies o (.scope runtimeNamespace
      ((plainClasses s).flatMap (defineClass r) ++ s.enums.flatMap defineEnum ++
        s.functions.flatMap defineFunction)) =
      (plainClasses s).flatMap fun c => if classGetter c.type = o then [classBody r c] else [] := by
    rw [bodies_scope (by decide), if_neg hscope, Code.bodiesAll_append, Code.bodiesAll_append,
      hclasses, henums, hfunctions]
    simp
  have hprivate : bodiesAll o (if arrays.isEmpty then [] else
      [.blank, .scope privateNamespace arrays]) = if arrays.isEmpty then [] else
        if "namespace " ++ privateNamespace = o then [arrays] else [] := by
    split
    · rfl
    · simp [bodies_scope (show privateNamespace ≠ "" by decide), harrays]
  change bodiesAll o (_ ++ runtimeHeaders.map _ ++ [.blank, .scope runtimeNamespace _] ++ _) = _
  rw [Code.bodiesAll_append, Code.bodiesAll_append, Code.bodiesAll_append, hincludes]
  simp only [Code.bodiesAll_cons, Code.bodiesAll_nil, Code.bodies_includes, Code.bodies_blank,
    List.nil_append, List.append_nil]
  exact congrArg₂ _ hregistered hprivate

private theorem flatMap_ite_of_nodup {α β γ : Type} [DecidableEq β] {key : α → β} {l : List α}
    {a : α} (hl : (l.map key).Nodup) (ha : a ∈ l) (g : α → γ) :
    (l.flatMap fun b => if key b = key a then [g b] else []) = [g a] := by
  obtain ⟨front, back, rfl⟩ := List.append_of_mem ha
  rw [List.map_append, List.map_cons, List.nodup_middle, List.nodup_cons, List.mem_append,
    not_or] at hl
  have hother : ∀ l : List α, key a ∉ l.map key →
      (l.flatMap fun b => if key b = key a then [g b] else []) = [] := fun l hl =>
    List.flatMap_eq_nil_iff.2 fun b hb => if_neg fun h => hl (List.mem_map.2 ⟨b, hb, h⟩)
  rw [List.flatMap_append, List.flatMap_cons, hother _ hl.1.1, hother _ hl.1.2]
  simp

/-- A source has one getter of each of its classes. -/
theorem bodiesAll_classGetter (hnodup : ((plainClasses s).map ClassRecord.qualifiedName).Nodup)
    (hc : c ∈ plainClasses s) (path : String) :
    bodiesAll (classGetter c.type) (sourceCode r s path) = [classBody r c] := by
  have hfront : (classGetter c.type).toList.head? = some 'c' := by simp [classGetter, getter]
  have hnamespace (name : String) : "namespace " ++ name ≠ classGetter c.type := by
    intro h
    rw [← h] at hfront
    simp at hfront
  rw [bodiesAll_sourceCode (by simp [hfront]) (hnamespace _)
    (fun t => typeGetter_ne_classGetter t c.type) (fun t => (classGetter_ne_enumGetter c.type t).symm)
    (fun f => functionGetter_ne_classGetter f c.type)]
  simp only [classGetter_inj, hnamespace, if_false, ite_self, List.append_nil]
  exact flatMap_ite_of_nodup hnodup hc _

/-- What a source has in its private namespace is the registration of the dynamic arrays. -/
theorem bodiesAll_privateNamespace (path : String) :
    (bodiesAll ("namespace " ++ privateNamespace) (sourceCode r s path)).flatten =
      (plainClasses s).flatMap fun c => (dynamicFields c).map (dynamicArray c) := by
  have hgetter (result function argument : String) :
      getter result function argument ≠ "namespace " ++ privateNamespace := by
    intro h
    have hfront := congrArg (fun s => s.toList.head?) h
    simp [getter] at hfront
  rw [bodiesAll_sourceCode (by decide) (by decide) (fun t => hgetter _ _ _) (fun t => hgetter _ _ _)
    (fun f => hgetter _ _ _)]
  simp only [classGetter, hgetter, if_false, if_true]
  split
  next hempty => simp [List.isEmpty_iff.1 hempty]
  next => simp

/-! ## The arrays of a class -/

/-- The name of the array that a statement defines. -/
def arrayName? (text : String) : Option String := do
  let rest ← Text.dropPrefix? "static const std::array<".toList text.toList
  let behind ← (Text.cutAt '>' rest).2
  let named ← Text.dropPrefix? [' '] behind
  return String.ofList (Text.cutAt ' ' named).1

/-- The names of the arrays that statements define, in order. -/
def arrayNames (body : List Code) : List String :=
  body.filterMap fun
    | .line text => arrayName? text
    | .block opener _ _ _ => arrayName? opener
    | _ => none

theorem arrayName?_arrayHead {element : String} (helement : '>' ∉ element.toList) (count : Nat)
    (hname : ' ' ∉ name.toList) (rest : String) :
    arrayName? (arrayHead element count name ++ rest) = some name := by
  have hcount : '>' ∉ Nat.toDigits 10 count := fun h =>
    absurd (Nat.isDigit_of_mem_toDigits (by decide) (by decide) h) (by decide)
  have hsize : '>' ∉ element.toList ++ [',', ' '] ++ (toString count).toList := by
    simp [helement, hcount]
  let named : List Char := name.toList ++ ' ' :: ('=' :: rest.toList)
  have htext : (arrayHead element count name ++ rest).toList = "static const std::array<".toList ++
      (element.toList ++ [',', ' '] ++ (toString count).toList ++ '>' :: ([' '] ++ named)) := by
    unfold arrayHead
    simp [named]
  have hopened := Text.dropPrefix?_eq_some_iff.2 htext
  have hblank : Text.dropPrefix? [' '] ([' '] ++ named) = some named :=
    Text.dropPrefix?_eq_some_iff.2 rfl
  have hnamed : Text.cutAt ' ' named = (name.toList, some ('=' :: rest.toList)) :=
    Text.cutAt_append hname
  simp only [arrayName?, hopened, Text.cutAt_append hsize, hblank, hnamed, Option.bind_eq_bind,
    Option.bind_some, Option.pure_def, String.ofList_toList]

private theorem arrayName?_eq_none {text : String} (h : text.toList[7]? ≠ some 'c') :
    arrayName? text = none := by
  cases hrest : Text.dropPrefix? "static const std::array<".toList text.toList with
  | none => simp only [arrayName?, hrest, Option.bind_eq_bind, Option.bind_none]
  | some rest =>
    rw [Text.dropPrefix?_eq_some_iff] at hrest
    exact absurd (by simp [hrest]) h

/-- The arrays that a declaration of this name gets for its tags and its attributes. -/
def noteArrays (name : String) (m : Metadata) : List String :=
  (if m.runtimeTags.isEmpty then [] else [name ++ "Tags"]) ++
    if m.runtimeAttributes.isEmpty then [] else [name ++ "Attributes"]

theorem mem_noteArrays {array : String} : array ∈ noteArrays name m ↔
    m.runtimeTags ≠ [] ∧ array = name ++ "Tags" ∨
      m.runtimeAttributes ≠ [] ∧ array = name ++ "Attributes" := by
  have hmem (p : Prop) [Decidable p] (a : String) :
      array ∈ (if p then [] else [a]) ↔ ¬ p ∧ array = a := by
    split <;> simp [*]
  rw [noteArrays, List.mem_append, hmem, hmem, List.isEmpty_iff, List.isEmpty_iff]

theorem arrayNames_metadataCode (hname : ' ' ∉ name.toList) :
    arrayNames (metadataCode name m).code = noteArrays name m := by
  have hsuffix {suffix : String} (h : ' ' ∉ suffix.toList) : ' ' ∉ (name ++ suffix).toList := by
    simp [hname, h]
  have hline {element suffix : String} (helement : '>' ∉ (runtime element).toList)
      (h : ' ' ∉ suffix.toList) (items : List String) :
      arrayNames [arrayLine element (name ++ suffix) items] = [name ++ suffix] := by
    rw [arrayLine_eq, arrayNames, List.filterMap_cons]
    simp [arrayName?_arrayHead helement _ (hsuffix h)]
  have happend (a b : List Code) : arrayNames (a ++ b) = arrayNames a ++ arrayNames b :=
    List.filterMap_append
  rw [metadataCode, noteArrays, happend]
  simp only [List.isEmpty_map]
  congr 1 <;> split
  · rfl
  · exact hline (by decide) (by decide) _
  · rfl
  · exact hline (by decide) (by decide) _

theorem arrayNames_classBody (hnames : ∀ f ∈ c.fields, ' ' ∉ f.name.toList) :
    arrayNames (classBody r c) = noteArrays "Class" c.metadata ++
      c.fields.flatMap (fun f => noteArrays f.name f.metadata) ++
        if c.fields.isEmpty then [] else ["Fields"] := by
  have happend (a b : List Code) : arrayNames (a ++ b) = arrayNames a ++ arrayNames b :=
    List.filterMap_append
  have hfields : arrayNames (c.fields.flatMap fun f => (metadataCode f.name f.metadata).code) =
      c.fields.flatMap fun f => noteArrays f.name f.metadata := by
    rw [arrayNames, List.filterMap_flatMap]
    exact List.flatMap_congr fun f hf => arrayNames_metadataCode (hnames f hf)
  have hentries (items : List String) :
      arrayNames [entries "FieldInfo" c.fields.length "Fields" items] = ["Fields"] := by
    have hhead : arrayName? (arrayHead "FieldInfo" c.fields.length "Fields" ++ "") = some "Fields" :=
      arrayName?_arrayHead (by decide) _ (by decide) ""
    rw [String.append_empty] at hhead
    rw [entries_eq, arrayNames, List.filterMap_cons]
    simp [hhead]
  have hlast (rest : String) : arrayNames
      [.line ("static auto& classInfo = Registry::GetSystemRegistry().EmplaceClass(" ++ rest),
        .line "return classInfo;"] = [] := by
    have hinfo : arrayName?
        ("static auto& classInfo = Registry::GetSystemRegistry().EmplaceClass(" ++ rest) = none :=
      arrayName?_eq_none (by simp)
    have hreturn : arrayName? "return classInfo;" = none := by decide
    simp [arrayNames, hinfo, hreturn]
  have hclass : ' ' ∉ "Class".toList := by decide
  unfold classBody
  simp only [happend, arrayNames_metadataCode hclass, String.append_assoc, hlast, List.append_nil]
  split
  next hempty => simp [List.isEmpty_iff.1 hempty, arrayNames]
  next => rw [happend, hfields, hentries, List.append_assoc]

/-- Both declarations get an array of tags, or both one of attributes. -/
def ShareArrays (m n : Metadata) : Prop :=
  m.runtimeTags ≠ [] ∧ n.runtimeTags ≠ [] ∨ m.runtimeAttributes ≠ [] ∧ n.runtimeAttributes ≠ []

private theorem tags_ne_attributes : name ++ "Tags" ≠ name' ++ "Attributes" := by
  intro h
  have hback := congrArg (fun s => s.toList.reverse) h
  simp at hback

theorem disjoint_noteArrays : List.Disjoint (noteArrays name m) (noteArrays name' n) ↔
    ¬ (name = name' ∧ ShareArrays m n) := by
  constructor
  · rintro h ⟨rfl, ⟨hm, hn⟩ | ⟨hm, hn⟩⟩
    · exact h (mem_noteArrays.2 (.inl ⟨hm, rfl⟩)) (mem_noteArrays.2 (.inl ⟨hn, rfl⟩))
    · exact h (mem_noteArrays.2 (.inr ⟨hm, rfl⟩)) (mem_noteArrays.2 (.inr ⟨hn, rfl⟩))
  · intro h array harray harray'
    obtain ⟨hm, rfl⟩ | ⟨hm, rfl⟩ := mem_noteArrays.1 harray <;>
      obtain ⟨hn, heq⟩ | ⟨hn, heq⟩ := mem_noteArrays.1 harray'
    · exact h ⟨(String.append_left_inj _).1 heq, .inl ⟨hm, hn⟩⟩
    · exact tags_ne_attributes heq
    · exact tags_ne_attributes heq.symm
    · exact h ⟨(String.append_left_inj _).1 heq, .inr ⟨hm, hn⟩⟩

theorem nodup_noteArrays (name : String) (m : Metadata) : (noteArrays name m).Nodup := by
  rw [noteArrays]
  split <;> split <;> simp

private theorem fields_not_mem_noteArrays : "Fields" ∉ noteArrays name m := by
  intro h
  obtain ⟨-, h⟩ | ⟨-, h⟩ := mem_noteArrays.1 h <;>
    have hback := congrArg (fun s => s.toList.reverse) h <;> simp at hback

/-- The arrays in the getter of a class have names of their own unless a field is called `Class`
and gets an array of a kind that the class gets one of. -/
theorem nodup_arrayNames_iff (hnames : ∀ f ∈ c.fields, ' ' ∉ f.name.toList)
    (hnodup : (c.fields.map Field.name).Nodup) : (arrayNames (classBody r c)).Nodup ↔
      ∀ f ∈ c.fields, f.name = "Class" → ¬ ShareArrays c.metadata f.metadata := by
  have hfields : (c.fields.flatMap fun f => noteArrays f.name f.metadata).Nodup := by
    refine List.nodup_flatMap.2 ⟨fun f _ => nodup_noteArrays _ _, (List.pairwise_map.1 hnodup).imp ?_⟩
    exact fun h => disjoint_noteArrays.2 fun heq => h heq.1
  have hlast : (if c.fields.isEmpty then [] else ["Fields"]).Nodup := by split <;> simp
  have hapart : List.Disjoint (noteArrays "Class" c.metadata ++
      c.fields.flatMap fun f => noteArrays f.name f.metadata)
      (if c.fields.isEmpty then [] else ["Fields"]) := by
    split
    · simp
    · simp [fields_not_mem_noteArrays]
  rw [arrayNames_classBody hnames, List.nodup_append', List.nodup_append']
  simp only [nodup_noteArrays, hfields, hlast, hapart, true_and, and_true]
  constructor
  · intro h f hf hname hshare
    have hpart : List.Disjoint (noteArrays "Class" c.metadata) (noteArrays f.name f.metadata) :=
      fun _ harray harray' => h harray (List.mem_flatMap.2 ⟨f, hf, harray'⟩)
    exact disjoint_noteArrays.1 hpart ⟨hname.symm, hshare⟩
  · intro h array harray hrest
    obtain ⟨f, hf, harray'⟩ := List.mem_flatMap.1 hrest
    exact disjoint_noteArrays.2 (fun hclash => h f hf hclash.1.symm hclash.2) harray harray'

/-! ## The variables of dynamic arrays -/

/-- The name of the one class goes on where that of the other ends, with what the field of the
other begins with. Nothing may be left over, and then both names are the same. -/
def Continues (c : ClassRecord) (f : Field) (d : ClassRecord) (g : Field) : Prop :=
  ∃ shared : String, d.type.id.flatText = c.type.id.flatText ++ shared ∧ f.name = shared ++ g.name

/-- The statement defines a variable of this name. -/
def DefinesVariable (statement : Code) (name : String) : Prop :=
  ∃ value, statement = .line ("const auto& " ++ name ++ " = " ++ value)

private theorem definesVariable_dynamicArray (c : ClassRecord) (f : Field) :
    DefinesVariable (dynamicArray c f) (dynamicArrayName c f) := by
  unfold DefinesVariable dynamicArray
  exact ⟨_, by simp only [String.append_assoc]; rfl⟩

theorem dynamicArrayName_eq_iff : dynamicArrayName c f = dynamicArrayName d g ↔
    Continues c f d g ∨ Continues d g c f := by
  rw [dynamicArrayName, dynamicArrayName, String.append_left_inj]
  exact append_eq_append_iff

/-- The variables have names of their own unless the name of a class goes on where that of another
ends. -/
theorem nodup_dynamicNames_iff {classes : List ClassRecord} (hclasses : classes.Nodup)
    (hnodup : ∀ c ∈ classes, (c.fields.map Field.name).Nodup) : (dynamicNames classes).Nodup ↔
      ∀ c ∈ classes, ∀ d ∈ classes, c ≠ d → ∀ f ∈ dynamicFields c, ∀ g ∈ dynamicFields d,
        ¬ Continues c f d g := by
  have hown : ∀ c ∈ classes, ((dynamicFields c).map (dynamicArrayName c)).Nodup := by
    intro c hc
    have hfields : ((dynamicFields c).map Field.name).Nodup :=
      (hnodup c hc).sublist (List.filter_sublist.map _)
    refine List.pairwise_map.2 ((List.pairwise_map.1 hfields).imp fun hne heq => hne ?_)
    simpa [dynamicArrayName] using heq
  rw [dynamicNames, List.nodup_flatMap, and_iff_right hown]
  constructor
  · intro h c hc d hd hne f hf g hg hcontinues
    have hsymm : Std.Symm (Function.onFun List.Disjoint fun c : ClassRecord =>
        (dynamicFields c).map (dynamicArrayName c)) := ⟨fun _ _ => List.disjoint_symm⟩
    have hdisjoint : List.Disjoint ((dynamicFields c).map (dynamicArrayName c))
        ((dynamicFields d).map (dynamicArrayName d)) := h.forall hc hd hne
    have hname : dynamicArrayName c f ∈ (dynamicFields d).map (dynamicArrayName d) := by
      rw [dynamicArrayName_eq_iff.2 (.inl hcontinues)]
      exact List.mem_map_of_mem hg
    exact hdisjoint (List.mem_map_of_mem hf) hname
  · intro h
    refine hclasses.pairwise_of_forall_ne fun c hc d hd hne name hname hname' => ?_
    obtain ⟨f, hf, rfl⟩ := List.mem_map.1 hname
    obtain ⟨g, hg, heq⟩ := List.mem_map.1 hname'
    obtain hcontinues | hcontinues := dynamicArrayName_eq_iff.1 heq
    · exact h d hd c hc hne.symm g hg f hf hcontinues
    · exact h c hc d hd hne f hf g hg hcontinues

/-! ## One scope -/

/-- The getter of a class gives its arrays names of their own unless a field is called `Class` and
gets an array of a kind that the class gets one of. The private namespace gives its variables names
of their own unless the name of one class goes on where that of another ends, with what a field of
the other begins with. Names of fields hold no blanks, as no identifier does; names of classes are
apart in every registry. -/
theorem scopes_nodup_iff {cwd : List String} {input : Path}
    (hnodup : ∀ c ∈ (r.inFile cwd input true).classes, (c.fields.map Field.name).Nodup)
    (hnames : ∀ c ∈ (r.inFile cwd input true).classes, ∀ f ∈ c.fields, ' ' ∉ f.name.toList)
    (path : String) :
    let s := r.inFile cwd input true
    let code := sourceCode r s path
    (∀ c ∈ plainClasses s, ∃ body, bodiesAll (classGetter c.type) code = [body] ∧
      ((arrayNames body).Nodup ↔
        ∀ f ∈ c.fields, f.name = "Class" → ¬ ShareArrays c.metadata f.metadata)) ∧
    List.Forall₂ DefinesVariable (bodiesAll ("namespace " ++ privateNamespace) code).flatten
      (dynamicNames (plainClasses s)) ∧
    ((dynamicNames (plainClasses s)).Nodup ↔
      ∀ c ∈ plainClasses s, ∀ d ∈ plainClasses s, c ≠ d →
        ∀ f ∈ dynamicFields c, ∀ g ∈ dynamicFields d, ¬ Continues c f d g) := by
  intro s code
  have hinFile {c : ClassRecord} (hc : c ∈ plainClasses s) : c ∈ s.classes :=
    (List.mem_filter.1 hc).1
  have hregistered : (plainClasses s).Sublist r.classes.items :=
    List.filter_sublist.trans List.filter_sublist
  have hkeys : ((plainClasses s).map ClassRecord.qualifiedName).Nodup :=
    r.classes.nodup.sublist (hregistered.map _)
  refine ⟨fun c hc => ⟨classBody r c, bodiesAll_classGetter hkeys hc path,
    nodup_arrayNames_iff (hnames c (hinFile hc)) (hnodup c (hinFile hc))⟩, ?_,
    nodup_dynamicNames_iff (.of_map _ hkeys) fun c hc => hnodup c (hinFile hc)⟩
  rw [bodiesAll_privateNamespace]
  refine List.rel_flatMap (R := Eq) (List.forall₂_same.2 fun _ _ => rfl) ?_
  rintro c _ rfl
  rw [List.forall₂_map_left_iff, List.forall₂_map_right_iff, List.forall₂_same]
  exact fun f _ => definesVariable_dynamicArray c f

/-- Metadata of something that is marked for reflection, with tags for run time. -/
private def tagged (tags : List String) : Metadata :=
  { Metadata.bare (.ofString "/module/Deck.h") 1 with
    reflected := true, tags := tags.map fun t => ⟨t, .runtime⟩ }

/-- A class with one field, a dynamic array, and tags for both. -/
private def berth (id : QualifiedName) (tags : List String) (field : String)
    (fieldTags : List String) : ClassRecord :=
  let int : CppType := .plain ⟨"int", ""⟩ .int32
  let array : CppType := .templated ⟨"vector<int>", "std"⟩ .record .specialized int []
  ⟨.plain id .record, tagged tags, .structKey, false, [⟨field, ⟨array, false⟩, tagged fieldTags⟩],
    [], [], .proper none⟩

private def wideDeck : ClassRecord := berth ⟨"Deck", ""⟩ ["wide"] "Class" ["first"]

/-- Classes of which one has a field called `Class`, and two names that differ in a scope mark. -/
def deck : Registry :=
  { Registry.empty .crc32 with
    classes := .ofList [wideDeck,
      berth ⟨"Panel", "ui"⟩ ["flat"] "rows" [], berth ⟨"ui_Panel", ""⟩ [] "rows" []] }

/-- The deck without the class whose name has an underscore, and without the field. -/
def cabin : Registry :=
  { Registry.empty .crc32 with
    classes := .ofList [berth ⟨"Deck", ""⟩ ["wide"] "planks" ["first"],
      berth ⟨"Panel", "ui"⟩ ["flat"] "rows" []] }

/-- All names of the cabin are apart. -/
theorem scopes_nodup_cabin :
    let s := cabin.inFile [] (.ofString "/module/Deck.h") true
    let code := sourceCode cabin s "Deck.h"
    (∀ c ∈ s.classes, (c.fields.map Field.name).Nodup) ∧
    (∀ c ∈ s.classes, ∀ f ∈ c.fields, ' ' ∉ f.name.toList) ∧
    (plainClasses s).length = 2 ∧
    (∀ c ∈ plainClasses s, ∃ body, bodiesAll (classGetter c.type) code = [body] ∧
      (arrayNames body).Nodup) ∧
    (dynamicNames (plainClasses s)).Nodup := by
  intro s code
  have hnodup : ∀ c ∈ s.classes, (c.fields.map Field.name).Nodup := by decide +kernel
  have hnames : ∀ c ∈ s.classes, ∀ f ∈ c.fields, ' ' ∉ f.name.toList := by decide +kernel
  have hnone : ∀ c ∈ plainClasses s, ∀ f ∈ c.fields, f.name ≠ "Class" := by decide +kernel
  obtain ⟨harrays, -, hvariables⟩ := scopes_nodup_iff hnodup hnames "Deck.h"
  refine ⟨hnodup, hnames, by decide +kernel, fun c hc => ?_, ?_⟩
  · obtain ⟨body, hbody, hiff⟩ := harrays c hc
    exact ⟨body, hbody, hiff.2 fun f hf hname => absurd hname (hnone c hc f hf)⟩
  · have hapart : ∀ c ∈ plainClasses s, ∀ d ∈ plainClasses s, c ≠ d → ∀ f ∈ dynamicFields c,
        ∀ g ∈ dynamicFields d, dynamicArrayName c f ≠ dynamicArrayName d g := by decide +kernel
    exact hvariables.2 fun c hc d hd hne f hf g hg hcontinues =>
      hapart c hc d hd hne f hf g hg (dynamicArrayName_eq_iff.2 (.inl hcontinues))

/-- In the getter of the deck two arrays have one name, and so have two variables for the panels. -/
theorem not_nodup_scopes_deck :
    let s := deck.inFile [] (.ofString "/module/Deck.h") true
    let code := sourceCode deck s "Deck.h"
    (∀ c ∈ s.classes, (c.fields.map Field.name).Nodup ∧
      ∀ f ∈ c.fields, f.name = "Class" ∨ f.name = "rows") ∧
    (∃ c ∈ plainClasses s, ∃ body ∈ bodiesAll (classGetter c.type) code,
      ¬ (arrayNames body).Nodup) ∧
    ¬ (dynamicNames (plainClasses s)).Nodup := by
  intro s code
  have hkeys : ((plainClasses s).map ClassRecord.qualifiedName).Nodup := by decide +kernel
  have hdeck : wideDeck ∈ plainClasses s := by decide +kernel
  have hbody : classBody deck wideDeck ∈ bodiesAll (classGetter wideDeck.type) code := by
    rw [bodiesAll_classGetter hkeys hdeck]
    exact List.mem_singleton_self _
  have hnames : ∀ f ∈ wideDeck.fields, ' ' ∉ f.name.toList := by decide
  have hclash : ¬ (arrayNames (classBody deck wideDeck)).Nodup := by
    rw [arrayNames_classBody hnames]
    decide +kernel
  exact ⟨by decide +kernel, ⟨wideDeck, hdeck, _, hbody, hclash⟩, by decide +kernel⟩

end Introspect.Emission
