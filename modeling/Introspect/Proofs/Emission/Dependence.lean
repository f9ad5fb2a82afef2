import Introspect.Emission.FileCode
import Introspect.Proofs.Except
import Introspect.Proofs.Relation
import Introspect.Proofs.Registry.WellFormed

/-! What the code generated for a file depends on: of the records in the file and of their bases
only what the code may show, and nothing of any other record. -/
namespace Introspect

/-- The system can know the places of all records that are marked for reflection. -/
def Registry.Known (r : Registry) : Prop :=
  (r.select fun m => m.isReflected && m.file.hasNull).any = false

instance (r : Registry) : Decidable r.Known := inferInstanceAs (Decidable (_ = _))

namespace Emission

/-! ## What may be shown -/

/-- Of metadata the tags and the attributes that live at run time, in order. -/
structure ShownNotes where
  tags : List Note
  attributes : List (String × Note)
deriving DecidableEq

structure ShownField where
  name : String
  type : CppType
  notes : ShownNotes
deriving DecidableEq

structure ShownBase where
  type : CppType
  isAbstract : Bool
  isReflected : Bool
deriving DecidableEq

/-- Of a class also what may be shown of each of its bases, if that is registered. -/
structure ShownClass where
  type : CppType
  key : ClassKey
  file : Path
  bodyLine : Given (Option Int)
  fields : List ShownField
  notes : ShownNotes
  baseNames : List (Given String)
  bases : List (Option ShownBase)
deriving DecidableEq

structure ShownEnum where
  type : CppType
  values : List (Given String × Given Int)
  notes : ShownNotes
deriving DecidableEq

structure ShownFunction where
  id : QualifiedName
  result : TypeUse
  arguments : List TypeUse
  notes : ShownNotes
deriving DecidableEq

/-- Of aliases only whether there are any. -/
structure Shown where
  classes : List ShownClass
  enums : List ShownEnum
  functions : List ShownFunction
  noAliases : Bool
deriving DecidableEq

def shownNotes (m : Metadata) : ShownNotes := ⟨m.runtimeTags, m.runtimeAttributes⟩

def shownField (f : Field) : ShownField := ⟨f.name, f.use.type, shownNotes f.metadata⟩

def shownBase (b : ClassRecord) : ShownBase := ⟨b.type, b.isAbstract, b.metadata.isReflected⟩

def shownClass (r : Registry) (c : ClassRecord) : ShownClass where
  type := c.type
  key := c.key
  file := c.metadata.file
  bodyLine := c.bodyLine
  fields := c.fields.map shownField
  notes := shownNotes c.metadata
  baseNames := c.bases
  bases := c.baseNames.map fun b => (r.classes.find? b).map shownBase

def shownEnum (e : EnumRecord) : ShownEnum :=
  ⟨e.type, e.values.map fun v => (v.name, v.value), shownNotes e.metadata⟩

def shownFunction (f : FunctionRecord) : ShownFunction :=
  ⟨f.id, f.result, f.arguments, shownNotes f.metadata⟩

/-- What code generated for a file may show: the records of the file that are marked for
reflection, in order. -/
def shown (cwd : List String) (r : Registry) (input : Path) : Shown :=
  let s := r.inFile cwd input true
  ⟨s.classes.map (shownClass r), s.enums.map shownEnum, s.functions.map shownFunction,
    s.aliases.isEmpty⟩

/-! ## One record -/

section lists
variable {α β γ δ : Type} {l : List α} {l' : List β} {f : α → γ} {g : β → γ}

private theorem map_congr_shown {p : α → δ} {q : β → δ} (h : l.map f = l'.map g)
    (hpq : ∀ a b, f a = g b → p a = q b) : l.map p = l'.map q :=
  map_eq_map_iff_forall₂.2 ((map_eq_map_iff_forall₂.1 h).imp hpq)

private theorem flatMap_congr_shown {p : α → List δ} {q : β → List δ} (h : l.map f = l'.map g)
    (hpq : ∀ a b, f a = g b → p a = q b) : l.flatMap p = l'.flatMap q := by
  rw [List.flatMap_def, List.flatMap_def, map_congr_shown h hpq]

private theorem forM_congr_shown {p : α → Except Failure Unit} {q : β → Except Failure Unit}
    (h : l.map f = l'.map g) (hpq : ∀ a b, f a = g b → p a = q b) : l.forM p = l'.forM q := by
  induction map_eq_map_iff_forall₂.1 h with
  | nil => rfl
  | @cons a b l l' hab hl ih =>
    have htail : l.forM p = l'.forM q := ih (by simp at h; exact h.2)
    calc (a :: l).forM p = (p a >>= fun _ => l.forM p) := rfl
      _ = (q b >>= fun _ => l'.forM q) := by rw [hpq a b hab, htail]

end lists

variable {r₁ r₂ : Registry}

theorem metadataCode_congr {m n : Metadata} (h : shownNotes m = shownNotes n) (name : String) :
    metadataCode name m = metadataCode name n := by
  have htags : m.runtimeTags = n.runtimeTags := congrArg ShownNotes.tags h
  have hattributes : m.runtimeAttributes = n.runtimeAttributes := congrArg ShownNotes.attributes h
  rw [metadataCode, metadataCode, htags, hattributes]

theorem requireTexts_congr {m n : Metadata} (h : shownNotes m = shownNotes n) :
    requireTexts m = requireTexts n := by
  have htags : m.runtimeTags = n.runtimeTags := congrArg ShownNotes.tags h
  have hattributes : m.runtimeAttributes = n.runtimeAttributes := congrArg ShownNotes.attributes h
  rw [requireTexts, requireTexts, htags, hattributes]

section fields
variable {f g : Field} (h : shownField f = shownField g)
include h

private theorem fieldName_congr : f.name = g.name := congrArg ShownField.name h

private theorem fieldType_congr : f.use.type = g.use.type := congrArg ShownField.type h

private theorem fieldNotes_congr : shownNotes f.metadata = shownNotes g.metadata :=
  congrArg ShownField.notes h

private theorem fieldCode_congr :
    (metadataCode f.name f.metadata).code = (metadataCode g.name g.metadata).code := by
  rw [fieldName_congr h, metadataCode_congr (fieldNotes_congr h)]

private theorem fieldEntry_congr (className : String) :
    fieldEntry className f = fieldEntry className g := by
  unfold fieldEntry
  rw [fieldName_congr h, fieldType_congr h, metadataCode_congr (fieldNotes_congr h)]

end fields

/-- The bases that a class has in a registry, as far as they may be shown. -/
theorem map_directBases (r : Registry) (c : ClassRecord) :
    (r.directBases c).map shownBase = (shownClass r c).bases.reduceOption := by
  rw [Registry.directBases, List.map_filterMap]
  exact (List.filterMap_map (f := fun b => (r.classes.find? b).map shownBase) (g := id)).symm

section classes
variable {c d : ClassRecord} (h : shownClass r₁ c = shownClass r₂ d)
include h

private theorem classType_congr : c.type = d.type := congrArg ShownClass.type h

private theorem classKey_congr : c.key = d.key := congrArg ShownClass.key h

private theorem classFile_congr : c.metadata.file = d.metadata.file := congrArg ShownClass.file h

private theorem bodyLine_congr : c.bodyLine = d.bodyLine := congrArg ShownClass.bodyLine h

private theorem classFields_congr : c.fields.map shownField = d.fields.map shownField :=
  congrArg ShownClass.fields h

private theorem classNotes_congr : shownNotes c.metadata = shownNotes d.metadata :=
  congrArg ShownClass.notes h

private theorem bases_congr : c.bases = d.bases := congrArg ShownClass.baseNames h

private theorem directBases_congr :
    (r₁.directBases c).map shownBase = (r₂.directBases d).map shownBase := by
  rw [map_directBases, map_directBases, h]

private theorem superClass?_congr :
    (superClass? r₁ c).map ClassRecord.type = (superClass? r₂ d).map ClassRecord.type := by
  have hshown : ∀ (r : Registry) (c : ClassRecord), (superClass? r c).map ClassRecord.type =
      ((((r.directBases c).map shownBase).find? fun b => !b.isAbstract).map ShownBase.type).filter
        CppType.isInstantiable := by
    intro r c
    rw [List.find?_map, Option.map_map, superClass?]
    have hfind : (r.directBases c).find? ((fun b : ShownBase => !b.isAbstract) ∘ shownBase) =
        (r.directBases c).find? fun b => !b.isAbstract := rfl
    rw [hfind]
    cases (r.directBases c).find? fun b => !b.isAbstract with
    | none => rfl
    | some b => cases hb : b.type.isInstantiable <;> simp [shownBase, Option.filter, hb]
  rw [hshown, hshown, directBases_congr h]

private theorem registeredBases_congr (p : CppType → String) :
    (registeredBases r₁ c).map (fun b => p b.type) =
      (registeredBases r₂ d).map fun b => p b.type := by
  have hshown : ∀ (r : Registry) (c : ClassRecord), (registeredBases r c).map (fun b => p b.type) =
      (((r.directBases c).map shownBase).filter
        fun b => b.type.isInstantiable && b.isReflected).map fun b => p b.type := by
    intro r c
    rw [List.filter_map, List.map_map]
    rfl
  rw [hshown, hshown, directBases_congr h]

private theorem declareClass_congr : declareClass c = declareClass d := by
  rw [declareClass, declareClass, Code.declareClass, Code.declareClass,
    ClassRecord.forwardDeclaration, ClassRecord.forwardDeclaration, classType_congr h,
    classKey_congr h]

private theorem bodyMacroName_congr : bodyMacroName c = bodyMacroName d := by
  rw [bodyMacroName, bodyMacroName, classFile_congr h, bodyLine_congr h]

private theorem accessors_congr : accessors r₁ c = accessors r₂ d := by
  have hsuper := superClass?_congr h
  rw [accessors, accessors, classType_congr h, classKey_congr h]
  cases h₁ : superClass? r₁ c <;> cases h₂ : superClass? r₂ d <;> simp_all

private theorem bodyMacro_congr : bodyMacro r₁ c = bodyMacro r₂ d := by
  rw [bodyMacro, bodyMacro, ClassRecord.qualifiedName, ClassRecord.qualifiedName, classType_congr h,
    bodyMacroName_congr h, accessors_congr h]

private theorem classBody_congr : classBody r₁ c = classBody r₂ d := by
  have hfields := classFields_congr h
  have hlength : c.fields.length = d.fields.length := by
    rw [← List.length_map shownField, hfields, List.length_map]
  have hempty : c.fields.isEmpty = d.fields.isEmpty := by
    rw [← List.isEmpty_map (f := shownField), hfields, List.isEmpty_map]
  have hcode := flatMap_congr_shown hfields fun _ _ => fieldCode_congr
  have hentries := map_congr_shown hfields fun _ _ hf => fieldEntry_congr hf d.type.id.globalText
  have hbases := registeredBases_congr h fun t => "&GetReflectedClass<" ++ t.id.globalText ++ ">()"
  unfold classBody
  dsimp only
  rw [classType_congr h, metadataCode_congr (classNotes_congr h), hempty, hlength, hcode, hentries,
    hbases]

private theorem defineClass_congr : defineClass r₁ c = defineClass r₂ d := by
  rw [defineClass, defineClass, classType_congr h, classBody_congr h]

private theorem dynamicArrays_congr :
    (c.fields.filter fun f => isDynamicArray f.use.type).map (dynamicArray c) =
      (d.fields.filter fun f => isDynamicArray f.use.type).map (dynamicArray d) := by
  have hfilter := congrArg (List.filter fun f => isDynamicArray f.type) (classFields_congr h)
  rw [List.filter_map, List.filter_map] at hfilter
  refine map_congr_shown hfilter fun f g hf => ?_
  unfold dynamicArray dynamicArrayName
  rw [classType_congr h, fieldName_congr hf, fieldType_congr hf]

/-- Nothing but bases that cannot be looked up makes the question for them fail. -/
private theorem askBases_congr :
    (discard (r₁.askBases c false) : Except Failure Unit) = discard (r₂.askBases d false) := by
  have hkeys : Registry.hasKeys c = Registry.hasKeys d := by
    rw [Registry.hasKeys, Registry.hasKeys, bases_congr h]
  unfold Registry.askBases
  cases hd : Registry.hasKeys d with
  | false => simp [hkeys, hd, discard]
  | true =>
    simp only [hkeys, hd, Bool.false_eq_true, if_false, List.all_cons, List.all_nil, Bool.and_true,
      if_true]
    rfl

private theorem requireClass_congr :
    (do
      requireTexts c.metadata
      c.fields.forM fun f => requireTexts f.metadata
      discard (r₁.askBases c false)) =
    (do
      requireTexts d.metadata
      d.fields.forM fun f => requireTexts f.metadata
      discard (r₂.askBases d false)) := by
  have hfields := forM_congr_shown (classFields_congr h) fun _ _ hf =>
    requireTexts_congr (fieldNotes_congr hf)
  rw [requireTexts_congr (classNotes_congr h), hfields, askBases_congr h]

end classes

section enums
variable {e f : EnumRecord} (h : shownEnum e = shownEnum f)
include h

private theorem enumType_congr : e.type = f.type := congrArg ShownEnum.type h

private theorem enumNotes_congr : shownNotes e.metadata = shownNotes f.metadata :=
  congrArg ShownEnum.notes h

private theorem enumerators_congr (p : Given String → Given Int → String) :
    e.values.map (fun v => p v.name v.value) = f.values.map fun v => p v.name v.value := by
  have hvalues : e.values.map (fun v => (v.name, v.value)) =
      f.values.map fun v => (v.name, v.value) := congrArg ShownEnum.values h
  exact map_congr_shown hvalues fun a b hab =>
    congrArg₂ p (congrArg Prod.fst hab) (congrArg Prod.snd hab)

private theorem declareEnum_congr : declareEnum e = declareEnum f := by
  rw [declareEnum, declareEnum, Code.declareEnum, Code.declareEnum, enumType_congr h]

private theorem defineEnum_congr : defineEnum e = defineEnum f := by
  have hitems := enumerators_congr h fun name value =>
    "EnumValueInfo(" ++ literal name.text ++ ", " ++ value.text ++ "),"
  have hlength : e.values.length = f.values.length := by
    rw [← List.length_map (fun v : Enumerator =>
      "EnumValueInfo(" ++ literal v.name.text ++ ", " ++ v.value.text ++ "),"), hitems,
      List.length_map]
  unfold defineEnum
  dsimp only
  rw [enumType_congr h, metadataCode_congr (enumNotes_congr h), hlength, hitems]

end enums

section functions
variable {f g : FunctionRecord} (h : shownFunction f = shownFunction g)
include h

private theorem functionId_congr : f.id = g.id := congrArg ShownFunction.id h

private theorem result_congr : f.result = g.result := congrArg ShownFunction.result h

private theorem arguments_congr : f.arguments = g.arguments := congrArg ShownFunction.arguments h

private theorem functionNotes_congr : shownNotes f.metadata = shownNotes g.metadata :=
  congrArg ShownFunction.notes h

private theorem declareFunction_congr : declareFunction f = declareFunction g := by
  rw [declareFunction, declareFunction, Code.declareFunction, Code.declareFunction, functionGetter,
    functionGetter, FunctionRecord.declaration, FunctionRecord.declaration,
    FunctionRecord.argumentText, FunctionRecord.argumentText, functionId_congr h, result_congr h,
    arguments_congr h]

private theorem defineFunction_congr : defineFunction f = defineFunction g := by
  unfold defineFunction functionGetter FunctionRecord.qualifiedName
  dsimp only
  rw [functionId_congr h, result_congr h, arguments_congr h,
    metadataCode_congr (functionNotes_congr h)]

end functions

/-! ## The whole file -/

section selection
variable {s₁ s₂ : Selection}
  (hclasses : s₁.classes.map (shownClass r₁) = s₂.classes.map (shownClass r₂))
  (henums : s₁.enums.map shownEnum = s₂.enums.map shownEnum)
  (hfunctions : s₁.functions.map shownFunction = s₂.functions.map shownFunction)

include hclasses in
/-- Which classes code is written for depends on what may be shown of them. -/
private theorem filter_classes_congr (keep : ShownClass → Bool) :
    (s₁.classes.filter fun c => keep (shownClass r₁ c)).map (shownClass r₁) =
      (s₂.classes.filter fun c => keep (shownClass r₂ c)).map (shownClass r₂) := by
  have hfilter := congrArg (List.filter keep) hclasses
  rwa [List.filter_map, List.filter_map] at hfilter

include hclasses henums hfunctions

private theorem headerCode_congr : headerCode r₁ s₁ = headerCode r₂ s₂ := by
  have hmarked := filter_classes_congr hclasses fun c => c.bodyLine.isPresent
  have hmacros := flatMap_congr_shown hmarked fun _ _ => bodyMacro_congr
  have hdeclared := flatMap_congr_shown hclasses fun _ _ => declareClass_congr
  have henums := flatMap_congr_shown henums fun _ _ => declareEnum_congr
  have hfunctions := flatMap_congr_shown hfunctions fun _ _ => declareFunction_congr
  unfold headerCode
  rw [hdeclared, henums, hfunctions]
  exact congrArg _ hmacros

private theorem sourceCode_congr (path : String) :
    sourceCode r₁ s₁ path = sourceCode r₂ s₂ path := by
  have hdefined := filter_classes_congr hclasses fun c => !c.type.isTemplated
  have hclasses := flatMap_congr_shown hdefined fun _ _ => defineClass_congr
  have henums := flatMap_congr_shown henums fun _ _ => defineEnum_congr
  have hfunctions := flatMap_congr_shown hfunctions fun _ _ => defineFunction_congr
  have harrays := flatMap_congr_shown hdefined fun _ _ => dynamicArrays_congr
  unfold sourceCode
  dsimp only
  rw [henums, hfunctions]
  simp only [shownClass] at hclasses harrays
  rw [hclasses, harrays]

private theorem requireWritable_congr : requireWritable r₁ s₁ = requireWritable r₂ s₂ := by
  have hmarked := filter_classes_congr hclasses fun c => c.bodyLine.isPresent
  have hdefined := filter_classes_congr hclasses fun c => !c.type.isTemplated
  have hasked := forM_congr_shown hmarked fun _ _ => askBases_congr
  have hclasses := forM_congr_shown hdefined fun _ _ => requireClass_congr
  have henums := forM_congr_shown henums fun _ _ h => requireTexts_congr (enumNotes_congr h)
  have hfunctions := forM_congr_shown hfunctions fun _ _ h =>
    requireTexts_congr (functionNotes_congr h)
  unfold requireWritable
  rw [henums, hfunctions]
  simp only [shownClass] at hasked hclasses
  rw [hasked, hclasses]

end selection

variable {cwd : List String} {moduleDirectory output input : Path}

private theorem fileCode_congr (h : shown cwd r₁ input = shown cwd r₂ input) :
    fileCode cwd r₁ moduleDirectory output input =
      fileCode cwd r₂ moduleDirectory output input := by
  have hclasses := congrArg Shown.classes h
  have henums := congrArg Shown.enums h
  have hfunctions := congrArg Shown.functions h
  have hany : (r₁.inFile cwd input true).any = (r₂.inFile cwd input true).any := by
    have hshown : ∀ r, (r.inFile cwd input true).any =
        !((shown cwd r input).classes.isEmpty && (shown cwd r input).enums.isEmpty &&
          (shown cwd r input).noAliases && (shown cwd r input).functions.isEmpty) := by
      intro r
      simp [shown, Selection.any]
    rw [hshown, hshown, h]
  unfold fileCode
  dsimp only
  rw [hany, headerCode_congr hclasses henums hfunctions,
    sourceCode_congr hclasses henums hfunctions]

/-! ## Paths that the system cannot know -/

private theorem any_select_eq_false {r : Registry} {keep : Metadata → Bool} :
    (r.select keep).any = false ↔
      (r.select keep) = ⟨[], [], [], []⟩ := by
  simp [Selection.any, Registry.select, and_assoc]

private theorem any_select_mono {r : Registry} {keep keep' : Metadata → Bool}
    (h : ∀ m, keep m = true → keep' m = true) (hany : (r.select keep').any = false) :
    (r.select keep).any = false := by
  simp only [Selection.any, Registry.select, Bool.not_eq_false', Bool.and_eq_true,
    List.isEmpty_iff, List.filter_eq_nil_iff] at hany ⊢
  obtain ⟨⟨⟨hclasses, henums⟩, haliases⟩, hfunctions⟩ := hany
  exact ⟨⟨⟨fun c hc hk => hclasses c hc (h _ hk), fun e he hk => henums e he (h _ hk)⟩,
    fun a ha hk => haliases a ha (h _ hk)⟩, fun f hf hk => hfunctions f hf (h _ hk)⟩

theorem askFile_of_known {r : Registry} (hknown : r.Known) (hinput : input.hasNull = false) :
    r.askFile cwd input true = .ok (r.inFile cwd input true) := by
  have hunknown : (r.select fun m =>
      (!true || m.isReflected) && (input.hasNull || m.file.hasNull)).any = false := by
    rw [hinput]
    exact hknown
  rw [Registry.askFile, hunknown]
  rfl

theorem generate_of_not_known {r : Registry} (hknown : ¬ r.Known) :
    generate cwd r moduleDirectory output input = .error .nullByte := by
  have hunknown : (r.select fun m =>
      (!true || m.isReflected) && (input.hasNull || m.file.hasNull)).any = true := by
    by_contra hany
    refine hknown (any_select_mono (fun m hm => ?_) (Bool.eq_false_of_not_eq_true hany))
    rw [Bool.and_eq_true] at hm
    simp [hm.1, hm.2]
  rw [generate, Registry.askFile, hunknown]
  rfl

/-- Nothing is generated for a path that the system cannot know. -/
theorem generate_of_hasNull (r : Registry) (hinput : input.hasNull = true) :
    generate cwd r moduleDirectory output input = .error .nullByte := by
  unfold generate Registry.askFile
  dsimp only
  split
  · rfl
  next hany =>
  have hnone : r.inFile cwd input true = ⟨[], [], [], []⟩ := by
    refine any_select_eq_false.1
      (any_select_mono (fun m hm => ?_) (Bool.eq_false_of_not_eq_true hany))
    rw [hinput, Bool.true_or, Bool.and_true]
    exact (Bool.and_eq_true_iff.1 hm).1
  rw [hnone]
  simp [requireWritable, Path.requireKnown, hinput]
  rfl

/-! ## Records that code can be written for -/

private theorem forM_eq_ok {α : Type} {f : α → Except Failure Unit} {l : List α}
    (h : ∀ a ∈ l, f a = .ok ()) : l.forM f = .ok () := by
  induction l with
  | nil => rfl
  | cons a l ih =>
    calc (a :: l).forM f = (f a >>= fun _ => l.forM f) := rfl
      _ = .ok () := by rw [h a (by simp), ok_bind, ih fun b hb => h b (by simp [hb])]

theorem requireTexts_of_wellFormed {numbers : Int → Prop} {m : Metadata}
    (hm : m.WellFormed numbers) : requireTexts m = .ok () := by
  have hproper : ∀ n : Note, n.value.IsProper → n.value.proper?.isSome = true := by
    rintro n ⟨s, hs⟩
    rw [hs]
    rfl
  refine if_pos (List.all_eq_true.2 fun n hn => hproper n ?_)
  rcases List.mem_append.1 hn with hn | hn
  · exact hm.tags n (List.mem_filter.1 hn).1
  · obtain ⟨e, he, rfl⟩ := List.mem_map.1 hn
    exact hm.attributes e (List.mem_filter.1 he).1

theorem askBases_of_wellFormed {numbers : Int → Prop} (r : Registry) {c : ClassRecord}
    (hc : c.WellFormed numbers) : discard (r.askBases c false) = Except.ok () := by
  have hkeys : Registry.hasKeys c = true := by
    refine List.all_eq_true.2 fun b hb => ?_
    obtain ⟨s, rfl⟩ := hc.bases b hb
    rfl
  simp only [Registry.askBases, hkeys, Bool.false_eq_true, if_false, List.all_cons, List.all_nil,
    Bool.and_true, if_true]
  rfl

theorem requireWritable_of_wellFormed {numbers : Int → Prop} {r : Registry}
    (hr : r.WellFormed numbers) : requireWritable r (r.inFile cwd input true) = .ok () := by
  have hclasses : ∀ c ∈ (r.inFile cwd input true).classes, c.WellFormed numbers :=
    fun c hc => hr.classes c (List.mem_filter.1 hc).1
  have hasked := forM_eq_ok (l := (r.inFile cwd input true).classes.filter (·.bodyLine.isPresent))
    fun c hc => askBases_of_wellFormed r (hclasses c (List.mem_filter.1 hc).1)
  have henums := forM_eq_ok (l := (r.inFile cwd input true).enums) fun e he =>
    requireTexts_of_wellFormed (hr.enums e (List.mem_filter.1 he).1).metadata
  have hfunctions := forM_eq_ok (l := (r.inFile cwd input true).functions) fun f hf =>
    requireTexts_of_wellFormed (hr.functions f (List.mem_filter.1 hf).1).metadata
  rw [requireWritable, hasked, henums, hfunctions, ok_bind, ok_bind]
  refine bind_eq_ok_iff.2 ⟨(), forM_eq_ok fun c hc => ?_, rfl⟩
  have hc := hclasses c (List.mem_filter.1 hc).1
  have hfields := forM_eq_ok (l := c.fields) fun f hf =>
    requireTexts_of_wellFormed (hc.fields f hf).metadata
  rw [requireTexts_of_wellFormed hc.metadata, ok_bind, hfields, ok_bind,
    askBases_of_wellFormed r hc]

/-- Records of proper values at known places stop no generation. -/
theorem generate_of_wellFormed {numbers : Int → Prop} {r : Registry} (hr : r.WellFormed numbers)
    (hknown : r.Known) (hpaths : ∀ p ∈ [input, moduleDirectory, output], p.hasNull = false) :
    generate cwd r moduleDirectory output input =
      .ok (fileCode cwd r moduleDirectory output input) := by
  rw [generate, askFile_of_known hknown (hpaths input (by simp)), ok_bind,
    requireWritable_of_wellFormed hr, ok_bind,
    forM_eq_ok fun p hp => by rw [Path.requireKnown, hpaths p hp]; rfl, ok_bind]
  rfl

/-! ## What generated code depends on -/

/-- Two registries that agree on whether the places of all records marked for reflection can be
known, and on what may be shown of the records of a file, have the same generated for that file.
If all values are proper, that are files and no failure. -/
theorem generate_eq_of_shown_eq (cwd : List String) (r₁ r₂ : Registry)
    (moduleDirectory output input : Path) (hknown : r₁.Known ↔ r₂.Known)
    (hshown : shown cwd r₁ input = shown cwd r₂ input) :
    generate cwd r₁ moduleDirectory output input = generate cwd r₂ moduleDirectory output input ∧
      (r₁.WellFormed (fun _ => True) → r₁.Known →
        (∀ p ∈ [input, moduleDirectory, output], p.hasNull = false) →
        ∃ files, generate cwd r₁ moduleDirectory output input = .ok files ∧
          generate cwd r₂ moduleDirectory output input = .ok files) := by
  have hsame : generate cwd r₁ moduleDirectory output input =
      generate cwd r₂ moduleDirectory output input := by
    by_cases hinput : input.hasNull = true
    · rw [generate_of_hasNull r₁ hinput, generate_of_hasNull r₂ hinput]
    by_cases hplaces : r₁.Known
    · have hwritable : requireWritable r₁ (r₁.inFile cwd input true) =
          requireWritable r₂ (r₂.inFile cwd input true) :=
        requireWritable_congr (congrArg Shown.classes hshown) (congrArg Shown.enums hshown)
          (congrArg Shown.functions hshown)
      rw [generate, generate, askFile_of_known hplaces (Bool.eq_false_of_not_eq_true hinput),
        askFile_of_known (hknown.1 hplaces) (Bool.eq_false_of_not_eq_true hinput), ok_bind, ok_bind,
        hwritable, fileCode_congr hshown]
    · rw [generate_of_not_known hplaces, generate_of_not_known (hplaces ∘ hknown.2)]
  refine ⟨hsame, fun hr hplaces hpaths => ⟨_, generate_of_wellFormed hr hplaces hpaths, ?_⟩⟩
  rw [← hsame, generate_of_wellFormed hr hplaces hpaths]

/-- A class of actors with some fields, and a player with whatever notes besides the one tag that
lives at run time. -/
def game (notes : List Note) (comment : Option String) (fields : List Field)
    (others : List ClassRecord) : Registry :=
  let actor : ClassRecord := ⟨.plain ⟨"Actor", ""⟩ .record,
    { Metadata.bare (.ofString "/module/Actor.h") 3 with reflected := true }, .classKey, false,
    fields, [], [], .proper (some 4)⟩
  let player : ClassRecord := ⟨.plain ⟨"Player", "game"⟩ .record,
    { Metadata.bare (.ofString "/module/Player.h") 7 with
      reflected := true, tags := ⟨"saved", .runtime⟩ :: notes, comment := .proper comment },
    .classKey, false,
    [⟨"health", ⟨.plain ⟨"int", ""⟩ .int32, false⟩, .bare (.ofString "/module/Player.h") 10⟩], [],
    ["Actor"], .proper (some 8)⟩
  { Registry.empty .crc32 with classes := .ofList ([actor, player] ++ others) }

/-- A class that is marked for reflection, at some place. -/
def rock (place : String) : ClassRecord :=
  ⟨.plain ⟨"Rock", ""⟩ .record, { Metadata.bare (.ofString place) 1 with reflected := true },
    .structKey, false, [], [], [], .proper none⟩

private theorem wellFormed_game : (game [] none [] []).WellFormed fun _ => True := by
  have hnone {α : Type} {p : α → Prop} : ∀ a ∈ ([] : List α), p a := List.forall_mem_nil p
  have hmetadata : ∀ place (line : Int) (reflected : Bool) tags, (∀ n ∈ tags, n.value.IsProper) →
      ({ Metadata.bare (.ofString place) line with reflected := reflected, tags := tags } :
        Metadata).WellFormed fun _ => True := fun place line reflected tags htags =>
    ⟨Path.normal_ofString place, ⟨line, rfl, trivial⟩, ⟨reflected, rfl⟩, htags, hnone, ⟨none, rfl⟩⟩
  refine ⟨hnone, fun c hc => ?_, hnone, hnone, hnone⟩
  obtain rfl | hc := List.mem_cons.1 hc
  · exact ⟨hmetadata "/module/Actor.h" 3 true [] hnone, ⟨false, rfl⟩, hnone, hnone, hnone,
      ⟨some 4, rfl, by simp⟩⟩
  obtain rfl := List.mem_singleton.1 hc
  refine ⟨hmetadata "/module/Player.h" 7 true [⟨"saved", .runtime⟩] fun n hn => ?_, ⟨false, rfl⟩,
    fun f hf => ?_, hnone, fun b hb => ?_, ⟨some 8, rfl, by simp⟩⟩
  · obtain rfl := List.mem_singleton.1 hn
    exact ⟨"saved", rfl⟩
  · obtain rfl := List.mem_singleton.1 hf
    exact ⟨⟨false, rfl⟩, hmetadata "/module/Player.h" 10 false [] hnone⟩
  · obtain rfl := List.mem_singleton.1 hb
    exact ⟨"Actor", rfl⟩

/-- A game to which a comment, a note for compile time, a field of the base and another class were
added has the same generated for the player. -/
theorem generate_eq_game :
    let before := game [] none [] []
    let after := game [⟨"draft", .compile⟩] (some "Who plays.")
      [⟨"age", ⟨.plain ⟨"int", ""⟩ .int32, false⟩, .bare (.ofString "/module/Actor.h") 5⟩]
      [rock "/module/Rock.h"]
    let input : Path := .ofString "/module/Player.h"
    before.classes ≠ after.classes ∧ (before.Known ↔ after.Known) ∧
      shown [] before input = shown [] after input ∧
      ∃ files, generate [] before (.ofString "/module") (.ofString "/generated") input = .ok files ∧
        generate [] after (.ofString "/module") (.ofString "/generated") input = .ok files := by
  intro before after input
  have hknown : before.Known ∧ after.Known := by decide +kernel
  have hshown : shown [] before input = shown [] after input := by decide +kernel
  refine ⟨by decide +kernel, iff_of_true hknown.1 hknown.2, hshown, ?_⟩
  exact (generate_eq_of_shown_eq [] before after (.ofString "/module") (.ofString "/generated")
    input (iff_of_true hknown.1 hknown.2) hshown).2 wellFormed_game hknown.1 (by decide +kernel)

/-- A class whose place cannot be known stops what is generated for other files. -/
theorem generate_ne_rock :
    let rocks : Registry :=
      { Registry.empty .crc32 with classes := .ofList [rock "/module/\x00.h"] }
    let input : Path := .ofString "/module/Player.h"
    shown [] rocks input = shown [] (.empty .crc32) input ∧
      generate [] rocks (.ofString "/module") (.ofString "/generated") input =
        .error .nullByte ∧
      generate [] (.empty .crc32) (.ofString "/module") (.ofString "/generated") input =
        .ok [⟨.ofString "/generated/Player.reflgen.h", ""⟩,
          ⟨.ofString "/generated/Player.reflgen.cpp", ""⟩] := by
  intro rocks input
  refine ⟨by decide +kernel, by decide +kernel, by decide +kernel⟩

end Emission
end Introspect
