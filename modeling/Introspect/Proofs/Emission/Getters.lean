import Introspect.Emission.FileCode
import Introspect.Proofs.Emission.Lines
import Introspect.Proofs.Except

/-! The getters that the header and the source of a file specialise: one list for both. -/
namespace Introspect.Emission
open Code (linesAll AllLines)

/-- What a specialisation begins with. -/
def specializationHead : String := "template <>"

@[simp] theorem lines_specialization : specialization.lines "" = [specializationHead] := by decide

/-- The heads of the functions that are specialised in some lines, in order. -/
def specializations : List String → List String
  | l :: g :: ls =>
    if unindent l = specializationHead then unindent g :: specializations (g :: ls)
    else specializations (g :: ls)
  | _ => []

/-- The getters of what is marked for reflection, templates left out. -/
def getters (s : Selection) : List String :=
  (s.classes.filter fun c => !c.type.isTemplated).flatMap
      (fun c => [typeGetter c.type, classGetter c.type]) ++
    s.enums.flatMap (fun e => [typeGetter e.type, enumGetter e.type]) ++
    s.functions.flatMap fun f => [functionGetter f]

/-! ## Lines that begin no specialisation -/

/-- The line begins no specialisation. -/
def Plain (l : String) : Prop := unindent l ≠ specializationHead

instance (l : String) : Decidable (Plain l) := inferInstanceAs (Decidable (_ ≠ _))

private theorem dropWhile_of_unindent {l : String} (h : unindent l = specializationHead) :
    l.toList.dropWhile (· == '\t') = specializationHead.toList := by
  rw [← h, unindent, String.toList_ofList]

theorem plain_of_front {l : String} {c : Char} (hl : l.toList.head? = some c) (htab : c ≠ '\t')
    (hc : c ≠ 't') : Plain l := by
  intro hhead
  have htext := dropWhile_of_unindent hhead
  obtain ⟨r, hr⟩ := List.head?_eq_some_iff.1 hl
  rw [hr, List.dropWhile_cons_of_neg (by simpa using htab)] at htext
  exact hc (List.cons.inj htext).1

theorem plain_of_back (front : String) {s : String} (hs : s.toList.getLast?.any (· != '>')) :
    Plain (front ++ s) := by
  intro hhead
  obtain ⟨c, hlast, hc⟩ := (Option.any_eq_true _ _).1 hs
  obtain ⟨tabs, htabs⟩ := List.dropWhile_suffix (l := (front ++ s).toList) (· == '\t')
  have hhead' : specializationHead.toList.getLast? = some '>' := by decide
  have hend := congrArg List.getLast? htabs
  rw [dropWhile_of_unindent hhead, List.getLast?_append, hhead', Option.some_or,
    getLast?_toList_append front hlast] at hend
  cases hend
  cases hc

/-! ## Reading specialisations off lines -/

/-- Whatever follows, these getters are read off the lines. -/
def Reads (ls gs : List String) : Prop :=
  ∀ rest, specializations (ls ++ rest) = gs ++ specializations rest

variable {ls ms gs hs : List String} {l g : String}

theorem reads_nil : Reads [] [] := fun _ => rfl

theorem Reads.append (h : Reads ls gs) (h' : Reads ms hs) : Reads (ls ++ ms) (gs ++ hs) := by
  intro rest
  rw [List.append_assoc, h, h', List.append_assoc]

theorem Reads.cons (hl : Plain l) (h : Reads ls gs) : Reads (l :: ls) gs := by
  intro rest
  rw [← h rest, List.cons_append]
  cases ls ++ rest with
  | nil => rfl
  | cons m ms => exact if_neg hl

theorem reads_of_plain (h : ∀ l ∈ ls, Plain l) : Reads ls [] := by
  induction ls with
  | nil => exact reads_nil
  | cons l ls ih => exact .cons (h l (by simp)) (ih fun k hk => h k (by simp [hk]))

/-- The line behind the beginning of a specialisation is a getter. -/
theorem reads_specialization (hg : Plain g) :
    Reads [specializationHead, g] [unindent g] := by
  intro rest
  have hhead : unindent specializationHead = specializationHead := by decide
  calc specializations (specializationHead :: g :: rest)
      = unindent g :: specializations (g :: rest) := if_pos hhead
    _ = unindent g :: specializations rest := congrArg _ (Reads.cons hg reads_nil rest)

theorem Reads.flatMap {α : Type} {l : List α} {f g : α → List String}
    (h : ∀ a ∈ l, Reads (f a) (g a)) : Reads (l.flatMap f) (l.flatMap g) := by
  induction l with
  | nil => exact reads_nil
  | cons a l ih =>
    rw [List.flatMap_cons, List.flatMap_cons]
    exact (h a (by simp)).append (ih fun b hb => h b (by simp [hb]))

theorem Reads.specializations_eq (h : Reads ls gs) : specializations ls = gs := by
  simpa [specializations] using h []

theorem specializations_congr (h : ls.map unindent = ms.map unindent) :
    specializations ls = specializations ms := by
  induction ls generalizing ms with
  | nil => rw [List.map_eq_nil_iff.1 h.symm]
  | cons l ls ih =>
    obtain ⟨m, ms, rfl, hl, hls⟩ := List.map_eq_cons_iff.1 h.symm
    have hrest := ih hls.symm
    cases ls with
    | nil => rw [List.map_eq_nil_iff.1 hls]; rfl
    | cons g ls =>
      obtain ⟨k, ms, rfl, hg, -⟩ := List.map_eq_cons_iff.1 hls
      rw [specializations, specializations, hrest, hl, hg]

/-! ## Getters -/

private theorem head_getter (result function argument s : String) :
    (getter result function argument ++ s).toList.head? = some 'c' := by
  simp [getter]

private theorem plain_getter (result function argument s : String) :
    Plain (getter result function argument ++ s) :=
  plain_of_front (head_getter result function argument s) (by decide) (by decide)

private theorem unindent_getter (result function argument s : String) :
    unindent (getter result function argument ++ s) = getter result function argument ++ s := by
  obtain ⟨r, hr⟩ := List.head?_eq_some_iff.1 (head_getter result function argument s)
  rw [unindent, hr, List.dropWhile_cons_of_neg (by decide), ← hr, String.ofList_toList]

/-- The text is that of a getter. -/
def IsGetter (g : String) : Prop := ∃ result function argument, g = getter result function argument

private theorem IsGetter.reads (hg : IsGetter g) (s : String) :
    Reads [specializationHead, g ++ s] [g ++ s] := by
  obtain ⟨result, function, argument, rfl⟩ := hg
  have hreads := reads_specialization (plain_getter result function argument s)
  rwa [unindent_getter] at hreads

/-! ## Reading specialisations off code -/

variable {body : List Code}

theorem Reads.block {opener openText closeText : String} (hopener : Plain opener)
    (hopen : Plain openText) (hclose : Plain closeText) (h : Reads (linesAll "" body) gs) :
    Reads ((Code.block opener openText closeText body).lines "") gs := by
  have hclosed : ∀ l ∈ [closeText], Plain l := by simpa using hclose
  have hbody := h.append (reads_of_plain hclosed)
  rw [List.append_nil] at hbody
  simpa [Code.lines] using (hbody.cons hopen).cons hopener

theorem Reads.scope (name : String) (h : Reads (linesAll "" body) gs) :
    Reads ((Code.scope name body).lines "") gs := by
  unfold Code.scope
  split
  · exact h
  · exact h.block (plain_of_front (c := 'n') (by simp) (by decide) (by decide)) (by decide)
      (by decide)

theorem Reads.line_cons {text : String} (htext : Plain text) (h : Reads (linesAll "" body) gs) :
    Reads (linesAll "" (.line text :: body)) gs := by
  simpa [Code.lines] using h.cons htext

theorem Reads.code_cons {c : Code} (hc : Reads (c.lines "") gs) (h : Reads (linesAll "" body) hs) :
    Reads (linesAll "" (c :: body)) (gs ++ hs) := hc.append h

theorem Reads.flatMap_code {α : Type} {l : List α} {f : α → List Code} {g : α → List String}
    (h : ∀ a ∈ l, Reads (linesAll "" (f a)) (g a)) :
    Reads (linesAll "" (l.flatMap f)) (l.flatMap g) := by
  rw [Code.linesAll_flatMap]
  exact Reads.flatMap h

/-- Of items that are left out nothing is read. -/
theorem Reads.filter_code {α : Type} {l : List α} {p : α → Bool} {f : α → List Code}
    {g : α → List String} (h : ∀ a ∈ l, Reads (linesAll "" (f a)) (if p a then g a else [])) :
    Reads (linesAll "" (l.flatMap f)) ((l.filter p).flatMap g) := by
  induction l with
  | nil => exact reads_nil
  | cons a l ih =>
    have hfirst := h a (by simp)
    have hrest := ih fun b hb => h b (by simp [hb])
    rw [List.flatMap_cons, Code.linesAll_append]
    cases hp : p a with
    | false =>
      rw [hp] at hfirst
      rw [List.filter_cons_of_neg (by simp [hp])]
      exact hfirst.append hrest
    | true =>
      rw [hp] at hfirst
      rw [List.filter_cons_of_pos hp, List.flatMap_cons]
      exact hfirst.append hrest

/-! ## The header -/

private theorem isGetter_typeGetter (t : CppType) : IsGetter (typeGetter t) := ⟨_, _, _, rfl⟩

private theorem isGetter_classGetter (t : CppType) : IsGetter (classGetter t) := ⟨_, _, _, rfl⟩

private theorem isGetter_enumGetter (t : CppType) : IsGetter (enumGetter t) := ⟨_, _, _, rfl⟩

private theorem isGetter_functionGetter (f : FunctionRecord) : IsGetter (functionGetter f) :=
  ⟨_, _, _, rfl⟩

private theorem reads_declareGetters {first : String} {others : List String}
    (hfirst : IsGetter first) (hothers : ∀ g ∈ others, IsGetter g) :
    Reads ((declareGetters first others).lines "") ((first :: others).map (· ++ ";")) := by
  have hrest : Reads (linesAll "" (others.flatMap fun g =>
      [.blank, specialization, .line (g ++ ";")])) (others.flatMap fun g => [g ++ ";"]) :=
    Reads.flatMap_code fun g hg => by
      simpa using ((hothers g hg).reads ";").cons (l := "") (by decide)
  rw [List.map_cons, List.map_eq_flatMap]
  exact Reads.scope _ (by simpa using (hfirst.reads ";").append hrest)

private theorem reads_scope_line (name : String) {text : String} (h : Plain text) :
    Reads ((Code.scope name [.line text]).lines "") [] :=
  Reads.scope name (reads_of_plain (by simpa using h))

private theorem reads_declareClass (c : ClassRecord) :
    Reads (linesAll "" (declareClass c)) (if !c.type.isTemplated then
      [typeGetter c.type ++ ";", classGetter c.type ++ ";"] else []) := by
  have hdeclared : Reads ((Code.declareClass c).lines "") [] :=
    reads_scope_line _ (plain_of_back _ (s := ";") (by decide))
  rw [declareClass]
  cases htemplated : c.type.isTemplated with
  | false =>
    exact hdeclared.append ((reads_declareGetters (isGetter_typeGetter c.type)
      (by simpa using isGetter_classGetter c.type)).append reads_nil)
  | true =>
    cases hgeneric : c.type.isGeneric with
    | false => exact reads_nil
    | true => exact hdeclared.append reads_nil

private theorem reads_declareEnum (e : EnumRecord) : Reads (linesAll "" (declareEnum e))
    [typeGetter e.type ++ ";", enumGetter e.type ++ ";"] := by
  have hdeclared : Reads ((Code.declareEnum e).lines "") [] :=
    reads_scope_line _ (plain_of_back _ (s := ";") (by decide))
  exact hdeclared.append ((reads_declareGetters (isGetter_typeGetter e.type)
    (by simpa using isGetter_enumGetter e.type)).append reads_nil)

private theorem reads_declareFunction (f : FunctionRecord) :
    Reads (linesAll "" (declareFunction f)) [functionGetter f ++ ";"] := by
  have hdeclared : Reads ((Code.declareFunction f).lines "") [] :=
    reads_scope_line _ (plain_of_back _ (s := ");") (by decide))
  exact hdeclared.append ((reads_declareGetters (isGetter_functionGetter f) (by simp)).append
    reads_nil)

/-- Lines of a macro go on in the next line. -/
private theorem plain_ended (text : String) : Plain (ended "\\" text) := by
  unfold ended
  split
  · decide
  · exact plain_of_back _ (by decide)

/-- Each member that generated code gives a class is a line, and no directive. -/
theorem exists_line_of_mem_accessors {r : Registry} {c : ClassRecord} {k : Code}
    (hk : k ∈ accessors r c) : ∃ text, k = .line text ∧ text.toList.head?.any (· != '#') := by
  rw [accessors, List.mem_append, List.mem_append] at hk
  obtain (hk | hk) | hk := hk
  · cases hsuper : superClass? r c with
    | none => simp [hsuper] at hk
    | some b => exact ⟨_, by simpa [hsuper] using hk, by simp⟩
  · obtain rfl | hk := List.mem_cons.1 hk
    · exact ⟨_, rfl, by simp⟩
    · exact ⟨_, List.mem_singleton.1 hk, by simp⟩
  · split at hk
    · obtain rfl | hk := List.mem_cons.1 hk
      · exact ⟨_, rfl, by simp⟩
      obtain rfl | hk := List.mem_cons.1 hk
      · exact ⟨_, rfl, by simp⟩
      · exact ⟨_, List.mem_singleton.1 hk, by simp⟩
    · cases hk

private theorem reads_bodyMacro (r : Registry) (c : ClassRecord) :
    Reads (linesAll "" (bodyMacro r c)) [] := by
  have haccessors : ∀ l ∈ linesAll "\\" (accessors r c), Plain l := by
    intro l hl
    obtain ⟨k, hk, hl⟩ := Code.mem_linesAll.1 hl
    obtain ⟨text, rfl, -⟩ := exists_line_of_mem_accessors hk
    obtain rfl := List.mem_singleton.1 hl
    exact plain_ended text
  refine .line_cons (by decide) ?_
  refine .line_cons (plain_of_back _ (by decide)) ?_
  refine .line_cons (plain_of_back _ (by decide)) ?_
  refine .line_cons (plain_of_back _ (by decide)) ?_
  refine .code_cons (reads_of_plain ?_) ?_
  · simpa [Code.lines] using ⟨plain_ended _, plain_ended _, plain_ended "public:", haccessors⟩
  refine .line_cons (by decide) (.line_cons (by decide) ?_)
  refine .line_cons (plain_of_back _ (by decide)) ?_
  exact .line_cons (by decide) reads_nil

theorem reads_headerCode (r : Registry) (s : Selection) :
    Reads (linesAll "" (headerCode r s)) ((getters s).map (· ++ ";")) := by
  have hopening : Reads (linesAll ""
      [.line "#pragma once", .blank, .includes "CppReflStatics.h" false, .blank]) [] :=
    reads_of_plain (by decide)
  have hclasses := Reads.filter_code (l := s.classes) fun c _ => reads_declareClass c
  have henums := Reads.flatMap_code (l := s.enums) fun e _ => reads_declareEnum e
  have hfunctions := Reads.flatMap_code (l := s.functions) fun f _ => reads_declareFunction f
  have hmacros := Reads.flatMap_code (l := s.classes.filter (·.bodyLine.isPresent)) fun c _ =>
    reads_bodyMacro r c
  have hall := (((hopening.append hclasses).append henums).append hfunctions).append hmacros
  have hgetters : (getters s).map (· ++ ";") =
      (s.classes.filter fun c => !c.type.isTemplated).flatMap
          (fun c => [typeGetter c.type ++ ";", classGetter c.type ++ ";"]) ++
        s.enums.flatMap (fun e => [typeGetter e.type ++ ";", enumGetter e.type ++ ";"]) ++
        s.functions.flatMap fun f => [functionGetter f ++ ";"] := by
    simp [getters, List.map_flatMap]
  have hnone : (s.classes.filter (·.bodyLine.isPresent)).flatMap (fun _ => ([] : List String)) =
      [] := List.flatMap_eq_nil_iff.2 fun _ _ => rfl
  rw [hgetters]
  simpa only [headerCode, Code.linesAll_append, hnone, List.nil_append, List.append_nil] using hall

/-! ## The source -/

private theorem plainAll_entries {element name : String} {count : Nat} {items : List String}
    (h : ∀ i ∈ items, Plain i) : AllLines Plain [entries element count name items] := by
  intro l hl
  simp only [entries, Code.lines, Code.linesAll_cons, Code.linesAll_nil, Code.linesAll_map_line,
    ended_empty, List.append_nil, List.mem_cons, List.mem_append, List.mem_map, List.not_mem_nil,
    or_false] at hl
  obtain rfl | rfl | ⟨i, hi, rfl⟩ | rfl := hl
  · exact plain_of_back _ (by decide)
  · decide
  · simpa using h i hi
  · decide

private theorem plainAll_metadataCode (name : String) (m : Metadata) :
    AllLines Plain (metadataCode name m).code := by
  have harray : ∀ element name items, AllLines Plain [arrayLine element name items] := fun _ _ _ =>
    .line_cons (plain_of_back _ (by decide)) .nil
  exact (AllLines.nil.ite (harray _ _ _)).append (AllLines.nil.ite (harray _ _ _))

private theorem reads_define (hg : IsGetter g) (hbody : AllLines Plain body) :
    Reads (linesAll "" (define g body)) [g] := by
  have hrest : ∀ l ∈ "\x7b" :: (linesAll "" body ++ ["\x7d", ""]), Plain l := by
    intro l hl
    simp only [List.mem_cons, List.mem_append, List.not_mem_nil, or_false] at hl
    obtain rfl | hl | rfl | rfl := hl
    · decide
    · exact hbody l hl
    · decide
    · decide
  simpa [define, Code.braced, Code.lines] using (hg.reads "").append (reads_of_plain hrest)

private theorem reads_defineType (t : CppType) (kind : String) :
    Reads (linesAll "" (defineType t kind)) [typeGetter t] :=
  reads_define (isGetter_typeGetter t)
    (.line_cons (plain_of_back _ (by decide)) (.line_cons (by decide) .nil))

private theorem plainAll_classBody (r : Registry) (c : ClassRecord) :
    AllLines Plain (classBody r c) := by
  have hfields : AllLines Plain (c.fields.flatMap fun f => (metadataCode f.name f.metadata).code) :=
    .flatMap fun f _ => plainAll_metadataCode f.name f.metadata
  have hentries : AllLines Plain [entries "FieldInfo" c.fields.length "Fields"
      (c.fields.map (fieldEntry c.type.id.globalText))] :=
    plainAll_entries fun i hi => by
      obtain ⟨f, -, rfl⟩ := List.mem_map.1 hi
      exact plain_of_back _ (by decide)
  refine ((plainAll_metadataCode "Class" c.metadata).append
    (AllLines.nil.ite (hfields.append hentries))).append ?_
  exact .line_cons (plain_of_back _ (by decide)) (.line_cons (by decide) .nil)

private theorem reads_defineClass (r : Registry) (c : ClassRecord) :
    Reads (linesAll "" (defineClass r c)) [typeGetter c.type, classGetter c.type] := by
  rw [defineClass, Code.linesAll_append]
  exact (reads_defineType c.type "Class").append
    (reads_define (isGetter_classGetter c.type) (plainAll_classBody r c))

private theorem reads_defineEnum (e : EnumRecord) :
    Reads (linesAll "" (defineEnum e)) [typeGetter e.type, enumGetter e.type] := by
  rw [defineEnum, Code.linesAll_append]
  refine (reads_defineType e.type "Enum").append (reads_define (isGetter_enumGetter e.type) ?_)
  refine (plainAll_metadataCode "Enum" e.metadata).append ((plainAll_entries fun i hi => ?_).append
    (.line_cons (plain_of_back _ (by decide)) (.line_cons (by decide) .nil)))
  obtain ⟨v, -, rfl⟩ := List.mem_map.1 hi
  exact plain_of_back _ (by decide)

private theorem reads_defineFunction (f : FunctionRecord) :
    Reads (linesAll "" (defineFunction f)) [functionGetter f] := by
  refine reads_define (isGetter_functionGetter f) ?_
  refine ((plainAll_metadataCode "Function" f.metadata).append
    (AllLines.nil.ite (plainAll_entries fun i hi => ?_))).append
      (.line_cons (plain_of_back _ (by decide)) (.line_cons (by decide) .nil))
  obtain ⟨a, -, rfl⟩ := List.mem_map.1 hi
  exact plain_of_back _ (by decide)

private theorem plainAll_includes (headers : List String) :
    AllLines Plain (headers.map fun h => .includes h false) := by
  induction headers with
  | nil => exact AllLines.nil
  | cons h headers ih => exact .line_cons (plain_of_back _ (by decide)) ih

theorem reads_sourceCode (r : Registry) (s : Selection) (path : String) :
    Reads (linesAll "" (sourceCode r s path)) (getters s) := by
  have hincludes : AllLines Plain ([.includes path false, .includes "array" true] ++
      runtimeHeaders.map fun h => .includes h false) :=
    (AllLines.line_cons (plain_of_back _ (by decide))
      (.line_cons (by decide) AllLines.nil)).append (plainAll_includes runtimeHeaders)
  have hclasses := Reads.flatMap_code (l := s.classes.filter fun c => !c.type.isTemplated)
    fun c _ => reads_defineClass r c
  have henums := Reads.flatMap_code (l := s.enums) fun e _ => reads_defineEnum e
  have hfunctions := Reads.flatMap_code (l := s.functions) fun f _ => reads_defineFunction f
  have hdefined : Reads (linesAll ""
      ((s.classes.filter fun c => !c.type.isTemplated).flatMap (defineClass r) ++
        s.enums.flatMap defineEnum ++ s.functions.flatMap defineFunction)) (getters s) := by
    rw [Code.linesAll_append, Code.linesAll_append]
    exact (hclasses.append henums).append hfunctions
  let arrays := (s.classes.filter fun c => !c.type.isTemplated).flatMap fun c =>
    (c.fields.filter fun f => isDynamicArray f.use.type).map (dynamicArray c)
  have harrays : AllLines Plain arrays := .flatMap fun c _ l hl => by
    obtain ⟨k, hk, hl⟩ := Code.mem_linesAll.1 hl
    obtain ⟨f, -, rfl⟩ := List.mem_map.1 hk
    obtain rfl := List.mem_singleton.1 hl
    rw [ended_empty]
    exact plain_of_back _ (by decide)
  have hregistered : Reads (linesAll ""
      (if arrays.isEmpty then [] else [.blank, .scope privateNamespace arrays])) [] := by
    split
    · exact reads_nil
    · exact .line_cons (by decide)
        ((Reads.scope privateNamespace (reads_of_plain harrays)).append reads_nil)
  have hspace : Reads (linesAll "" [.blank, .scope runtimeNamespace
      ((s.classes.filter fun c => !c.type.isTemplated).flatMap (defineClass r) ++
        s.enums.flatMap defineEnum ++ s.functions.flatMap defineFunction)]) (getters s) := by
    have hscope := (Reads.scope runtimeNamespace hdefined).append reads_nil
    rw [List.append_nil (getters s)] at hscope
    exact .line_cons (by decide) hscope
  have hall := ((reads_of_plain hincludes).append hspace).append hregistered
  rw [List.append_nil, List.nil_append] at hall
  unfold sourceCode
  rw [Code.linesAll_append, Code.linesAll_append]
  exact hall

/-! ## Header and source of a file -/

/-- The lines of the header generated for a file, none if nothing in it is marked for reflection. -/
def headerLines (cwd : List String) (r : Registry) (input : Path) : List String :=
  let s := r.inFile cwd input true
  if s.any then linesAll "" (headerCode r s) else []

/-- The lines of the source generated for a file. -/
def sourceLines (cwd : List String) (r : Registry) (moduleDirectory input : Path) : List String :=
  let s := r.inFile cwd input true
  if s.any then linesAll "" (sourceCode r s (GeneratedPath.includePath cwd input moduleDirectory))
  else []

section file
variable {cwd : List String} {r : Registry} {moduleDirectory output input : Path}

private theorem getters_of_not_any {s : Selection} (h : s.any = false) : getters s = [] := by
  simp only [Selection.any, Bool.not_eq_false', Bool.and_eq_true, List.isEmpty_iff] at h
  simp [getters, h]

theorem specializations_headerLines : specializations (headerLines cwd r input) =
    (getters (r.inFile cwd input true)).map (· ++ ";") := by
  unfold headerLines
  dsimp only
  split
  · exact (reads_headerCode r _).specializations_eq
  next hany => rw [getters_of_not_any (eq_false_of_ne_true hany)]; rfl

theorem specializations_sourceLines : specializations (sourceLines cwd r moduleDirectory input) =
    getters (r.inFile cwd input true) := by
  unfold sourceLines
  dsimp only
  split
  · exact (reads_sourceCode r _ _).specializations_eq
  next hany => rw [getters_of_not_any (eq_false_of_ne_true hany)]; rfl

/-- The text that is generated from code if there is anything to generate. -/
private theorem specializations_text {code : List Code} {any : Bool} (hne : render code ≠ "")
    (h : ∀ l ∈ (if any then linesAll "" code else []), Unbroken l) :
    specializations (Text.linesOf (if any then render code else "")) =
      specializations (if any then linesAll "" code else []) := by
  cases any with
  | false => rfl
  | true => exact specializations_congr (linesOf_render hne h)

private theorem text_eq_empty_iff {code : List Code} {any : Bool} (hne : render code ≠ "") :
    (if any then render code else "") = "" ↔ any = false := by
  cases any <;> simp [hne]

private theorem render_headerCode (r : Registry) (s : Selection) : render (headerCode r s) ≠ "" :=
  render_ne_empty (t := "#pragma once") (c := '#') (by simp [headerCode]) (by decide) (by decide)
    (by decide)

private theorem render_sourceCode (r : Registry) (s : Selection) (path : String) :
    render (sourceCode r s path) ≠ "" :=
  render_ne_empty (t := "#include <array>") (c := '#') (by simp [sourceCode, Code.includes])
    (by decide) (by decide) (by decide)

/-- Code is only generated as the files of the input. -/
theorem fileCode_of_generate {files : List GeneratedFile}
    (h : generate cwd r moduleDirectory output input = .ok files) :
    files = fileCode cwd r moduleDirectory output input := by
  unfold generate at h
  obtain ⟨_, -, h⟩ := bind_eq_ok_iff.1 h
  obtain ⟨_, -, h⟩ := bind_eq_ok_iff.1 h
  obtain ⟨_, -, h⟩ := bind_eq_ok_iff.1 h
  exact (Except.ok.inj h).symm

/-- The header of a file declares the getters that its source defines, in the same order: those of
every type that is marked for reflection and no template, and those of every function. Both texts
are empty if nothing in the file is marked. -/
theorem generate_agrees {files : List GeneratedFile}
    (h : generate cwd r moduleDirectory output input = .ok files) :
    ∃ header source, files = [header, source] ∧
      specializations (headerLines cwd r input) =
        (getters (r.inFile cwd input true)).map (· ++ ";") ∧
      specializations (sourceLines cwd r moduleDirectory input) =
        getters (r.inFile cwd input true) ∧
      ((∀ l ∈ headerLines cwd r input, Unbroken l) →
        specializations (Text.linesOf header.text) =
          (getters (r.inFile cwd input true)).map (· ++ ";")) ∧
      ((∀ l ∈ sourceLines cwd r moduleDirectory input, Unbroken l) →
        specializations (Text.linesOf source.text) = getters (r.inFile cwd input true)) ∧
      (header.text = "" ↔ (r.inFile cwd input true).any = false) ∧
      (source.text = "" ↔ (r.inFile cwd input true).any = false) := by
  rw [fileCode_of_generate h]
  refine ⟨_, _, rfl, specializations_headerLines, specializations_sourceLines, fun hlines => ?_,
    fun hlines => ?_, text_eq_empty_iff (render_headerCode _ _),
    text_eq_empty_iff (render_sourceCode _ _ _)⟩
  · exact (specializations_text (render_headerCode _ _) hlines).trans specializations_headerLines
  · exact (specializations_text (render_sourceCode _ _ _) hlines).trans specializations_sourceLines

end file

/-- A file with a class, a template and a specialisation of it, an enum and a function, all of them
marked for reflection. -/
def troupe : Registry :=
  let marked (line : Int) : Metadata :=
    { Metadata.bare (.ofString "/module/Troupe.h") line with reflected := true }
  let record (type : CppType) (line : Int) : ClassRecord :=
    ⟨type, marked line, .structKey, false, [], [], [], .proper none⟩
  let int : CppType := .plain ⟨"int", ""⟩ .int32
  { Registry.empty .crc32 with
    classes := .ofList [record (.plain ⟨"Player", "game"⟩ .record) 3,
      record (.templated ⟨"Box", ""⟩ .record .generic (.plain ⟨"T", ""⟩ .template) []) 8,
      record (.templated ⟨"Box<int>", ""⟩ .record .specialized int []) 11]
    enums := .ofList [⟨.plain ⟨"Color", "game"⟩ .enum, marked 14, [], .proper none⟩]
    functions := .ofList [⟨⟨"Spawn", "game"⟩, ⟨int, false⟩, [], marked 17⟩] }

/-- Of the troupe five getters are declared and defined. -/
theorem generate_agrees_troupe :
    let input : Path := .ofString "/module/Troupe.h"
    let listed := ["const TypeInfo& GetReflectedType<::game::Player>()",
      "const ClassInfo& GetReflectedClass<::game::Player>()",
      "const TypeInfo& GetReflectedType<::game::Color>()",
      "const EnumInfo& GetReflectedEnum<::game::Color>()",
      "const FunctionInfo& GetReflectedFunction<&::game::Spawn>()"]
    ∃ header source, generate [] troupe (.ofString "/module") (.ofString "/generated") input =
        .ok [header, source] ∧
      specializations (Text.linesOf header.text) = listed.map (· ++ ";") ∧
      specializations (sourceLines [] troupe (.ofString "/module") input) = listed ∧
      header.text ≠ "" ∧ source.text ≠ "" := by
  intro input listed
  have hok : (generate [] troupe (.ofString "/module") (.ofString "/generated") input).isOk := by
    decide +kernel
  cases hgenerated : generate [] troupe (.ofString "/module") (.ofString "/generated") input with
  | error e =>
    rw [hgenerated] at hok
    cases hok
  | ok files =>
    have hlisted : getters (troupe.inFile [] input true) = listed := by decide +kernel
    have hany : (troupe.inFile [] input true).any ≠ false := by decide +kernel
    have hunbroken : ∀ l ∈ headerLines [] troupe input, Unbroken l := by decide +kernel
    obtain ⟨header, source, hfiles, -, hdefined, hdeclared, -, hheader, hsource⟩ :=
      generate_agrees hgenerated
    rw [hlisted] at hdeclared hdefined
    exact ⟨header, source, congrArg _ hfiles, hdeclared hunbroken, hdefined, mt hheader.1 hany,
      mt hsource.1 hany⟩

end Introspect.Emission
