import Introspect.Proofs.Reflection.Qualifiers
import Introspect.Proofs.Reflection.Visits

/-! Which types are recorded as template parameters, for types as the compiler library reports
them. Behind the spelling of a parameter stand the declarators of what is made of it, such as
pointers, and qualifiers stand in front. -/
namespace Introspect

/-! ## Canonical spellings -/

/-- A text that does not start like one of the qualifiers has none. -/
theorem Qualifiers.strip_of_head? {s : List Char} (h : ∀ c ∈ s.head?, c ≠ 'c' ∧ c ≠ 'v') :
    strip s = s := by
  refine strip_of_bare fun w hw hfront => ?_
  obtain ⟨r, rfl⟩ := hfront
  rw [List.head?_append_of_ne_nil _ (toList_ne_nil hw)] at h
  have hletters : ∀ w ∈ words, w.toList.head? = some 'c' ∨ w.toList.head? = some 'v' := by decide
  rcases hletters w hw with hc | hv
  · exact (h 'c' hc).1 rfl
  · exact (h 'v' hv).2 rfl

def parameterMark : String := "type-parameter-"

/-- The spelling of a template type parameter as a canonical type. -/
def parameterText (depth index : Nat) : String :=
  parameterMark ++ toString depth ++ "-" ++ toString index

/-- Qualifiers in front apart, the spelling is that of a template type parameter with the
declarator behind it, which is empty for the parameter itself. -/
structure OnParameter (s declarator : String) : Prop where
  spelling : ∃ depth index, Qualifiers.stripped s = parameterText depth index ++ declarator
  declarator : ∀ c ∈ declarator.toList.head?, c.isDigit = false

section spellings
variable {s d d' : String}

theorem stripped_of_startsWith (h : Text.startsWith parameterMark s) :
    Qualifiers.stripped s = s := by
  obtain ⟨r, hr⟩ := Option.isSome_iff_exists.1 h
  obtain rfl := Text.afterPrefix?_eq_some_iff.1 hr
  rw [Qualifiers.stripped, Qualifiers.strip_of_head?, String.ofList_toList]
  simp [parameterMark]

theorem OnParameter.startsWith_iff (h : OnParameter s d) :
    Text.startsWith parameterMark s ↔ Qualifiers.stripped s = s := by
  refine ⟨stripped_of_startsWith, fun hs => ?_⟩
  obtain ⟨depth, index, heq⟩ := h.spelling
  rw [hs] at heq
  refine Option.isSome_iff_exists.2 ⟨toString depth ++ "-" ++ toString index ++ d, ?_⟩
  rw [Text.afterPrefix?_eq_some_iff, heq]
  simp only [parameterText, String.append_assoc]

theorem takeWhile_digits {a b : List Char} (ha : ∀ c ∈ a, c.isDigit)
    (hb : ∀ c ∈ b.head?, c.isDigit = false) : (a ++ b).takeWhile Char.isDigit = a := by
  rw [List.takeWhile_append_of_pos ha]
  cases b with
  | nil => simp
  | cons c b => simp [hb c rfl]

/-- A number ends where no digit follows. -/
theorem toString_append_inj {n m : Nat} {a b : List Char} (ha : ∀ c ∈ a.head?, c.isDigit = false)
    (hb : ∀ c ∈ b.head?, c.isDigit = false)
    (h : (toString n).toList ++ a = (toString m).toList ++ b) : a = b := by
  have hdigits : ∀ k : Nat, ∀ c ∈ (toString k).toList, c.isDigit := fun k c hc =>
    Nat.isDigit_of_mem_toDigits (by decide) (by decide) (Nat.toList_repr ▸ hc)
  have hnumber : (toString n).toList = (toString m).toList := by
    rw [← takeWhile_digits (hdigits n) ha, h, takeWhile_digits (hdigits m) hb]
  rw [hnumber] at h
  exact List.append_cancel_left h

/-- A spelling has one declarator. -/
theorem OnParameter.unique (h : OnParameter s d) (h' : OnParameter s d') : d = d' := by
  obtain ⟨depth, index, heq⟩ := h.spelling
  obtain ⟨depth', index', heq'⟩ := h'.spelling
  have hlists := congrArg String.toList (heq.symm.trans heq')
  simp only [parameterText, String.toList_append, List.append_assoc,
    List.append_cancel_left_eq] at hlists
  have hdash : ∀ c ∈ ("-".toList ++ ((toString index).toList ++ d.toList)).head?,
      c.isDigit = false := by simp
  have hdash' : ∀ c ∈ ("-".toList ++ ((toString index').toList ++ d'.toList)).head?,
      c.isDigit = false := by simp
  have hbehind := List.append_cancel_left (toString_append_inj hdash hdash' hlists)
  exact String.toList_inj.1 (toString_append_inj h.declarator h'.declarator hbehind)

end spellings

/-! ## Reported types -/

namespace RawUnit
variable (u : RawUnit)

/-- The canonical type: the type itself where none is reported. -/
def canonicalType (t : RawType) : RawType := (t.canonical.bind u.types.find?).getD t

/-- The type is reported with the declaration of a template type parameter. -/
def DeclaresParameter (t : RawType) : Prop :=
  ∃ d, u.declaration? t = some d ∧ d.2.kind = "TEMPLATE_TYPE_PARAMETER"

/-- The kinds of canonical types that are put together from others or depend on a parameter:
neither built into the language nor declared. -/
def compositeKinds : List FrontKind :=
  [.unexposed, .pointer, .lvalueReference, .constantArray, .other]

/-- Template parameters and what is made of them are reported as the compiler library does. -/
structure ReportsParameters : Prop where
  canonical : ∀ e ∈ u.types.entries, u.canonicalType (u.canonicalType e.2) = u.canonicalType e.2
  declared : ∀ e ∈ u.types.entries, u.DeclaresParameter e.2 →
    OnParameter (u.canonicalSpelling e.2) ""
  spelled : ∀ e ∈ u.types.entries, Text.startsWith parameterMark (u.canonicalSpelling e.2) →
    ∃ d, OnParameter (u.canonicalSpelling e.2) d
  composite : ∀ e ∈ u.types.entries, ∀ d, OnParameter (u.canonicalSpelling e.2) d →
    .ofCompilerLabel (u.canonicalType e.2).kind ∈ compositeKinds

section numbers
variable {u} {cwd : List String} {id : String} {t : RawType} {i k : TypeId}

theorem isParameter_iff : u.isParameter t ↔
    Text.startsWith parameterMark (u.canonicalSpelling t) ∨ u.DeclaresParameter t := by
  simp [isParameter, DeclaresParameter, parameterMark, Option.any_eq_true, or_comm]

theorem exists_of_typeId? (h : u.typeId? id = some k) :
    ∃ t, u.types.entries[k]? = some (id, t) ∧ u.types.find? id = some t := by
  obtain ⟨hlt, hkey, -⟩ := List.findIdx?_eq_some_iff_getElem.1 h
  have hlt' : k < u.types.entries.length := by
    simpa [Table.keys, Catalog.keys, Table.entries] using hlt
  have hid : (u.types.entries[k]).1 = id := by
    simpa [Table.keys, Catalog.keys, Table.entries] using hkey
  refine ⟨(u.types.entries[k]).2, ?_, ?_⟩
  · rw [List.getElem?_eq_getElem hlt', ← hid]
  · rw [Table.find?_eq_some_iff, ← hid]
    exact List.getElem_mem hlt'

theorem typeId?_eq_none (h : u.types.find? id = none) : u.typeId? id = none := by
  cases hk : u.typeId? id with
  | none => rfl
  | some k =>
    obtain ⟨t, -, ht⟩ := exists_of_typeId? hk
    rw [h] at ht
    cases ht

theorem exists_typeId? (h : u.types.find? id = some t) :
    ∃ k, u.typeId? id = some k ∧ u.types.entries[k]? = some (id, t) := by
  have hmem : id ∈ u.types.keys := Table.mem_keys_iff_exists.2 ⟨t, h⟩
  have hsome : (u.typeId? id).isSome := by
    rw [typeId?, List.findIdx?_isSome, List.any_eq_true]
    exact ⟨id, hmem, beq_self_eq_true id⟩
  obtain ⟨k, hk⟩ := Option.isSome_iff_exists.1 hsome
  obtain ⟨t', hentry, ht'⟩ := exists_of_typeId? hk
  obtain rfl := Option.some.inj (ht'.symm.trans h)
  exact ⟨k, hk, hentry⟩

theorem type_of_entry (h : u.types.entries[i]? = some (id, t)) :
    (u.toUnit cwd).type i = u.frontType i t := by
  rw [type_toUnit, h, Option.map_some, Option.getD_some]

/-- The canonical type of a type of the table is in the table. -/
theorem exists_canonical (h : u.types.entries[i]? = some (id, t)) :
    ∃ j id', u.types.entries[j]? = some (id', u.canonicalType t) ∧
      (u.frontType i t).canonical = j := by
  simp only [frontType, canonicalType]
  cases hc : t.canonical with
  | none => exact ⟨i, id, h, rfl⟩
  | some c =>
    simp only [Option.bind_some]
    cases hfind : u.types.find? c with
    | none => exact ⟨i, id, h, by rw [typeId?_eq_none hfind, Option.getD_none]⟩
    | some t' =>
      obtain ⟨j, hj, hentry⟩ := exists_typeId? hfind
      exact ⟨j, c, hentry, by rw [hj, Option.getD_some]⟩

theorem exists_of_validType? (h : u.validType? id = some k) :
    ∃ t, u.types.entries[k]? = some (id, t) := by
  unfold validType? at h
  split at h
  · cases h
  · split at h
    · cases h
    · obtain ⟨t, ht, -⟩ := exists_of_typeId? h
      exact ⟨t, ht⟩

/-- What is recorded for a type of the table is a type of the table. -/
theorem exists_unwrapped (cwd : List String) (hi : i < u.types.size) :
    ∃ id t, u.types.entries[Reflection.unwrap (u.toUnit cwd) i]? = some (id, t) := by
  have hget : u.types.entries[i]? = some u.types.entries[i] := List.getElem?_eq_getElem hi
  obtain ⟨c, id, hc, hcanonical⟩ := exists_canonical hget
  -- an element is in the table when what it is the element of is
  have helement : ∀ j id t, u.types.entries[j]? = some (id, t) →
      ∃ id' t', u.types.entries[((u.toUnit cwd).type j).element.getD j]? = some (id', t') := by
    intro j id t h
    rw [type_of_entry h]
    cases he : (u.frontType j t).element with
    | none => exact ⟨id, t, h⟩
    | some k =>
      obtain ⟨e, -, he⟩ := Option.bind_eq_some_iff.1 he
      exact ⟨e, exists_of_validType? he⟩
  unfold Reflection.unwrap
  dsimp only
  split
  · exact helement _ _ _ hget
  · rw [type_of_entry hget, hcanonical]
    exact helement _ _ _ hc

end numbers

namespace ReportsParameters
variable {u} {id d : String} {t : RawType} {i : TypeId}

theorem canonicalSpelling_canonicalType (hu : u.ReportsParameters)
    (hi : u.types.entries[i]? = some (id, t)) :
    u.canonicalSpelling (u.canonicalType t) = u.canonicalSpelling t := by
  rw [canonicalSpelling, ← canonicalType, hu.canonical _ (List.mem_of_getElem? hi)]
  rfl

theorem onParameter_of_declares (hu : u.ReportsParameters)
    (hi : u.types.entries[i]? = some (id, t))
    (h : u.DeclaresParameter t ∨ u.DeclaresParameter (u.canonicalType t)) :
    OnParameter (u.canonicalSpelling t) "" := by
  rcases h with h | h
  · exact hu.declared _ (List.mem_of_getElem? hi) h
  · obtain ⟨j, id', hj, -⟩ := exists_canonical hi
    have hcanonical := hu.declared _ (List.mem_of_getElem? hj) h
    rwa [hu.canonicalSpelling_canonicalType hi] at hcanonical

/-- Only the front of a spelling and declarations tell parameters. -/
theorem isParameter_iff (hu : u.ReportsParameters) (hi : u.types.entries[i]? = some (id, t)) :
    u.isParameter t ∨ u.isParameter (u.canonicalType t) ↔
      Text.startsWith parameterMark (u.canonicalSpelling t) ∨
        u.DeclaresParameter t ∨ u.DeclaresParameter (u.canonicalType t) := by
  rw [RawUnit.isParameter_iff, RawUnit.isParameter_iff, hu.canonicalSpelling_canonicalType hi]
  tauto

theorem isParameter_iff_of_onParameter (hu : u.ReportsParameters)
    (hi : u.types.entries[i]? = some (id, t)) (hd : OnParameter (u.canonicalSpelling t) d) :
    u.isParameter t ∨ u.isParameter (u.canonicalType t) ↔
      Qualifiers.stripped (u.canonicalSpelling t) = u.canonicalSpelling t ∨
        d = "" ∧ (u.DeclaresParameter t ∨ u.DeclaresParameter (u.canonicalType t)) := by
  rw [hu.isParameter_iff hi, hd.startsWith_iff]
  refine or_congr_right ⟨fun h => ⟨?_, h⟩, And.right⟩
  exact hd.unique (hu.onParameter_of_declares hi h)

theorem not_isParameter (hu : u.ReportsParameters) (hi : u.types.entries[i]? = some (id, t))
    (hd : ∀ d, ¬ OnParameter (u.canonicalSpelling t) d) :
    ¬ (u.isParameter t ∨ u.isParameter (u.canonicalType t)) := by
  rw [hu.isParameter_iff hi]
  rintro (h | h)
  · obtain ⟨d, h⟩ := hu.spelled _ (List.mem_of_getElem? hi) h
    exact hd d h
  · exact hd _ (hu.onParameter_of_declares hi h)

end ReportsParameters
end RawUnit

namespace Reflection

/-! ## Promotion -/

section promotion
variable {t : CppType} {f : Field} {ps as : List CppType} {p : Progress}

theorem run_substituteField_of_kind (h : f.use.type.kind ≠ .template) :
    (substituteField ps as f).run p = .ok f p := by
  simp [substituteField, h]

theorem run_substituteField_unmatched (h : f.use.type.kind = .template)
    (hname : f.use.type.qualifiedName ∉ ps.map CppType.qualifiedName) :
    (substituteField ps as f).run p = .ok f { p with events := p.events ++
      [.parameterUnmatched f.use.type.qualifiedName (ps.map CppType.qualifiedName)] } := by
  have hnone : (ps.map CppType.qualifiedName).findIdx? (· == f.use.type.qualifiedName) = none := by
    rw [List.findIdx?_eq_none_iff]
    intro n hn
    exact beq_eq_false_iff_ne.2 (ne_of_mem_of_not_mem hn hname)
  simp only [substituteField, substituteUse, substitute, substitute?, h, bne_self_eq_false,
    Bool.false_eq_true, if_false, hnone]
  rfl

/-- A field of the type is never taken for one of a parameter: it stays, and nothing is reported. -/
def LeftAlone (t : CppType) : Prop :=
  ∀ (f : Field) (ps as : List CppType) (p : Progress), f.use.type = t →
    (substituteField ps as f).run p = .ok f p

theorem leftAlone_iff : LeftAlone t ↔ t.kind ≠ .template := by
  constructor
  · intro h hkind
    let f : Field := ⟨"", ⟨t, false⟩, .bare default 0⟩
    have hreports : (substituteField [] [] f).run (.start default) = _ :=
      run_substituteField_unmatched hkind (by simp)
    rw [h f [] [] _ rfl] at hreports
    simp [Progress.start] at hreports
  · rintro h f ps as p rfl
    exact run_substituteField_of_kind h

end promotion

/-! ## The recorded kind -/

theorem kindOf_composite {k : FrontKind} (h : k ∈ RawUnit.compositeKinds) :
    kindOf k = .invalid := by
  revert k
  decide

theorem kindOf_ne_template (k : FrontKind) : kindOf k ≠ .template := by
  cases k <;> decide

section kinds
variable {u : RawUnit} {cwd : List String} {i : TypeId} {id : String} {t : RawType} {p : Progress}

/-- Under a new name, what is taken for a parameter comes in as one, and anything else as what its
canonical type is. -/
theorem resolveType_kind (ht : u.types.entries[unwrap (u.toUnit cwd) i]? = some (id, t))
    (hnew : recordedName (u.toUnit cwd) i ∉ p.registry.types.keys) :
    Yields (resolveType (u.toUnit cwd) i) p fun r _ =>
      r.kind = if u.isParameter t ∨ u.isParameter (u.canonicalType t) then .template
        else kindOf (.ofCompilerLabel (u.canonicalType t).kind) := by
  refine (resolveType_new hnew).mono ?_
  rintro r q ⟨s, holders, -, hdescribes, -⟩
  obtain ⟨j, id', hj, hcanonical⟩ := RawUnit.exists_canonical ht
  rw [hdescribes.kind, RawUnit.type_of_entry ht, underlying, hcanonical, RawUnit.type_of_entry hj]
  have hparameter : ∀ k t', (u.frontType k t').isParameter = u.isParameter t' := fun _ _ => rfl
  simp only [hparameter]
  by_cases h : u.isParameter t
  · simp [classify, hparameter, h]
  · simp only [h, Bool.false_eq_true, if_false, false_or, classify, hparameter]
    rfl

end kinds

/-- Where types are reported as the compiler library does, a type is resolved, unless names share a
number. Under a new name it is recorded as a template parameter in two cases: no qualifiers stand in
front of its canonical spelling and that starts like the spelling of a parameter, whatever
declarator follows; or it is a parameter and is reported with its declaration. Otherwise what is
made of parameters is of no valid kind. Fields of the types that are recorded so, and of no others,
are taken for fields of a parameter. -/
theorem resolveType_kind_iff {u : RawUnit} {cwd : List String} (hu : u.ReportsParameters)
    (hend : ArgumentsEnd (u.toUnit cwd)) {i : TypeId} (hi : i < u.types.size) {p : Progress}
    (hnew : recordedName (u.toUnit cwd) i ∉ p.registry.types.keys) :
    (∀ e q, (resolveType (u.toUnit cwd) i).run p = .error e q → ∃ kind c, e = .collision kind c) ∧
    ∃ id t, u.types.entries[unwrap (u.toUnit cwd) i]? = some (id, t) ∧
      ∀ r q, (resolveType (u.toUnit cwd) i).run p = .ok r q →
        (∀ d, OnParameter (u.canonicalSpelling t) d →
          (r.kind = .template ↔
            Qualifiers.stripped (u.canonicalSpelling t) = u.canonicalSpelling t ∨
              d = "" ∧ (u.DeclaresParameter t ∨ u.DeclaresParameter (u.canonicalType t))) ∧
          (r.kind ≠ .template → r.kind = .invalid)) ∧
        ((∀ d, ¬ OnParameter (u.canonicalSpelling t) d) → r.kind ≠ .template ∧
          r.kind = kindOf (.ofCompilerLabel (u.canonicalType t).kind)) ∧
        (LeftAlone r ↔ r.kind ≠ .template) := by
  refine ⟨fails_resolveType (fun kind c => ⟨kind, c, rfl⟩) hend i, ?_⟩
  obtain ⟨id, t, ht⟩ := RawUnit.exists_unwrapped cwd hi
  refine ⟨id, t, ht, fun r q hrun => ?_⟩
  have hkind := resolveType_kind ht hnew r q hrun
  have htemplate : r.kind = .template ↔ u.isParameter t ∨ u.isParameter (u.canonicalType t) := by
    rw [hkind]
    split
    · next h => exact iff_of_true rfl h
    · next h => exact iff_of_false (kindOf_ne_template _) h
  have hother (h : r.kind ≠ .template) :
      r.kind = kindOf (.ofCompilerLabel (u.canonicalType t).kind) := by
    rw [hkind, if_neg (mt htemplate.2 h)]
  refine ⟨fun d hd => ⟨?_, fun h => ?_⟩, fun hd => ?_, leftAlone_iff⟩
  · rw [htemplate, hu.isParameter_iff_of_onParameter ht hd]
  · rw [hother h, kindOf_composite (hu.composite _ (List.mem_of_getElem? ht) d hd)]
  · have hne : r.kind ≠ .template := mt htemplate.1 (hu.not_isParameter ht hd)
    exact ⟨hne, hother hne⟩

/-- A reported type with its canonical type and the type of its elements. -/
def derivedType (kind spelling canonical : String) (element : Option String) : RawType :=
  { reportedType kind spelling none [] with canonical := some canonical, element := element }

/-- A parameter `T`, a pointer and an array of it, and the parameter with a qualifier. -/
def derivations : RawUnit where
  root := "unit"
  cursors := .ofList [("unit", reportedCursor none "TRANSLATION_UNIT" "a.h" none [])]
  types := .ofList [
    ("T", derivedType "UNEXPOSED" "T" "type-parameter-0-0" none),
    ("T *", derivedType "POINTER" "T *" "type-parameter-0-0 *" none),
    ("T[3]", derivedType "CONSTANTARRAY" "T[3]" "type-parameter-0-0[3]" (some "T")),
    ("const T", { derivedType "UNEXPOSED" "const T" "const type-parameter-0-0" none with
      isConst := true }),
    ("type-parameter-0-0", reportedType "UNEXPOSED" "type-parameter-0-0" none []),
    ("type-parameter-0-0 *", reportedType "POINTER" "type-parameter-0-0 *" none []),
    ("type-parameter-0-0[3]", { reportedType "CONSTANTARRAY" "type-parameter-0-0[3]" none [] with
      element := some "type-parameter-0-0" }),
    ("const type-parameter-0-0", { reportedType "UNEXPOSED" "const type-parameter-0-0" none [] with
      isConst := true })]

/-- The declarators that are in use. -/
def declarators : List String := ["", " *", "[3]"]

theorem onParameter_of_mem {s d : String} (hd : d ∈ declarators)
    (h : Qualifiers.stripped s = parameterText 0 0 ++ d) : OnParameter s d := by
  refine ⟨⟨0, 0, h⟩, ?_⟩
  obtain rfl | rfl | rfl : d = "" ∨ d = " *" ∨ d = "[3]" := by simpa [declarators] using hd
  all_goals simp

theorem derivations_reportsParameters : derivations.ReportsParameters where
  canonical e he := by
    have hall : ∀ e ∈ derivations.types.entries,
        (derivations.canonicalType e.2).canonical = none := by decide +kernel
    rw [RawUnit.canonicalType, hall e he]
    rfl
  declared e he := by
    have hall : ∀ e ∈ derivations.types.entries, (derivations.declaration? e.2).isNone := by
      decide +kernel
    rintro ⟨d, hd, -⟩
    have hnone := hall e he
    rw [hd] at hnone
    cases hnone
  spelled e he _ := by
    have hall : ∀ e ∈ derivations.types.entries, ∃ d ∈ declarators,
        Qualifiers.stripped (derivations.canonicalSpelling e.2) = parameterText 0 0 ++ d := by
      decide +kernel
    obtain ⟨d, hd, h⟩ := hall e he
    exact ⟨d, onParameter_of_mem hd h⟩
  composite e he _ _ := by
    have hall : ∀ e ∈ derivations.types.entries,
        .ofCompilerLabel (derivations.canonicalType e.2).kind ∈ RawUnit.compositeKinds := by
      decide +kernel
    exact hall e he

theorem derivations_argumentsEnd : ArgumentsEnd (derivations.toUnit []) :=
  argumentsEnd_of_lt (by decide +kernel)

/-- The canonical spelling of what is recorded for a type. -/
def recordedSpelling? (u : RawUnit) (i : TypeId) : Option String :=
  u.types.entries[unwrap (u.toUnit []) i]?.map fun e => u.canonicalSpelling e.2

/-- An array is recorded as the parameter that its elements are of. -/
theorem resolveType_kind_iff_derivations :
    derivations.ReportsParameters ∧ ArgumentsEnd (derivations.toUnit []) ∧
    2 < derivations.types.size ∧ recordedName (derivations.toUnit []) 2 = "T" ∧
    ∃ r q, (resolveType (derivations.toUnit []) 2).run (served (derivations.toUnit []) .crc32 []) =
      .ok r q ∧ r.kind = .template ∧ ¬ LeftAlone r := by
  have hname : recordedName (derivations.toUnit []) 2 = "T" := by decide +kernel
  have hsize : 2 < derivations.types.size := by decide +kernel
  refine ⟨derivations_reportsParameters, derivations_argumentsEnd, hsize, hname, ?_⟩
  obtain ⟨-, id, t, ht, hall⟩ := resolveType_kind_iff derivations_reportsParameters
    derivations_argumentsEnd hsize (p := served (derivations.toUnit []) .crc32 [])
    (by rw [hname]; decide +kernel)
  have hspelling : derivations.canonicalSpelling t = "type-parameter-0-0" := by
    have hrecorded : recordedSpelling? derivations 2 = some "type-parameter-0-0" := by
      decide +kernel
    rw [recordedSpelling?, ht] at hrecorded
    exact Option.some.inj hrecorded
  obtain ⟨r, q, hrun, -⟩ := exists_of_answers
    (show answers (derivations.toUnit []) [] (.type 2) (fun _ => true) by decide +kernel)
  obtain ⟨hparameter, -, halone⟩ := hall r q hrun
  have hkind : r.kind = .template := by
    refine (hparameter "" ?_).1.2 (.inl ?_)
    · exact onParameter_of_mem (by decide) (by rw [hspelling]; decide +kernel)
    · rw [hspelling]
      decide +kernel
  exact ⟨r, q, hrun, hkind, fun h => halone.1 h hkind⟩

/-- A pointer to a parameter is recorded as a parameter, and promotion reports its fields as those
of a parameter without an argument. A parameter with a qualifier is not recorded as one. -/
theorem exists_kind_derivations :
    derivations.ReportsParameters ∧
    (∃ r q, (resolveType (derivations.toUnit []) 1).run (.start (.empty NameHash.crc32)) =
        .ok r q ∧
      recordedSpelling? derivations 1 = some "type-parameter-0-0 *" ∧ r.kind = .template ∧
      ∀ (f : Field) (ps as : List CppType) (p : Progress), f.use.type = r →
        "T *" ∉ ps.map CppType.qualifiedName → (substituteField ps as f).run p = .ok f { p with
          events := p.events ++ [.parameterUnmatched "T *" (ps.map CppType.qualifiedName)] }) ∧
    ∃ r q, (resolveType (derivations.toUnit []) 3).run (.start (.empty NameHash.crc32)) =
        .ok r q ∧
      recordedSpelling? derivations 3 = some "const type-parameter-0-0" ∧ r.kind = .invalid := by
  refine ⟨derivations_reportsParameters, ?_, ?_⟩
  · obtain ⟨r, q, hrun, htest⟩ := exists_of_answers
      (show answers (derivations.toUnit []) [] (.type 1)
        (fun r => r.kind == .template && r.qualifiedName == "T *") by decide +kernel)
    obtain ⟨hkind, hname⟩ := (Bool.and_eq_true _ _).mp htest
    refine ⟨r, q, hrun, by decide +kernel, beq_iff_eq.1 hkind, ?_⟩
    rintro f ps as p rfl hps
    rw [← beq_iff_eq.1 hname] at hps ⊢
    exact run_substituteField_unmatched (beq_iff_eq.1 hkind) hps
  · obtain ⟨r, q, hrun, htest⟩ := exists_of_answers
      (show answers (derivations.toUnit []) [] (.type 3) (fun r => r.kind == .invalid) by
        decide +kernel)
    exact ⟨r, q, hrun, by decide +kernel, beq_iff_eq.1 htest⟩

end Reflection
end Introspect
