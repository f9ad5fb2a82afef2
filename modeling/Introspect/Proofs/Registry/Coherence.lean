import Introspect.Document.Encode
import Introspect.Proofs.Catalog
import Introspect.Proofs.CppType

/-! Registries in which a type stands for the same data wherever it is mentioned. -/
namespace Introspect.Registry

/-- A type that some record mentions or that is registered, or an argument of one at any depth. -/
def Mentions (r : Registry) (t : CppType) : Prop :=
  ∃ u, (u ∈ Document.recordTypes r ∨ u ∈ r.types.items) ∧ t.Within u

/-- Every type that is mentioned is the registered one of its name. -/
def Coherent (r : Registry) : Prop :=
  ∀ t, r.Mentions t → r.types.find? t.qualifiedName = some t

/-- Every type that is mentioned has the name of a registered one, whether or not it is that. -/
def Named (r : Registry) : Prop := ∀ t, r.Mentions t → t.qualifiedName ∈ r.types.keys

theorem Coherent.named {r : Registry} (hr : r.Coherent) : r.Named := fun t ht =>
  Catalog.mem_keys_of_find? (hr t ht)

theorem Mentions.of_record {r : Registry} {t : CppType} (ht : t ∈ Document.recordTypes r) :
    r.Mentions t :=
  ⟨t, .inl ht, .refl t⟩

theorem Mentions.of_type {r : Registry} {t : CppType} (ht : t ∈ r.types.items) : r.Mentions t :=
  ⟨t, .inr ht, .refl t⟩

theorem Mentions.within {r : Registry} {u t : CppType} (hu : u.Within t) (ht : r.Mentions t) :
    r.Mentions u := by
  obtain ⟨v, hv, htv⟩ := ht
  exact ⟨v, hv, hu.trans htv⟩

theorem Coherent.mem_types {r : Registry} (hr : r.Coherent) {t : CppType} (ht : r.Mentions t) :
    t ∈ r.types.items :=
  Catalog.mem_of_find? (hr t ht)

theorem coherent_of_closed {r : Registry}
    (hrecords : ∀ t ∈ Document.recordTypes r, t ∈ r.types.items)
    (harguments : ∀ t ∈ r.types.items, ∀ a ∈ t.arguments, a ∈ r.types.items) : r.Coherent := by
  have hwithin : ∀ {u t : CppType}, u.Within t → t ∈ r.types.items → u ∈ r.types.items := by
    intro u t h ht
    induction h with
    | refl => exact ht
    | argument ha _ ih => exact ih (harguments _ ht _ ha)
  rintro t ⟨u, hu | hu, htu⟩
  · exact Catalog.find?_of_mem (hwithin htu (hrecords u hu))
  · exact Catalog.find?_of_mem (hwithin htu hu)

theorem Coherent.arguments {r : Registry} (hr : r.Coherent) {t : CppType} (ht : t ∈ r.types.items) :
    ∀ a ∈ t.arguments, a ∈ r.types.items :=
  fun _ ha => hr.mem_types ((Mentions.of_type ht).within (.of_argument ha))

theorem Coherent.classTypes {r : Registry} (hr : r.Coherent) {c : ClassRecord}
    (hc : c ∈ r.classes.items) : ∀ t ∈ Document.classTypes c, t ∈ r.types.items := by
  intro t ht
  apply hr.mem_types (.of_record _)
  simp only [Document.recordTypes, List.mem_append, List.mem_flatMap]
  exact .inl (.inl (.inl ⟨c, hc, ht⟩))

theorem Coherent.enumType {r : Registry} (hr : r.Coherent) {e : EnumRecord}
    (he : e ∈ r.enums.items) : e.type ∈ r.types.items := by
  apply hr.mem_types (.of_record _)
  simp only [Document.recordTypes, List.mem_append, List.mem_map]
  exact .inl (.inl (.inr ⟨e, he, rfl⟩))

theorem Coherent.aliasTypes {r : Registry} (hr : r.Coherent) {a : AliasRecord}
    (ha : a ∈ r.aliases.items) : ∀ t ∈ [a.type, a.target], t ∈ r.types.items := by
  intro t ht
  apply hr.mem_types (.of_record _)
  simp only [Document.recordTypes, List.mem_append, List.mem_flatMap]
  exact .inl (.inr ⟨a, ha, ht⟩)

theorem Coherent.functionTypes {r : Registry} (hr : r.Coherent) {f : FunctionRecord}
    (hf : f ∈ r.functions.items) :
    ∀ t ∈ f.result.type :: f.arguments.map (·.type), t ∈ r.types.items := by
  intro t ht
  apply hr.mem_types (.of_record _)
  simp only [Document.recordTypes, List.mem_append, List.mem_flatMap]
  exact .inr ⟨f, hf, ht⟩

end Introspect.Registry

namespace Introspect.Document

/-- A type is entered before its arguments. -/
theorem enter_eq (table : Catalog CppType.qualifiedName) (t : CppType) :
    enter table t =
      enterAll (if table.contains t.qualifiedName then table else table.insert t) t.arguments := by
  cases t with
  | plain i k =>
    rw [enter]
    rfl
  | templated i k g a as =>
    rw [enter]
    rfl

theorem enterAll_of_enter {table : Catalog CppType.qualifiedName} {ts : List CppType}
    (h : ∀ t ∈ ts, enter table t = table) : enterAll table ts = table := by
  induction ts with
  | nil => rfl
  | cons t ts ih =>
    rw [enterAll, h t (by simp)]
    exact ih fun u hu => h u (by simp [hu])

theorem enter_of_registered {table : Catalog CppType.qualifiedName} (t : CppType)
    (h : ∀ u : CppType, u.Within t → table.contains u.qualifiedName) : enter table t = table := by
  induction t using CppType.arguments_induction with
  | step t ih =>
    rw [enter_eq, if_pos (h t (.refl t))]
    apply enterAll_of_enter
    intro a ha
    exact ih a ha fun u hu => h u (.argument ha hu)

/-- A registry that has a type of every name that is mentioned has all the types of its
document. -/
theorem typeTable_of_named {r : Registry} (hr : r.Named) : typeTable r = r.types := by
  have hmentioned : ∀ t, r.Mentions t → enter r.types t = r.types := by
    intro t ht
    apply enter_of_registered
    intro u hu
    exact Catalog.contains_iff.2 (hr u (ht.within hu))
  have hrecords : enterAll r.types (recordTypes r) = r.types :=
    enterAll_of_enter fun t ht => hmentioned t (.of_record ht)
  have htypes : enterAll r.types r.types.items = r.types :=
    enterAll_of_enter fun t ht => hmentioned t (.of_type ht)
  simp only [typeTable, hrecords, htypes]

/-- A coherent registry has registered all the types of its document. -/
theorem typeTable_of_coherent {r : Registry} (hr : r.Coherent) : typeTable r = r.types :=
  typeTable_of_named hr.named

section entering
variable {table table₁ table₂ : Catalog CppType.qualifiedName} {t u : CppType} {ts : List CppType}

/-- The second table comes of the first when some types are entered, with all that stands among
their arguments. -/
structure Enters (ts : List CppType) (table table₁ : Catalog CppType.qualifiedName) : Prop where
  keeps : ∀ n ∈ table.keys, n ∈ table₁.keys
  names : ∀ t ∈ ts, ∀ u : CppType, u.Within t → u.qualifiedName ∈ table₁.keys
  items : ∀ u ∈ table₁.items, u ∈ table.items ∨ ∃ t ∈ ts, u.Within t

theorem Enters.cons (h : Enters [t] table table₁) (h' : Enters ts table₁ table₂) :
    Enters (t :: ts) table table₂ where
  keeps n hn := h'.keeps n (h.keeps n hn)
  names := by
    rw [List.forall_mem_cons]
    exact ⟨fun u hu => h'.keeps _ (h.names t (List.mem_singleton_self t) u hu), h'.names⟩
  items u hu := by
    rcases h'.items u hu with hu | ⟨v, hv, hu⟩
    · rcases h.items u hu with hu | ⟨v, hv, hu⟩
      · exact .inl hu
      · exact .inr ⟨v, List.mem_cons.2 (.inl (List.mem_singleton.1 hv)), hu⟩
    · exact .inr ⟨v, List.mem_cons_of_mem _ hv, hu⟩

private theorem enters_of_forall
    (h : ∀ t ∈ ts, ∀ table : Catalog CppType.qualifiedName, Enters [t] table (enter table t)) :
    Enters ts table (enterAll table ts) := by
  induction ts generalizing table with
  | nil => exact ⟨fun _ => id, nofun, fun _ => .inl⟩
  | cons t ts ih =>
    rw [enterAll]
    exact (h t (List.mem_cons_self ..) table).cons
      (ih fun u hu => h u (List.mem_cons_of_mem _ hu))

theorem enters_enter (t : CppType) (table : Catalog CppType.qualifiedName) :
    Enters [t] table (enter table t) := by
  induction t using CppType.arguments_induction generalizing table with
  | step t ih =>
    rw [enter_eq]
    obtain ⟨hkeeps, hnames, hitems⟩ : Enters t.arguments _ (enterAll
        (if table.contains t.qualifiedName then table else table.insert t) t.arguments) :=
      enters_of_forall ih
    have hfirst : ∀ n, n ∈ (if table.contains t.qualifiedName then table
        else table.insert t).keys ↔ n = t.qualifiedName ∨ n ∈ table.keys := by
      intro n
      split
      · next h =>
        refine (or_iff_right_of_imp ?_).symm
        rintro rfl
        exact Catalog.contains_iff.1 h
      · exact Catalog.mem_keys_insert
    refine ⟨fun n hn => hkeeps n ((hfirst n).2 (.inr hn)), ?_, fun u hu => ?_⟩
    · rintro v hv u hu
      obtain rfl := List.mem_singleton.1 hv
      cases hu with
      | refl => exact hkeeps _ ((hfirst _).2 (.inl rfl))
      | argument ha hu => exact hnames _ ha u hu
    · rcases hitems u hu with hu | ⟨a, ha, hu⟩
      · split at hu
        · exact .inl hu
        · rcases Catalog.mem_items_insert.1 hu with rfl | ⟨hu, -⟩
          · exact .inr ⟨_, List.mem_singleton_self _, .refl _⟩
          · exact .inl hu
      · exact .inr ⟨t, List.mem_singleton_self t, .argument ha hu⟩

theorem enters_enterAll (ts : List CppType) (table : Catalog CppType.qualifiedName) :
    Enters ts table (enterAll table ts) :=
  enters_of_forall fun t _ => enters_enter t

/-- The table of types has an entry for every name that a record or another entry mentions. -/
theorem name_mem_typeTable {r : Registry} (ht : t ∈ recordTypes r ∨ t ∈ (typeTable r).items)
    (hu : u.Within t) : u.qualifiedName ∈ (typeTable r).keys := by
  have hfirst := enters_enterAll (recordTypes r) r.types
  have hthen := enters_enterAll (enterAll r.types (recordTypes r)).items
    (enterAll r.types (recordTypes r))
  rcases ht with ht | ht
  · exact hthen.keeps _ (hfirst.names t ht u hu)
  · rcases hthen.items t ht with ht | ⟨v, hv, htv⟩
    · exact hthen.names t ht u hu
    · exact hthen.names v hv u (hu.trans htv)

end entering

end Introspect.Document
