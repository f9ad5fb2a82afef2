import Introspect.Proofs.Document.Exact

/-! Where the text of a document can be read, no whole number in it is too long. -/
namespace Introspect
open Json

namespace Json
variable {indent : Option String} {j v : Json} {xs : List Json} {ms : List (String × Json)}

/-- Reading gets through the value, or comes to a whole number of too many digits. -/
def Settles (j : Json) : Prop := j.Exact ∨ ∃ digits, StopsAt digits j

private theorem exact_or_stops_items (h : ∀ x ∈ xs, Settles x) : ItemsExact xs ∨
    ∃ digits before x after, xs = before ++ x :: after ∧ ItemsExact before ∧
      StopsAt digits x := by
  induction xs with
  | nil => exact .inl trivial
  | cons x xs ih =>
    obtain ⟨hx, hxs⟩ := List.forall_mem_cons.1 h
    rcases hx with hexact | ⟨digits, hstop⟩
    · rcases ih hxs with hrest | ⟨digits, before, y, after, rfl, hbefore, hstop⟩
      · exact .inl ⟨hexact, hrest⟩
      · exact .inr ⟨digits, x :: before, y, after, rfl, ⟨hexact, hbefore⟩, hstop⟩
    · exact .inr ⟨digits, [], x, xs, rfl, trivial, hstop⟩

private theorem exact_or_stops_members (h : ∀ m ∈ ms, Settles m.2) : MembersExact ms ∨
    ∃ digits before k x after, ms = before ++ (k, x) :: after ∧ MembersExact before ∧
      StopsAt digits x := by
  induction ms with
  | nil => exact .inl trivial
  | cons m ms ih =>
    obtain ⟨hm, hms⟩ := List.forall_mem_cons.1 h
    rcases hm with hexact | ⟨digits, hstop⟩
    · rcases ih hms with hrest | ⟨digits, before, k, y, after, rfl, hbefore, hstop⟩
      · exact .inl ⟨hexact, hrest⟩
      · exact .inr ⟨digits, m :: before, k, y, after, rfl, ⟨hexact, hbefore⟩, hstop⟩
    · exact .inr ⟨digits, [], m.1, m.2, ms, rfl, trivial, hstop⟩

/-- Whatever has no fractions or repeated names is read, or refused for a whole number. -/
theorem inherits_settles : Inherits (fun _ => True) Settles where
  null := .inl trivial
  bool _ := .inl trivial
  text _ := .inl trivial
  int n _ := by
    rcases Nat.lt_or_ge Text.longestWhole (digitsOf n).length with hlong | hshort
    · exact .inr ⟨_, .number rfl hlong⟩
    · exact .inl hshort
  array xs h := by
    rcases exact_or_stops_items h with hexact | ⟨digits, before, x, after, rfl, hbefore, hstop⟩
    · exact .inl hexact
    · exact .inr ⟨digits, .item hbefore hstop⟩
  object ms hnames h := by
    rcases exact_or_stops_members h with
      hexact | ⟨digits, before, k, x, after, rfl, hbefore, hstop⟩
    · exact .inl ⟨hnames, hexact⟩
    · exact .inr ⟨digits, .member hbefore hstop⟩

theorem Settles.exact (h : Settles j) (hi : IsBlank indent)
    (hparse : parse (print indent j) = .ok v) : j.Exact := by
  rcases h with hexact | ⟨digits, hstop⟩
  · exact hexact
  · cases (parse_print_of_stopsAt hi hstop).symm.trans hparse

theorem Exact.member (h : (Json.object ms).Exact) {k : String} (hm : (k, j) ∈ ms) : j.Exact :=
  membersExact_iff.1 h.2 (k, j) hm

theorem Exact.item {α : Type} {f : α → Json} {l : List α} (h : (Json.array (l.map f)).Exact)
    {a : α} (ha : a ∈ l) : (f a).Exact :=
  itemsExact_iff.1 h _ (List.mem_map_of_mem ha)

end Json

/-! ## Records whose documents can be read -/

section records
variable {numbers : Int → Prop}

theorem Given.IsNumber.isShort {g : Given Int} (hg : g.IsNumber numbers) (h : g.toJson.Exact) :
    g.IsNumber IsShort := by
  obtain ⟨n, rfl, -⟩ := hg
  exact ⟨n, rfl, h⟩

theorem Given.IsLine.isShort {g : Given (Option Int)} (hg : g.IsLine numbers)
    (h : g.toJson.Exact) : g.IsLine IsShort := by
  obtain ⟨line, rfl, -⟩ := hg
  refine ⟨line, rfl, ?_⟩
  rintro n rfl
  exact h

namespace Document

theorem isShort_metadata {m : Metadata} (hm : m.WellFormed numbers) (h : (metadataJson m).Exact) :
    m.WellFormed IsShort where
  file := hm.file
  line := hm.line.isShort (h.member (k := "line") (by simp))
  reflected := hm.reflected
  tags := hm.tags
  attributes := hm.attributes
  comment := hm.comment

theorem isShort_field {f : Field} (hf : f.WellFormed numbers) (h : (fieldJson f).Exact) :
    f.WellFormed IsShort where
  use := hf.use
  metadata := isShort_metadata hf.metadata (h.member (k := "metadata") (by simp))

theorem isShort_method {f : Method} (hf : f.WellFormed numbers) (h : (methodJson f).Exact) :
    f.WellFormed IsShort where
  result := hf.result
  arguments := hf.arguments
  metadata := isShort_metadata hf.metadata
    (h.member (k := "metadata") (by simp [callableMembers]))

theorem isShort_class {c : ClassRecord} (hc : c.WellFormed numbers) (h : (classJson c).Exact) :
    c.WellFormed IsShort where
  metadata := isShort_metadata hc.metadata (h.member (k := "metadata") (by simp))
  abstractness := hc.abstractness
  fields f hf := isShort_field (hc.fields f hf) ((h.member (k := "fields") (by simp)).item hf)
  methods f hf :=
    isShort_method (hc.methods f hf) ((h.member (k := "methods") (by simp)).item hf)
  bases := hc.bases
  bodyLine := hc.bodyLine.isShort (h.member (k := "generated_body_line") (by simp))

theorem isShort_enumerator {e : Enumerator} (he : e.WellFormed numbers)
    (h : (enumeratorJson e).Exact) : e.WellFormed IsShort where
  name := he.name
  value := he.value.isShort (h.member (k := "value") (by simp))
  metadata := isShort_metadata he.metadata (h.member (k := "metadata") (by simp))

theorem isShort_enum {e : EnumRecord} (he : e.WellFormed numbers) (h : (enumJson e).Exact) :
    e.WellFormed IsShort where
  metadata := isShort_metadata he.metadata (h.member (k := "metadata") (by simp))
  values f hf :=
    isShort_enumerator (he.values f hf) ((h.member (k := "values") (by simp)).item hf)
  bodyLine := he.bodyLine.isShort (h.member (k := "generated_body_line") (by simp))

theorem isShort_alias {a : AliasRecord} (ha : a.WellFormed numbers) (h : (aliasJson a).Exact) :
    a.WellFormed IsShort where
  metadata := isShort_metadata ha.metadata (h.member (k := "metadata") (by simp))
  targetClass := ha.targetClass
  targetEnum := ha.targetEnum

theorem isShort_function {f : FunctionRecord} (hf : f.WellFormed numbers)
    (h : (functionJson f).Exact) : f.WellFormed IsShort where
  id := hf.id
  result := hf.result
  arguments := hf.arguments
  metadata := isShort_metadata hf.metadata
    (h.member (k := "metadata") (by simp [callableMembers]))

/-- Where the text of a registry can be read, its whole numbers are not too long. -/
theorem isShort_of_parse {v : Registry} {indent : Option String} {j : Json} (hi : IsBlank indent)
    (hv : v.WellFormed fun _ => True) (hnames : ∀ t ∈ (typeTable v).items, t.id.WellFormed)
    (h : parse (toText v indent) = .ok j) : v.WellFormed IsShort := by
  have hexact : (encode v).Exact := (inherits_settles.encode trivial hv hnames).exact hi h
  exact {
    types := hv.types
    classes := fun c hc => isShort_class (hv.classes c hc)
      ((hexact.member (k := "classes") (by simp)).item hc)
    enums := fun e he => isShort_enum (hv.enums e he)
      ((hexact.member (k := "enums") (by simp)).item he)
    aliases := fun a ha => isShort_alias (hv.aliases a ha)
      ((hexact.member (k := "aliases") (by simp)).item ha)
    functions := fun f hf => isShort_function (hv.functions f hf)
      ((hexact.member (k := "functions") (by simp)).item hf) }

end Document
end records
end Introspect
