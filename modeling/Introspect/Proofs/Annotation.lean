import Mathlib.Data.List.Basic
import Introspect.Annotation
import Introspect.Proofs.Catalog

/-! Annotations and the metadata that they leave. A string is read exactly by the grammar of its
marker, each annotation in its turn adds one tag or binds one attribute, and tags and attributes that
can be written down come back. -/
namespace Introspect

/-- A text has no separator and is not cut, or it is cut at the first. -/
theorem Text.cutAt_cases (sep : Char) (s : List Char) :
    (sep ∉ s ∧ cutAt sep s = (s, none)) ∨
      ∃ a r, s = a ++ sep :: r ∧ sep ∉ a ∧ cutAt sep s = (a, some r) := by
  by_cases h : sep ∈ s
  · obtain ⟨a, r, rfl, ha⟩ := List.eq_append_cons_of_mem h
    exact .inr ⟨a, r, rfl, ha, cutAt_append ha⟩
  · exact .inl ⟨h, cutAt_of_not_mem h⟩

theorem Text.cutAt_comma {a : String} (h : ',' ∉ a.toList) (r : String) :
    cutAt ',' (a ++ "," ++ r).toList = (a.toList, some r.toList) := by
  simpa using cutAt_append h

namespace Annotation

/-! ## The grammar -/

/-- What is said with a lifetime: a name, or a name, a comma and a value. A blank value leaves a tag. -/
inductive Entry (lifetime : Lifetime) : String → Annotation → Prop
  | bare {name} : ',' ∉ name.toList → Entry lifetime name (.tag ⟨name, lifetime⟩)
  | blank {name value} : ',' ∉ name.toList → Text.trimmed value = "" →
      Entry lifetime (name ++ "," ++ value) (.tag ⟨name, lifetime⟩)
  | valued {name value} : ',' ∉ name.toList → Text.trimmed value ≠ "" →
      Entry lifetime (name ++ "," ++ value) (.attribute name ⟨Text.trimmed value, lifetime⟩)

/-- The annotations of a marker as they are written, and what each of them says. -/
inductive Says (marker : String) : String → Annotation → Prop
  | mark : Says marker marker .mark
  | entry {lifetime : Lifetime} {payload a} : Entry lifetime payload a →
      Says marker (marker ++ "-meta-" ++ lifetime.label ++ ":" ++ payload) a
  | named {name} : ',' ∉ name.toList → Says marker (marker ++ "," ++ name) (.tag ⟨name, .runtime⟩)
  | keyed {key value} : ',' ∉ key.toList →
      Says marker (marker ++ "," ++ key ++ "," ++ value) (.attribute key ⟨value, .runtime⟩)

variable {marker s : String} {a : Annotation} {lifetime : Lifetime}

theorem lifetime?_eq_some_iff {t : List Char} :
    lifetime? t = some lifetime ↔ t = lifetime.label.toList := by
  unfold lifetime?
  split
  · next h => subst h; cases lifetime <;> decide
  · split
    · next h => subst h; cases lifetime <;> decide
    · cases lifetime <;> simp_all [Lifetime.label]

private theorem colon_not_mem_label : ':' ∉ lifetime.label.toList := by
  cases lifetime <;> decide

/-- A key, a separator and a value, put together from characters. -/
private theorem ofList_append_cons (a r : List Char) (sep : Char) :
    String.ofList (a ++ sep :: r) = String.ofList a ++ String.ofList [sep] ++ String.ofList r :=
  String.toList_inj.1 (by simp)

/-- What the part behind the colon of an annotation makes of it. -/
def ofPayload (lifetime : Lifetime) (t : List Char) : Annotation :=
  let p := Text.cutAt ',' t
  let value := Text.trim (p.2.getD [])
  if value.isEmpty then .tag ⟨String.ofList p.1, lifetime⟩
  else .attribute (String.ofList p.1) ⟨String.ofList value, lifetime⟩

private theorem entry_ofPayload (lifetime : Lifetime) (t : List Char) :
    Entry lifetime (String.ofList t) (ofPayload lifetime t) := by
  rw [ofPayload]
  obtain ⟨ht, hcut⟩ | ⟨name, value, rfl, hname, hcut⟩ := Text.cutAt_cases ',' t
  · rw [hcut]
    exact .bare (by simpa using ht)
  · rw [hcut, ofList_append_cons]
    by_cases hblank : Text.trim value = []
    · simp only [Option.getD_some, hblank]
      exact .blank (by simpa using hname) (by simp [Text.trimmed, hblank])
    · have hvalue : Text.trimmed (String.ofList value) = String.ofList (Text.trim value) := by
        simp [Text.trimmed]
      simp only [Option.getD_some, List.isEmpty_iff, hblank, if_false, ← hvalue]
      refine .valued (by simpa using hname) ?_
      rw [hvalue]
      simpa using hblank

theorem ofPayload_eq_iff {payload : String} :
    ofPayload lifetime payload.toList = a ↔ Entry lifetime payload a := by
  constructor
  · rintro rfl
    simpa using entry_ofPayload lifetime payload.toList
  · intro h
    cases h with
    | @bare name hname =>
      rw [ofPayload, Text.cutAt_of_not_mem hname, String.ofList_toList]
      rfl
    | @blank name value hname hblank =>
      rw [Text.trimmed, String.ofList_eq_empty_iff] at hblank
      rw [ofPayload, Text.cutAt_comma hname, String.ofList_toList, Option.getD_some, hblank]
      rfl
    | @valued name value hname hvalue =>
      rw [Text.trimmed, ne_eq, String.ofList_eq_empty_iff, ← List.isEmpty_iff] at hvalue
      rw [ofPayload, Text.cutAt_comma hname, String.ofList_toList, Option.getD_some]
      exact if_neg hvalue

theorem ofMeta?_eq_some_iff {t : List Char} :
    ofMeta? t = some a ↔
      ∃ lifetime payload, t = (Lifetime.label lifetime ++ ":" ++ payload).toList ∧
        Entry lifetime payload a := by
  rw [ofMeta?]
  obtain ⟨ht, hcut⟩ | ⟨kind, payload, rfl, hkind, hcut⟩ := Text.cutAt_cases ':' t
  · rw [hcut]
    refine iff_of_false (by simp) ?_
    rintro ⟨lifetime, payload, rfl, -⟩
    simp at ht
  · rw [hcut]
    simp only [Option.map_eq_some_iff, lifetime?_eq_some_iff]
    constructor
    · rintro ⟨lifetime, rfl, rfl⟩
      exact ⟨lifetime, String.ofList payload, by simp, entry_ofPayload lifetime payload⟩
    · rintro ⟨lifetime, payload', ht, hentry⟩
      have hcut' : Text.cutAt ':' (Lifetime.label lifetime ++ ":" ++ payload').toList =
          (lifetime.label.toList, some payload'.toList) := by
        simpa using Text.cutAt_append colon_not_mem_label
      rw [← ht, hcut] at hcut'
      simp only [Prod.mk.injEq, Option.some.injEq] at hcut'
      obtain ⟨rfl, rfl⟩ := hcut'
      exact ⟨lifetime, rfl, ofPayload_eq_iff.2 hentry⟩

theorem says_ofPlain (t : List Char) :
    Says marker (marker ++ "," ++ String.ofList t) (ofPlain t) := by
  rw [ofPlain]
  obtain ⟨ht, hcut⟩ | ⟨key, value, rfl, hkey, hcut⟩ := Text.cutAt_cases ',' t
  · rw [hcut]
    exact .named (by simpa using ht)
  · rw [hcut, ofList_append_cons, ← String.append_assoc, ← String.append_assoc]
    exact .keyed (by simpa using hkey)

/-- Behind the marker of an annotation with a lifetime there is a hyphen, behind any other marker that
something follows a comma. -/
private theorem afterPrefix?_comma (marker r : String) :
    Text.afterPrefix? (marker ++ "-meta-") (marker ++ "," ++ r) = none := by
  rw [Option.eq_none_iff_forall_ne_some]
  intro t ht
  have hlists := congrArg String.toList (Text.afterPrefix?_eq_some_iff.1 ht)
  simp at hlists

private theorem append_ne_self {marker r : String} (hr : r ≠ "") : marker ++ r ≠ marker := by
  intro h
  have hlength := congrArg String.length h
  simp only [String.length_append] at hlength
  exact hr (by simpa using hlength)

private theorem parse?_of_says (hmarker : ',' ∉ marker.toList) (h : Says marker s a) :
    parse? marker s = some a := by
  have hplain : ∀ r, parse? marker (marker ++ "," ++ r) = some (ofPlain r.toList) := by
    intro r
    have hne : marker ++ "," ++ r ≠ marker := by
      rw [String.append_assoc]
      exact append_ne_self (by simp)
    have hstart : Text.startsWith (marker ++ ",") (marker ++ "," ++ r) = true := by
      rw [Text.startsWith, Text.afterPrefix?_eq_some_iff.2 rfl, Option.isSome_some]
    rw [parse?, if_neg hne, afterPrefix?_comma, if_pos hstart, Text.cutAt_comma hmarker,
      Option.getD_some]
  cases h with
  | mark => simp [parse?]
  | @entry lifetime payload a hentry =>
    have hne : marker ++ "-meta-" ++ lifetime.label ++ ":" ++ payload ≠ marker := by
      simp only [String.append_assoc]
      exact append_ne_self (by simp)
    have hafter : Text.afterPrefix? (marker ++ "-meta-")
        (marker ++ "-meta-" ++ lifetime.label ++ ":" ++ payload) =
          some (lifetime.label ++ ":" ++ payload) :=
      Text.afterPrefix?_eq_some_iff.2 (by simp only [String.append_assoc])
    rw [parse?, if_neg hne, hafter]
    exact ofMeta?_eq_some_iff.2 ⟨lifetime, payload, rfl, hentry⟩
  | @named name hname =>
    rw [hplain, ofPlain, Text.cutAt_of_not_mem hname, String.ofList_toList]
  | @keyed key value hkey =>
    have hassoc : marker ++ "," ++ key ++ "," ++ value = marker ++ "," ++ (key ++ "," ++ value) := by
      simp only [String.append_assoc]
    rw [hassoc, hplain, ofPlain, Text.cutAt_comma hkey]
    simp only [String.ofList_toList]

/-- With a marker without a comma a string is read as what the grammar says, and else not at all. -/
theorem parse?_eq_some_iff (hmarker : ',' ∉ marker.toList) :
    parse? marker s = some a ↔ Says marker s a := by
  refine ⟨fun h => ?_, parse?_of_says hmarker⟩
  rw [parse?] at h
  split at h
  · next heq =>
    obtain rfl := Option.some.inj h
    exact heq ▸ .mark
  · split at h
    · next r hr =>
      obtain ⟨lifetime, payload, ht, hentry⟩ := ofMeta?_eq_some_iff.1 h
      obtain rfl := Text.afterPrefix?_eq_some_iff.1 hr
      obtain rfl := String.toList_inj.1 ht
      simpa only [String.append_assoc] using Says.entry hentry
    · split at h
      · next hstart =>
        obtain ⟨r, hr⟩ := Option.isSome_iff_exists.1 hstart
        obtain rfl := Text.afterPrefix?_eq_some_iff.1 hr
        rw [Text.cutAt_comma hmarker] at h
        obtain rfl := Option.some.inj h
        simpa using (show Says marker _ _ from says_ofPlain r.toList)
      · cases h

/-! ## What a list of annotations leaves -/

/-- The tag that an annotation adds. -/
def tag? : Annotation → Option Note
  | .tag n => some n
  | _ => none

/-- The attribute that an annotation binds. -/
def binding? : Annotation → Option (String × Note)
  | .attribute k n => some (k, n)
  | _ => none

/-- Each annotation in its turn: the tags come last in their order, the attributes are bound. -/
theorem foldl_apply (said : List Annotation) (m : Metadata) :
    said.foldl apply m = { m with
      reflected := if said = [] then m.reflected else true
      tags := m.tags ++ said.filterMap tag?
      attributes := ⟨m.attributes.catalog.insertAll (said.filterMap binding?)⟩ } := by
  induction said generalizing m with
  | nil => simp [Catalog.insertAll]
  | cons a said ih =>
    rw [List.foldl_cons, ih]
    obtain _ | n | ⟨k, n⟩ := a
    · simp [apply, List.filterMap_cons, tag?, binding?]
    · simp [apply, List.filterMap_cons, tag?, binding?]
    · simp [apply, List.filterMap_cons, tag?, binding?, Table.insert, Catalog.insertAll]

end Annotation

namespace Metadata
open Annotation
variable {marker : String}

/-- A list of annotation strings leaves what those of them say that say anything. -/
theorem annotateAll_eq_foldl (marker : String) (m : Metadata) (l : List String) :
    m.annotateAll marker l = (l.filterMap (parse? marker)).foldl apply m := by
  induction l generalizing m with
  | nil => rfl
  | cons s l ih =>
    have hrest : m.annotateAll marker (s :: l) = _ := ih (m.annotate marker s).1
    rw [hrest, annotate]
    cases hs : Annotation.parse? marker s with
    | none => rw [List.filterMap_cons_none hs]
    | some a => rw [List.filterMap_cons_some hs, List.foldl_cons]

/-- Metadata of a place that hold what some annotations say: the tags in order, and each attribute
where its name came first with the value that came last. -/
structure Holds (file : Path) (line : Int) (said : List Annotation) (m : Metadata) : Prop where
  file : m.file = file
  line : m.line = .proper line
  comment : m.comment = .proper none
  isReflected : m.isReflected = true ↔ said ≠ []
  tags : m.tags = said.filterMap Annotation.tag?
  names : m.attributes.keys = ((said.filterMap Annotation.binding?).map Prod.fst).eraseDups
  values : ∀ k, m.attributes.find? k =
    ((said.filterMap Annotation.binding?).reverse.find? fun e => e.1 = k).map Prod.snd

theorem holds_foldl (file : Path) (line : Int) (said : List Annotation) :
    Holds file line said (said.foldl Annotation.apply (bare file line)) := by
  rw [foldl_apply]
  refine ⟨rfl, rfl, rfl, ?_, List.nil_append _, ?_, fun k => ?_⟩
  · by_cases h : said = [] <;> simp [h, isReflected, bare]
  · exact Catalog.keys_insertAll .empty _
  · rw [Table.find?, Catalog.find?_insertAll_reverse]
    simp [bare, Table.empty]

end Metadata

namespace Annotation
variable {marker : String}

/-- An annotation as it can be written. -/
def written (marker : String) : Annotation → String
  | .mark => marker
  | .tag n => marker ++ "-meta-" ++ n.lifetime.label ++ ":" ++ n.value.text
  | .attribute k n => marker ++ "-meta-" ++ n.lifetime.label ++ ":" ++ (k ++ "," ++ n.value.text)

/-- Tags and attributes that can be written: the names have no comma, and the values of attributes are
something, without white space around. -/
structure IsWritable (tags : List Note) (attributes : Table String Note) : Prop where
  tags : ∀ t ∈ tags, ∃ name, t.value = .proper name ∧ ',' ∉ name.toList
  names : ∀ k ∈ attributes.keys, ',' ∉ k.toList
  values : ∀ e ∈ attributes.entries, ∃ value, e.2.value = .proper value ∧ value ≠ "" ∧
    Text.trimmed value = value

/-- The mark, some tags and some attributes, as annotations. -/
def listed (tags : List Note) (attributes : Table String Note) : List Annotation :=
  .mark :: tags.map .tag ++ attributes.entries.map fun e => .attribute e.1 e.2

theorem IsWritable.said {tags : List Note} {attributes : Table String Note}
    (h : IsWritable tags attributes) {a : Annotation} (ha : a ∈ listed tags attributes) :
    Says marker (written marker a) a := by
  simp only [listed, List.cons_append, List.mem_cons, List.mem_append, List.mem_map] at ha
  obtain rfl | ⟨⟨value, lifetime⟩, ht, rfl⟩ | ⟨⟨k, ⟨value, lifetime⟩⟩, he, rfl⟩ := ha
  · exact .mark
  · obtain ⟨name, rfl, hname⟩ := h.tags _ ht
    exact .entry (.bare hname)
  · obtain ⟨value, rfl, hne, htrim⟩ := h.values _ he
    have hk : ',' ∉ k.toList := h.names k (Catalog.key_mem_keys he)
    have hentry : Entry lifetime _ _ := .valued hk (htrim.symm ▸ hne)
    rw [htrim] at hentry
    exact .entry hentry

/-- Read one by one, the annotations that list tags and attributes leave these and no others. -/
theorem foldl_listed (file : Path) (line : Int) (tags : List Note) (attributes : Table String Note) :
    (listed tags attributes).foldl apply (Metadata.bare file line) =
      { Metadata.bare file line with reflected := true, tags := tags, attributes := attributes } := by
  have htags : (listed tags attributes).filterMap tag? = tags := by
    simp [listed, List.filterMap_cons, List.filterMap_map, tag?, Function.comp_def]
  have hbindings : (listed tags attributes).filterMap binding? = attributes.entries := by
    simp [listed, List.filterMap_cons, List.filterMap_map, binding?, Function.comp_def]
  have hattributes : Table.mk (Catalog.insertAll .empty attributes.entries) = attributes :=
    Table.ofList_entries attributes
  rw [foldl_apply, htags, hbindings]
  simp only [Metadata.bare, Table.empty, hattributes, List.nil_append]
  rfl

theorem IsWritable.filterMap_written {tags : List Note} {attributes : Table String Note}
    (h : IsWritable tags attributes) (hmarker : ',' ∉ marker.toList) :
    ((listed tags attributes).map (written marker)).filterMap (parse? marker) =
      listed tags attributes := by
  have hread : ∀ a ∈ listed tags attributes, (parse? marker ∘ written marker) a = some a :=
    fun a ha => (parse?_eq_some_iff hmarker).2 (h.said ha)
  rw [List.filterMap_map, List.filterMap_congr hread, List.filterMap_some]

theorem parse?_eq_none_iff (hmarker : ',' ∉ marker.toList) {s : String} :
    parse? marker s = none ↔ ¬ ∃ a, Says marker s a := by
  simp only [← parse?_eq_some_iff hmarker, ← Option.isSome_iff_exists, Option.not_isSome_iff_eq_none]

end Annotation
open Annotation

/-- What annotations with a marker without a comma say, and what they leave. A string is read exactly
by the grammar, and it is recognised exactly when the grammar has it; any other says nothing, changes
nothing and may stand anywhere. A list of strings leaves what those of them say that say anything.
Tags and attributes that can be written come back from what is written. -/
theorem Metadata.annotateAll_holds {marker : String} (hmarker : ',' ∉ marker.toList) :
    (∀ s a, Annotation.parse? marker s = some a ↔ Annotation.Says marker s a) ∧
    (∀ (m : Metadata) s, (m.annotate marker s).2 = true ↔ ∃ a, Annotation.Says marker s a) ∧
    (∀ (m : Metadata) s, (¬ ∃ a, Annotation.Says marker s a) → m.annotate marker s = (m, false)) ∧
    (∀ file line l, Holds file line (l.filterMap (parse? marker))
      ((bare file line).annotateAll marker l)) ∧
    (∀ (m : Metadata) l foreign r, (∀ s ∈ foreign, ¬ ∃ a, Annotation.Says marker s a) →
      m.annotateAll marker (l ++ foreign ++ r) = m.annotateAll marker (l ++ r)) ∧
    (∀ file line tags attributes, Annotation.IsWritable tags attributes →
      (bare file line).annotateAll marker
          ((listed tags attributes).map (written marker)) =
        { bare file line with reflected := true, tags := tags, attributes := attributes }) := by
  have hread {s a} := Annotation.parse?_eq_some_iff (s := s) (a := a) hmarker
  have hforeign {s} := Annotation.parse?_eq_none_iff (s := s) hmarker
  refine ⟨fun _ _ => hread, fun m s => ?_, fun m s hs => ?_, fun file line l => ?_,
    fun m l foreign r hnone => ?_, fun file line tags attributes hwritable => ?_⟩
  · simp only [← hread, annotate]
    cases Annotation.parse? marker s <;> simp
  · rw [annotate, hforeign.2 hs]
  · rw [annotateAll_eq_foldl]
    exact holds_foldl file line _
  · have hnothing : foreign.filterMap (parse? marker) = [] :=
      List.filterMap_eq_nil_iff.2 fun s hs => hforeign.2 (hnone s hs)
    simp only [annotateAll_eq_foldl, List.filterMap_append, hnothing, List.append_nil]
  · rw [annotateAll_eq_foldl, hwritable.filterMap_written hmarker, Annotation.foldl_listed]

/-- Annotations of every form: one name is bound twice, and two strings are foreign. -/
def ranged : List String :=
  ["cpprefl-meta-runtime:Min, 0 ", "cpprefl", "cpprefl,Saved", "cpprefl,Range,0, 9", "cppreflx",
    "cpprefl-meta-forever:Max,9", "cpprefl-meta-compile:Min,,1", "cpprefl-meta-compile:Editor, "]

/-- The value bound last stands where its name came first. Without the foreign strings nothing else is
left, and what is left comes back from what is written of it. -/
theorem Metadata.annotateAll_holds_ranged :
    let place := bare (.ofString "/module/Range.h") 3
    let left := place.annotateAll "cpprefl" ranged
    let foreign := ["cppreflx", "cpprefl-meta-forever:Max,9"]
    ',' ∉ "cpprefl".toList ∧
      (∀ s ∈ foreign, ¬ ∃ a, Annotation.Says "cpprefl" s a) ∧
      left = place.annotateAll "cpprefl" (ranged.take 4 ++ ranged.drop 6) ∧
      left.tags = [⟨"Saved", .runtime⟩, ⟨"Editor", .compile⟩] ∧
      left.attributes = .ofList [("Min", ⟨",1", .compile⟩), ("Range", ⟨"0, 9", .runtime⟩)] ∧
      Annotation.IsWritable left.tags left.attributes ∧
      left = place.annotateAll "cpprefl"
        ((listed left.tags left.attributes).map (written "cpprefl")) := by
  intro place left foreign
  have hmarker : ',' ∉ "cpprefl".toList := by decide
  obtain ⟨hread, -, -, hholds, hskip, hwritten⟩ := annotateAll_holds hmarker
  have hforeign : ∀ s ∈ foreign, ¬ ∃ a, Annotation.Says "cpprefl" s a := by
    rintro s hs ⟨a, ha⟩
    have hparse := (hread s a).2 ha
    have hnone : ∀ s ∈ foreign, Annotation.parse? "cpprefl" s = none := by decide +kernel
    rw [hnone s hs] at hparse
    cases hparse
  have hleft := hholds (.ofString "/module/Range.h") 3 ranged
  have htags : left.tags = [⟨"Saved", .runtime⟩, ⟨"Editor", .compile⟩] :=
    hleft.tags.trans (by decide +kernel)
  have hattributes : left.attributes =
      .ofList [("Min", ⟨",1", .compile⟩), ("Range", ⟨"0, 9", .runtime⟩)] := by decide +kernel
  have hwritable : Annotation.IsWritable left.tags left.attributes := by
    rw [htags, hattributes]
    refine ⟨fun t ht => ?_, by decide +kernel, fun e he => ?_⟩
    · obtain rfl | rfl : t = ⟨"Saved", .runtime⟩ ∨ t = ⟨"Editor", .compile⟩ := by simpa using ht
      · exact ⟨"Saved", rfl, by decide⟩
      · exact ⟨"Editor", rfl, by decide⟩
    · rw [Table.entries_ofList (by decide)] at he
      obtain rfl | rfl : e = ("Min", ⟨",1", .compile⟩) ∨ e = ("Range", ⟨"0, 9", .runtime⟩) := by
        simpa using he
      · exact ⟨",1", rfl, by decide, by decide +kernel⟩
      · exact ⟨"0, 9", rfl, by decide, by decide +kernel⟩
  refine ⟨hmarker, hforeign, ?_, htags, hattributes, hwritable, ?_⟩
  · exact hskip place (ranged.take 4) foreign (ranged.drop 6) hforeign
  · rw [hwritten _ _ _ _ hwritable]
    decide +kernel

end Introspect
