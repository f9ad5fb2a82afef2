import Introspect.Document.Encode
import Introspect.Proofs.Json.RoundTrip
import Introspect.Proofs.Registry.WellFormed

/-! What holds of every value of a document when it holds of the parts; above all, that the document
of a well-formed registry holds nothing that its text would lose. -/
namespace Introspect
open Json

/-- The property passes from the parts of a value to the value. It holds of the whole numbers for
which `numbers` holds, and of objects in which no name stands twice. -/
structure Json.Inherits (numbers : Int → Prop) (P : Json → Prop) : Prop where
  null : P .null
  bool : ∀ b, P (.bool b)
  text : ∀ s, P (.text s)
  int : ∀ n, numbers n → P (.int n)
  array : ∀ xs, (∀ x ∈ xs, P x) → P (.array xs)
  object : ∀ ms, (ms.map Prod.fst).Nodup → (∀ m ∈ ms, P m.2) → P (.object ms)

theorem Json.inherits_exact : Inherits IsShort Exact where
  null := trivial
  bool _ := trivial
  text _ := trivial
  int _ h := h
  array _ h := itemsExact_iff.2 h
  object _ hnames h := ⟨hnames, membersExact_iff.2 h⟩

namespace Json.Inherits
variable {numbers : Int → Prop} {P : Json → Prop} (hP : Inherits numbers P)
include hP

theorem properText {g : Given String} (hg : g.IsProper) : P g.toJson := by
  obtain ⟨s, rfl⟩ := hg
  exact hP.text s

theorem properBool {g : Given Bool} (hg : g.IsProper) : P g.toJson := by
  obtain ⟨b, rfl⟩ := hg
  exact hP.bool b

theorem properOptional {g : Given (Option String)} (hg : g.IsProper) : P g.toJson := by
  obtain ⟨s, rfl⟩ := hg
  cases s with
  | none => exact hP.null
  | some s => exact hP.text s

theorem number {g : Given Int} (hg : g.IsNumber numbers) : P g.toJson := by
  obtain ⟨n, rfl, hn⟩ := hg
  exact hP.int n hn

theorem line {g : Given (Option Int)} (hg : g.IsLine numbers) : P g.toJson := by
  obtain ⟨line, rfl, hline⟩ := hg
  cases line with
  | none => exact hP.null
  | some n => exact hP.int n (hline n rfl)

theorem list {α : Type} {f : α → Json} {l : List α} (h : ∀ a ∈ l, P (f a)) :
    P (.array (l.map f)) := by
  apply hP.array
  intro x hx
  obtain ⟨a, ha, rfl⟩ := List.mem_map.1 hx
  exact h a ha

open Document

theorem noteJson {n : Note} (hn : n.value.IsProper) : P (noteJson n) := by
  apply hP.object _ (by simp)
  simp [hP.properText hn, hP.text]

theorem metadataJson {m : Metadata} (hm : m.WellFormed numbers) : P (metadataJson m) := by
  have htags : P (.array (m.tags.map Document.noteJson)) :=
    hP.list fun n hn => hP.noteJson (hm.tags n hn)
  have hattributes :
      P (.object (m.attributes.entries.map fun e => (e.1, Document.noteJson e.2))) := by
    apply hP.object
    · rw [List.map_map]
      exact m.attributes.catalog.nodup
    · intro e he
      obtain ⟨a, ha, rfl⟩ := List.mem_map.1 he
      exact hP.noteJson (hm.attributes a ha)
  apply hP.object _ (by simp)
  simp [hP.properBool hm.reflected, htags, hattributes, hP.number hm.line,
    hP.properOptional hm.comment, hP.text]

theorem useJson {u : TypeUse} (hu : u.WellFormed) : P (useJson u) := by
  apply hP.object _ (by simp)
  simp [hP.properBool hu, hP.text]

theorem fieldJson {f : Field} (hf : f.WellFormed numbers) : P (fieldJson f) := by
  apply hP.object _ (by simp)
  simp [hP.useJson hf.use, hP.metadataJson hf.metadata, hP.text]

theorem callableMembers {name : Given String} {result : TypeUse} {arguments : List TypeUse}
    {metadata : Metadata} (hname : name.IsProper) (hresult : result.WellFormed)
    (harguments : ∀ u ∈ arguments, u.WellFormed) (hmetadata : metadata.WellFormed numbers) :
    ∀ m ∈ callableMembers name result arguments metadata, P m.2 := by
  have hlist : P (.array (arguments.map Document.useJson)) :=
    hP.list fun u hu => hP.useJson (harguments u hu)
  simp [Document.callableMembers, hP.properText hname, hP.useJson hresult, hlist,
    hP.metadataJson hmetadata]

theorem methodJson {m : Method} (hm : m.WellFormed numbers) : P (methodJson m) :=
  hP.object _ (by simp [Document.callableMembers])
    (hP.callableMembers ⟨m.name, rfl⟩ hm.result hm.arguments hm.metadata)

theorem classJson {c : ClassRecord} (hc : c.WellFormed numbers) : P (classJson c) := by
  have hfields : P (.array (c.fields.map Document.fieldJson)) :=
    hP.list fun f hf => hP.fieldJson (hc.fields f hf)
  have hmethods : P (.array (c.methods.map Document.methodJson)) :=
    hP.list fun m hm => hP.methodJson (hc.methods m hm)
  have hbases : P (.array (c.bases.map Given.toJson)) :=
    hP.list fun b hb => hP.properText (hc.bases b hb)
  apply hP.object _ (by simp)
  simp [hP.metadataJson hc.metadata, hP.properBool hc.abstractness, hfields, hmethods, hbases,
    hP.line hc.bodyLine, hP.text]

theorem enumeratorJson {v : Enumerator} (hv : v.WellFormed numbers) : P (enumeratorJson v) := by
  apply hP.object _ (by simp)
  simp [hP.properText hv.name, hP.number hv.value, hP.metadataJson hv.metadata]

theorem enumJson {e : EnumRecord} (he : e.WellFormed numbers) : P (enumJson e) := by
  have hvalues : P (.array (e.values.map Document.enumeratorJson)) :=
    hP.list fun v hv => hP.enumeratorJson (he.values v hv)
  apply hP.object _ (by simp)
  simp [hP.metadataJson he.metadata, hvalues, hP.line he.bodyLine, hP.text]

theorem aliasJson {a : AliasRecord} (ha : a.WellFormed numbers) : P (aliasJson a) := by
  apply hP.object _ (by simp)
  simp [hP.metadataJson ha.metadata, hP.properOptional ha.targetClass,
    hP.properOptional ha.targetEnum, hP.text]

theorem functionJson {f : FunctionRecord} (hf : f.WellFormed numbers) : P (functionJson f) := by
  apply hP.object _ (by simp [Document.callableMembers])
  intro m hm
  obtain hm | hm := List.mem_append.1 hm
  · exact hP.callableMembers hf.id.name hf.result hf.arguments hf.metadata m hm
  · obtain rfl := List.mem_singleton.1 hm
    exact hP.properText hf.id.scope

theorem typeJson {t : CppType} (ht : t.id.WellFormed) : P (typeJson t) := by
  have hid : ∀ m ∈ [("id", Json.text t.qualifiedName), ("name", t.id.givenName.toJson),
      ("namespace", t.id.givenScope.toJson), ("kind", .text t.kind.label)], P m.2 := by
    simp [hP.properText ht.name, hP.properText ht.scope, hP.text]
  cases t with
  | plain i k => exact hP.object _ (by simp [CppType.template?]) hid
  | templated i k g a as =>
    have harguments : P (Json.texts ((a :: as).map CppType.qualifiedName)) :=
      hP.list fun s _ => hP.text s
    have htemplate : P (.object [("kind", .text g.label),
        ("arguments", Json.texts ((a :: as).map CppType.qualifiedName))]) := by
      apply hP.object _ (by simp)
      simpa [hP.text] using harguments
    refine hP.object _ (by simp [CppType.template?]) ?_
    intro m hm
    obtain hm | hm := List.mem_append.1 hm
    · exact hid m hm
    · obtain rfl := List.mem_singleton.1 hm
      exact htemplate

theorem types {types : Catalog CppType.qualifiedName} (h : ∀ t ∈ types.items, t.id.WellFormed) :
    P (.array (types.items.map Document.typeJson)) :=
  hP.list fun t ht => hP.typeJson (h t ht)

/-- What passes from parts to wholes holds of a document if the types of its table have proper
names. -/
theorem encode (hversion : numbers version) {r : Registry} (hr : r.WellFormed numbers)
    (htypes : ∀ t ∈ (typeTable r).items, t.id.WellFormed) : P (encode r) := by
  have htable : P (.array ((typeTable r).items.map Document.typeJson)) := hP.types htypes
  have hclasses : P (.array (r.classes.items.map Document.classJson)) :=
    hP.list fun c hc => hP.classJson (hr.classes c hc)
  have henums : P (.array (r.enums.items.map Document.enumJson)) :=
    hP.list fun e he => hP.enumJson (hr.enums e he)
  have haliases : P (.array (r.aliases.items.map Document.aliasJson)) :=
    hP.list fun a ha => hP.aliasJson (hr.aliases a ha)
  have hfunctions : P (.array (r.functions.items.map Document.functionJson)) :=
    hP.list fun f hf => hP.functionJson (hr.functions f hf)
  apply hP.object _ (by simp)
  simp [hP.int version hversion, htable, hclasses, henums, haliases, hfunctions]

end Json.Inherits

namespace Document

theorem isShort_version : IsShort version := by
  change (Nat.toDigits 10 1).length ≤ _
  decide

/-- The whole document is exact if the types of its table have proper names. -/
theorem exact_encode {r : Registry} (hr : r.WellFormed IsShort)
    (htypes : ∀ t ∈ (typeTable r).items, t.id.WellFormed) : (encode r).Exact :=
  inherits_exact.encode isShort_version hr htypes

end Document
end Introspect
