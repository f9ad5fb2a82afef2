import Introspect.Document.Encode
import Introspect.Proofs.Registry.Renewal

/-! Registries whose documents are the same. A document gives a type by its name wherever a record
mentions it, so nothing in it tells a type that is out of date from the one that is registered. -/
namespace Introspect

namespace Category

/-- What stands in a document for a record of a category. -/
def json : (c : Category) → c.Record → Json
  | .types => Document.typeJson
  | .classes => Document.classJson
  | .enums => Document.enumJson
  | .aliases => Document.aliasJson
  | .functions => Document.functionJson

variable {f : CppType → CppType}

private theorem useJson_mapType (hf : CppType.KeepsNames f) (u : TypeUse) :
    Document.useJson (u.mapType f) = Document.useJson u := by
  simp only [Document.useJson, TypeUse.mapType, hf u.type]

private theorem callableMembers_mapType (hf : CppType.KeepsNames f) (name : Given String)
    (result : TypeUse) (arguments : List TypeUse) (metadata : Metadata) :
    Document.callableMembers name (result.mapType f) (arguments.map (TypeUse.mapType f)) metadata =
      Document.callableMembers name result arguments metadata := by
  have harguments : (arguments.map (TypeUse.mapType f)).map Document.useJson =
      arguments.map Document.useJson := by
    rw [List.map_map]
    exact List.map_congr_left fun u _ => useJson_mapType hf u
  simp only [Document.callableMembers, useJson_mapType hf, harguments]

private theorem methodJson_mapTypes (hf : CppType.KeepsNames f) (m : Method) :
    Document.methodJson (m.mapTypes f) = Document.methodJson m :=
  congrArg Json.object (callableMembers_mapType hf m.name m.result m.arguments m.metadata)

private theorem classJson_mapTypes (hf : CppType.KeepsNames f) (c : ClassRecord) :
    Document.classJson (c.mapTypes f) = Document.classJson c := by
  have hfields : (c.fields.map (Field.mapType f)).map Document.fieldJson =
      c.fields.map Document.fieldJson := by
    rw [List.map_map]
    refine List.map_congr_left fun m _ => ?_
    simp only [Function.comp_apply, Document.fieldJson, Field.mapType, useJson_mapType hf]
  have hmethods : (c.methods.map (Method.mapTypes f)).map Document.methodJson =
      c.methods.map Document.methodJson := by
    rw [List.map_map]
    exact List.map_congr_left fun m _ => methodJson_mapTypes hf m
  simp only [Document.classJson, ClassRecord.mapTypes, hf c.type, hfields, hmethods]

private theorem typeJson_mapArguments (hf : CppType.KeepsNames f) (t : CppType) :
    Document.typeJson (t.mapArguments f) = Document.typeJson t := by
  have hnames : (t.arguments.map f).map CppType.qualifiedName =
      t.arguments.map CppType.qualifiedName := by
    rw [List.map_map]
    exact List.map_congr_left fun a _ => hf a
  simp only [Document.typeJson, CppType.qualifiedName_mapArguments, CppType.id_mapArguments,
    CppType.kind_mapArguments, CppType.template?_mapArguments, CppType.arguments_mapArguments,
    hnames]

/-- The document of a record shows its types by their names only. -/
theorem json_mapTypes (hf : CppType.KeepsNames f) (c : Category) (v : c.Record) :
    c.json (c.mapTypes f v) = c.json v := by
  cases c with
  | types => exact typeJson_mapArguments hf v
  | classes => exact classJson_mapTypes hf v
  | enums => simp only [json, mapTypes, Document.enumJson, hf v.type]
  | aliases => simp only [json, mapTypes, Document.aliasJson, hf v.type, hf v.target]
  | functions =>
    exact congrArg (fun ms => Json.object (ms ++ [("namespace", v.id.givenScope.toJson)]))
      (callableMembers_mapType hf v.id.givenName v.result v.arguments v.metadata)

end Category

namespace Registry
variable {a a' b b' r : Registry}

/-- The two registries know the same names in the same order, for records that look the same in a
document. -/
structure Alike (a b : Registry) : Prop where
  keys : ∀ c, (a.records c).keys = (b.records c).keys
  json : ∀ c n, (a.record? c n).map c.json = (b.record? c n).map c.json

namespace Alike

theorem of_records (h : ∀ c, a.records c = b.records c) : a.Alike b :=
  ⟨fun c => by rw [h c], fun c n => by rw [record?, record?, h c]⟩

theorem refl (a : Registry) : a.Alike a := of_records fun _ => rfl

theorem symm (h : a.Alike b) : b.Alike a := ⟨fun c => (h.keys c).symm, fun c n => (h.json c n).symm⟩

theorem trans (h : a.Alike b) (h' : b.Alike r) : a.Alike r :=
  ⟨fun c => (h.keys c).trans (h'.keys c), fun c n => (h.json c n).trans (h'.json c n)⟩

theorem relink (f : CppType → CppType) (hf : CppType.KeepsNames f) (r : Registry) :
    (r.relink f hf).Alike r := by
  constructor
  · intro c
    rw [records_relink, Catalog.keys_mapValues]
  · intro c n
    rw [record?_relink, Option.map_map]
    exact congrArg (Option.map · (r.record? c n)) (funext fun v => c.json_mapTypes hf v)

theorem union (ha : a.Alike a') (hb : b.Alike b') : (a.union b).Alike (a'.union b') := by
  constructor
  · intro c
    have hkeys : (b.records c).items.map c.key = (b'.records c).items.map c.key := hb.keys c
    rw [records_union, records_union, Catalog.keys_insertAll, Catalog.keys_insertAll, ha.keys c,
      hkeys]
  · intro c n
    rw [record?_union, record?_union, Option.map_or, Option.map_or, ha.json c n, hb.json c n]

/-- A union looks no different when the records that stay follow the types that come in. -/
theorem renewed (a b : Registry) : (a.renewed b).Alike (a.union b) :=
  (relink _ _ a).union (refl b)

theorem items (h : a.Alike b) (c : Category) :
    (a.records c).items.map c.json = (b.records c).items.map c.json := by
  have hkeys := h.keys c
  apply List.ext_getElem
  · simpa [Catalog.keys] using congrArg List.length hkeys
  · intro n ha hb
    simp only [List.length_map] at ha hb
    have hkey : c.key (a.records c).items[n] = c.key (b.records c).items[n] := by
      have hn := congrArg (fun l => l[n]?) hkeys
      simpa [Catalog.keys, ha, hb] using hn
    have hjson := h.json c (c.key (a.records c).items[n])
    rw [record?_of_mem (List.getElem_mem ha), hkey, record?_of_mem (List.getElem_mem hb)] at hjson
    simpa using hjson

/-- Registries that have all the types of their documents look the same when their records do. -/
theorem encode_eq (h : a.Alike b) (ha : Document.typeTable a = a.types)
    (hb : Document.typeTable b = b.types) : Document.encode a = Document.encode b := by
  have htypes : a.types.items.map Document.typeJson = b.types.items.map Document.typeJson :=
    h.items .types
  have hclasses : a.classes.items.map Document.classJson = b.classes.items.map Document.classJson :=
    h.items .classes
  have henums : a.enums.items.map Document.enumJson = b.enums.items.map Document.enumJson :=
    h.items .enums
  have haliases : a.aliases.items.map Document.aliasJson = b.aliases.items.map Document.aliasJson :=
    h.items .aliases
  have hfunctions : a.functions.items.map Document.functionJson =
      b.functions.items.map Document.functionJson := h.items .functions
  simp only [Document.encode, ha, hb, htypes, hclasses, henums, haliases, hfunctions]

end Alike

/-- A union has registered a type for every name that is mentioned in it. -/
theorem Named.union (ha : a.Named) (hb : b.Named) : (a.union b).Named := by
  intro t ht
  rw [← Catalog.find?_isSome_iff, find?_types_union, Option.isSome_or, Bool.or_eq_true,
    Catalog.find?_isSome_iff, Catalog.find?_isSome_iff]
  rcases mentions_union.1 ht with ht | ht
  · exact .inl (hb t ht)
  · exact .inr (ha t (mentions_of_beyond ht))

/-- The document of a union of coherent registries is that of a coherent registry. -/
theorem encode_union (ha : a.Coherent) (hb : b.Coherent) :
    Document.encode (a.union b) = Document.encode (a.renewed b) :=
  (Alike.renewed a b).symm.encode_eq
    (Document.typeTable_of_named (ha.named.union hb.named))
    (Document.typeTable_of_coherent (ha.renewed hb))

end Registry
end Introspect
