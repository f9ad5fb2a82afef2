import Introspect.Proofs.Document.Entries
import Introspect.Proofs.Registry.Accumulation

/-! What is read from a document, whoever wrote it. When the entries of its type table go by their
own names, every type is one of the table, each name stands for one type, and the registry can be
written and read again. -/
namespace Introspect

/-- A record is read from a document as it stands. -/
def Category.Legible : (c : Category) → c.Record → Prop
  | .types, (t : CppType) => t.id.Numbered
  | .classes, (d : ClassRecord) => d.Legible
  | .enums, (e : EnumRecord) => e.Legible
  | .aliases, (a : AliasRecord) => a.metadata.file.Normal
  | .functions, (h : FunctionRecord) => h.Legible

namespace Document
variable {inv : Table Json CppType → Prop} {look : Json → Decoding CppType} {types : List CppType}

/-! ## Records -/

theorem normal_of_metadataOf {j : Json} {name : String} {m : Metadata}
    (h : requiredAs metadataOf j name = .ok m) : m.file.Normal := by
  obtain ⟨v, -, hv⟩ := bind_eq_ok_iff.1 h
  obtain ⟨file, -, hv⟩ := bind_eq_ok_iff.1 hv
  obtain ⟨tags, -, hv⟩ := bind_eq_ok_iff.1 hv
  obtain ⟨attributes, -, hv⟩ := bind_eq_ok_iff.1 hv
  cases hv
  exact Path.normal_ofString file

theorem normal_of_enumeratorOf {j : Json} {v : Enumerator} (h : enumeratorOf j = .ok v) :
    v.metadata.file.Normal := by
  obtain ⟨name, -, h⟩ := bind_eq_ok_iff.1 h
  obtain ⟨value, -, h⟩ := bind_eq_ok_iff.1 h
  obtain ⟨metadata, hmetadata, h⟩ := bind_eq_ok_iff.1 h
  cases h
  exact normal_of_metadataOf hmetadata

section reading
variable (hlook : ∀ j, Reads inv (look j) (· ∈ types))
include hlook

theorem reads_useOf (j : Json) : Reads inv (useOf look j) (·.type ∈ types) :=
  .lift_bind fun _ _ => (hlook _).bind fun _ ht => .pure ht

theorem reads_usesOf (j : Json) (name : String) :
    Reads inv (usesOf look j name) fun us => ∀ u ∈ us, u.type ∈ types :=
  .lift_bind fun _ _ => .mapM fun e _ => reads_useOf hlook e

theorem reads_fieldOf (j : Json) :
    Reads inv (fieldOf look j) fun f => f.use.type ∈ types ∧ f.metadata.file.Normal := by
  refine .lift_bind fun name _ => .lift_bind fun e _ => ?_
  refine (reads_useOf hlook e).bind fun use huse => ?_
  exact .lift_bind fun metadata hmetadata => .pure ⟨huse, normal_of_metadataOf hmetadata⟩

theorem reads_methodOf (j : Json) :
    Reads inv (methodOf look j) fun m =>
      (∀ t ∈ m.mentioned, t ∈ types) ∧ m.metadata.file.Normal := by
  refine .lift_bind fun name _ => .lift_bind fun e _ => ?_
  refine (reads_useOf hlook e).bind fun result hresult => ?_
  refine (reads_usesOf hlook j _).bind fun arguments harguments => ?_
  refine .lift_bind fun metadata hmetadata => .pure ⟨?_, normal_of_metadataOf hmetadata⟩
  exact List.forall_mem_cons.2 ⟨hresult, List.forall_mem_map.2 harguments⟩

theorem reads_classOf (j : Json) :
    Reads inv (classOf look j) fun c =>
      Category.classes.Legible c ∧ ∀ t ∈ Category.classes.mentioned c, t ∈ types := by
  refine .lift_bind fun name _ => (hlook name).bind fun type htype => ?_
  refine .lift_bind fun metadata hmetadata => .lift_bind fun key _ => ?_
  refine .lift_bind fun fieldItems _ => ?_
  refine (Reads.mapM fun e _ => reads_fieldOf hlook e).bind fun fields hfields => ?_
  refine .lift_bind fun methodItems _ => ?_
  refine (Reads.mapM fun e _ => reads_methodOf hlook e).bind fun methods hmethods => ?_
  refine .lift_bind fun bases _ => .pure ⟨⟨normal_of_metadataOf hmetadata, ?_, ?_⟩, ?_⟩
  · exact fun f hf => (hfields f hf).2
  · exact fun m hm => (hmethods m hm).2
  · intro t ht
    simp only [Category.mentioned, classTypes, List.mem_append, List.mem_cons, List.mem_map,
      List.mem_flatMap] at ht
    obtain (rfl | ⟨f, hf, rfl⟩) | ⟨m, hm, ht⟩ := ht
    · exact htype
    · exact (hfields f hf).1
    · exact (hmethods m hm).1 t (by simpa [Method.mentioned] using ht)

theorem reads_enumOf (j : Json) :
    Reads inv (enumOf look j) fun e =>
      Category.enums.Legible e ∧ ∀ t ∈ Category.enums.mentioned e, t ∈ types := by
  refine .lift_bind fun name _ => (hlook name).bind fun type htype => ?_
  refine .lift_bind fun metadata hmetadata => .lift_bind fun values hvalues => ?_
  refine .pure ⟨⟨normal_of_metadataOf hmetadata, fun v hv => ?_⟩, List.forall_mem_singleton.2 htype⟩
  obtain ⟨items, -, hread⟩ := bind_eq_ok_iff.1 hvalues
  obtain ⟨e, -, he⟩ := (mem_mapM_ok hread).1 hv
  exact normal_of_enumeratorOf he

theorem reads_aliasOf (j : Json) :
    Reads inv (aliasOf look j) fun a =>
      Category.aliases.Legible a ∧ ∀ t ∈ Category.aliases.mentioned a, t ∈ types := by
  refine .lift_bind fun name _ => (hlook name).bind fun type htype => ?_
  refine .lift_bind fun targetName _ => (hlook targetName).bind fun target htarget => ?_
  refine .lift_bind fun metadata hmetadata => .pure ⟨normal_of_metadataOf hmetadata, ?_⟩
  exact List.forall_mem_cons.2 ⟨htype, List.forall_mem_singleton.2 htarget⟩

/-- A function may turn out to have a name that is no text, which is for the registry to refuse. -/
theorem reads_functionOf (j : Json) :
    Reads inv (functionOf look j) fun f =>
      f.metadata.file.Normal ∧ ∀ t ∈ Category.functions.mentioned f, t ∈ types := by
  refine .lift_bind fun name _ => .lift_bind fun e _ => ?_
  refine (reads_useOf hlook e).bind fun result hresult => ?_
  refine (reads_usesOf hlook j _).bind fun arguments harguments => ?_
  refine .lift_bind fun metadata hmetadata => .pure ⟨normal_of_metadataOf hmetadata, ?_⟩
  exact List.forall_mem_cons.2 ⟨hresult, List.forall_mem_map.2 harguments⟩

end reading

/-! ## The registry that is filled -/

/-- The registry has these types and mentions no others, and it can be written and read. -/
structure Linked (hash : NameHash) (types : List CppType) (r : Registry) : Prop where
  hash : r.hash = hash
  items : r.types.items = types
  sound : r.Sound
  records : ∀ c, ∀ v ∈ (r.records c).items, c.Legible v ∧ ∀ t ∈ c.mentioned v, t ∈ types

section filling
variable {hash : NameHash} {r r' : Registry}

/-- A record comes in, and all else stays. -/
private theorem Linked.insert (hr : Linked hash types r) {c : Category} {v : c.Record}
    (hv : c.Legible v ∧ ∀ t ∈ c.mentioned v, t ∈ types) (hhash : r'.hash = r.hash)
    (hsound : r'.Sound) (htypes : r'.types = r.types)
    (hrecords : r'.records c = (r.records c).insert v)
    (hothers : ∀ d, d ≠ c → r'.records d = r.records d) : Linked hash types r' where
  hash := hhash.trans hr.hash
  items := htypes ▸ hr.items
  sound := hsound
  records d w hw := by
    by_cases hd : d = c
    · subst hd
      rw [hrecords] at hw
      obtain rfl | ⟨hw, -⟩ := Catalog.mem_items_insert.1 hw
      · exact hv
      · exact hr.records d w hw
    · rw [hothers d hd] at hw
      exact hr.records d w hw

private theorem Linked.ensureType_eq (hr : Linked hash types r) {t : CppType} (ht : t ∈ types)
    (h : r.ensureType t = .ok r') : r' = r := by
  obtain ⟨-, rfl⟩ | ⟨hno, -⟩ := Registry.ensureType_ok h
  · rfl
  · rw [← hr.items] at ht
    exact absurd (Catalog.key_mem_keys ht) hno

theorem Linked.addClass (hr : Linked hash types r) {e : Json × ClassRecord}
    (he : Category.classes.Legible e.2 ∧ ∀ t ∈ Category.classes.mentioned e.2, t ∈ types)
    (h : Document.addClass r e = .ok r') : Linked hash types r' := by
  simp only [Document.addClass, bind_eq_ok_iff] at h
  obtain ⟨_, -, _, -, _, -, _, -, hadd⟩ := h
  have hsound : r'.Sound := hr.sound.addClass hadd
  obtain ⟨-, -, r₁, hensure, rfl⟩ := Registry.addClass_ok hadd
  obtain rfl := hr.ensureType_eq (he.2 _ (List.mem_cons_self ..)) hensure
  exact hr.insert he rfl hsound rfl rfl (by rintro (_ | _ | _ | _ | _) h <;> trivial)

theorem Linked.addEnum (hr : Linked hash types r) {e : EnumRecord}
    (he : Category.enums.Legible e ∧ ∀ t ∈ Category.enums.mentioned e, t ∈ types)
    (h : r.addEnum e = .ok r') : Linked hash types r' := by
  have hsound : r'.Sound := hr.sound.addEnum h
  obtain ⟨r₁, hensure, rfl⟩ := Registry.addEnum_ok h
  obtain rfl := hr.ensureType_eq (he.2 _ (List.mem_cons_self ..)) hensure
  exact hr.insert he rfl hsound rfl rfl (by rintro (_ | _ | _ | _ | _) h <;> trivial)

theorem Linked.addAlias (hr : Linked hash types r) {a : AliasRecord}
    (ha : Category.aliases.Legible a ∧ ∀ t ∈ Category.aliases.mentioned a, t ∈ types)
    (h : r.addAlias a = .ok r') : Linked hash types r' := by
  have hsound : r'.Sound := hr.sound.addAlias h
  obtain ⟨r₁, hensure, rfl⟩ := Registry.addAlias_ok h
  obtain rfl := hr.ensureType_eq (ha.2 _ (List.mem_cons_self ..)) hensure
  exact hr.insert ha rfl hsound rfl rfl (by rintro (_ | _ | _ | _ | _) h <;> trivial)

theorem Linked.addFunction (hr : Linked hash types r) {f : FunctionRecord}
    (hf : f.metadata.file.Normal ∧ ∀ t ∈ Category.functions.mentioned f, t ∈ types)
    (h : Document.addFunction r f = .ok r') : Linked hash types r' := by
  obtain ⟨⟨⟩, hnumber, hadd⟩ := bind_eq_ok_iff.1 h
  have hsound : r'.Sound := hr.sound.addFunction hadd
  obtain ⟨holders, -, rfl⟩ := Registry.addFunction_ok hadd
  have hlegible : Category.functions.Legible f := ⟨requireNumber_iff.1 hnumber, hf.1⟩
  exact hr.insert ⟨hlegible, hf.2⟩ rfl hsound rfl rfl (by rintro (_ | _ | _ | _ | _) h <;> trivial)

/-- The types come in first, in their order. -/
theorem linked_of_foldlM {types : List CppType} (hnodup : (types.map CppType.qualifiedName).Nodup)
    (harguments : ∀ t ∈ types, ∀ a ∈ t.arguments, a ∈ types)
    (h : types.foldlM addType (Registry.empty hash) = .ok r) : Linked hash types r := by
  -- the induction goes over the types that are still to come
  have hadded : ∀ {l : List CppType} {r₁ : Registry}, l.foldlM addType r₁ = .ok r → r₁.Sound →
      r.Sound ∧ (∀ t ∈ l, t.id.Numbered) ∧
        ∃ holders, r = { r₁ with types := r₁.types.insertAll l, typeHolders := holders } := by
    intro l
    induction l with
    | nil =>
      rintro r₁ ⟨⟩ hsound
      exact ⟨hsound, nofun, r.typeHolders, rfl⟩
    | cons t l ih =>
      intro r₁ hfold hsound
      rw [List.foldlM_cons, bind_eq_ok_iff] at hfold
      obtain ⟨r₂, hfirst, hrest⟩ := hfold
      obtain ⟨⟨⟩, hnumber, hadd⟩ := bind_eq_ok_iff.1 hfirst
      obtain ⟨hsound', hnumbers, holders, rfl⟩ := ih hrest (hsound.addType hadd)
      obtain ⟨holders', -, rfl⟩ := Registry.addType_ok hadd
      exact ⟨hsound', List.forall_mem_cons.2 ⟨requireNumber_iff.1 hnumber, hnumbers⟩, holders, rfl⟩
  obtain ⟨hsound, hnumbers, holders, rfl⟩ := hadded h (Registry.sound_empty hash)
  have hitems : (Catalog.ofList types : Catalog CppType.qualifiedName).items = types :=
    Catalog.items_ofList hnodup
  refine ⟨rfl, hitems, hsound, ?_⟩
  rintro (_ | _ | _ | _ | _) v hv
  case types =>
    have hmem : v ∈ types := hitems ▸ hv
    exact ⟨hnumbers v hmem, harguments v hmem⟩
  all_goals cases hv

theorem Linked.legible (hr : Linked hash types r) : r.Legible where
  types t ht := (hr.records .types t ht).1
  classes c hc := (hr.records .classes c hc).1
  enums e he := (hr.records .enums e he).1
  aliases a ha := (hr.records .aliases a ha).1
  functions f hf := (hr.records .functions f hf).1

theorem Linked.coherent (hr : Linked hash types r) : r.Coherent := by
  rw [Registry.coherent_iff]
  intro c v hv t ht
  rw [hr.items]
  exact (hr.records c v hv).2 t ht

theorem Linked.noCollisions (hr : Linked hash types r) : r.NoCollisions :=
  ⟨hr.sound.type_holders.separates, hr.sound.function_holders.separates, hr.sound.fields,
    hr.sound.methods⟩

/-! ## The whole document -/

/-- A category is filled record by record. -/
private theorem reads_addEntries {α : Type} {j : Json} {name : String}
    {read : Json → Decoding α} {add : Registry → α → Except Failure Registry} {post : α → Prop}
    (hread : ∀ e, Reads inv (read e) post)
    (hadd : ∀ {r a r'}, Linked hash types r → post a → add r a = .ok r' → Linked hash types r')
    (hr : Linked hash types r) :
    Reads inv (addEntries j name read add r) (Linked hash types) :=
  .lift_bind fun _ _ => .foldlM (fun _ e hb => (hread e).bind fun _ ha =>
    .lift fun _ h => hadd hb ha h) hr

theorem linked_of_records {j : Json} (hj : SelfNamed j) (h : records hash j = .ok r) :
    ∃ types, Linked hash types r := by
  rw [records, bind_eq_ok_iff] at h
  obtain ⟨entries, hentries, hrun'⟩ := h
  obtain ⟨_, hrun⟩ := exists_of_run' hrun'
  obtain ⟨types, s, htypes, hrest⟩ := run_bind_ok_iff.1 hrun
  obtain ⟨typed, s₁, hfold, hrest₁⟩ := run_bind_ok_iff.1 hrest
  obtain ⟨htyped, rfl⟩ := run_foldlM_lift_ok_iff.1 hfold
  have hc : Complete entries types s₁ := complete_of_mapM (hj.spelled hentries) htypes
  have hr : Linked hash types typed := linked_of_foldlM hc.nodup (fun _ => hc.arguments_mem) htyped
  have hlook := hc.reads_typeNamed
  have hclasses : ∀ e, Reads _ (do return (e, ← classOf (typeNamed entries) e) :
      Decoding (Json × ClassRecord)) fun e =>
        Category.classes.Legible e.2 ∧ ∀ t ∈ Category.classes.mentioned e.2, t ∈ types :=
    fun e => (reads_classOf hlook e).bind fun _ hc => .pure hc
  obtain ⟨classed, s₂, hclassed, hrest₂⟩ := run_bind_ok_iff.1 hrest₁
  obtain ⟨hs₂, hr₂⟩ :=
    reads_addEntries hclasses (fun hr => hr.addClass) hr s₁ classed s₂ ⟨hc.settled, .refl s₁⟩ hclassed
  obtain ⟨enumed, s₃, henumed, hrest₃⟩ := run_bind_ok_iff.1 hrest₂
  obtain ⟨hs₃, hr₃⟩ :=
    reads_addEntries (reads_enumOf hlook) (fun hr => hr.addEnum) hr₂ s₂ enumed s₃ hs₂ henumed
  obtain ⟨aliased, s₄, haliased, hrest₄⟩ := run_bind_ok_iff.1 hrest₃
  obtain ⟨hs₄, hr₄⟩ :=
    reads_addEntries (reads_aliasOf hlook) (fun hr => hr.addAlias) hr₃ s₃ aliased s₄ hs₃ haliased
  obtain ⟨-, hr₅⟩ :=
    reads_addEntries (reads_functionOf hlook) (fun hr => hr.addFunction) hr₄ s₄ r _ hs₄ hrest₄
  exact ⟨types, hr₅⟩

/-- Whatever is read from a document whose types go by their names is a registry that inserts could
have made: every map is keyed by qualified name, each type stands for the same data wherever it is
mentioned, the types of all records are registered, and the numbers of names are exact and belong
to one name each. From its own document it is read again, record by record. -/
theorem decode_sound {j : Json} (hj : SelfNamed j) (h : decode hash j = .ok r) :
    r.hash = hash ∧
    (∀ c n v, r.record? c n = some v ↔ v ∈ (r.records c).items ∧ c.key v = n) ∧
    r.Coherent ∧ r.Sound ∧ r.NoCollisions ∧
    ∃ r', decode hash (encode r) = .ok r' ∧ ∀ c, r'.records c = r.records c := by
  have hrecords : records hash j = .ok r := by
    cases j with
    | object ms =>
      rw [decode] at h
      split at h
      · exact h
      · cases h
    | _ => cases h
  obtain ⟨types, hr⟩ := linked_of_records hj hrecords
  obtain ⟨r', hr', -, htypes, hclasses, henums, haliases, hfunctions⟩ :=
    records_encode hr.legible hr.coherent hr.noCollisions
  refine ⟨hr.hash, fun _ _ _ => Catalog.find?_eq_some_iff, hr.coherent, hr.sound, hr.noCollisions,
    r', ?_, ?_⟩
  · rw [decode_encode, ← hr.hash]
    exact hr'
  · rintro (_ | _ | _ | _ | _)
    exacts [htypes, hclasses, henums, haliases, hfunctions]

end filling

/-- A document by another hand: a type stands before its argument and again behind it, and what may
be missing is missing. -/
def parcel : Json :=
  let text (name value : String) : String × Json := (name, .text value)
  let place : String × Json := ("metadata", .object [text "file" "game/./box.h"])
  let box : Json := .object [text "id" "game::Box<int>", text "name" "Box<int>",
    text "namespace" "game", text "kind" "CLASS",
    ("template", .object [text "kind" "specialized", ("arguments", Json.texts ["int"])])]
  .object [
    ("version", .int 1),
    ("types", .array [box, .object [text "id" "int", text "name" "int", text "kind" "INT32"], box]),
    ("classes", .array [.object [text "type" "game::Box<int>", place,
      ("fields", .array [.object [text "name" "value", ("type", .object [text "type" "int"]),
        place]])]]),
    ("functions", .array [.object [text "name" "open", text "namespace" "game",
      ("return_type", .object [text "type" "game::Box<int>"]), place]])]

theorem selfNamed_parcel : SelfNamed parcel := by
  rintro items ⟨⟩
  decide +kernel

theorem decode_sound_parcel : SelfNamed parcel ∧ ∃ r, decode .crc32 parcel = .ok r ∧
    r.hash = .crc32 ∧
    (∀ c n v, r.record? c n = some v ↔ v ∈ (r.records c).items ∧ c.key v = n) ∧
    r.Coherent ∧ r.Sound ∧ r.NoCollisions ∧
    ∃ r', decode .crc32 (encode r) = .ok r' ∧ ∀ c, r'.records c = r.records c := by
  have hok : (decode .crc32 parcel).toOption.isSome = true := by decide +kernel
  obtain ⟨r, hr⟩ : ∃ r, decode .crc32 parcel = .ok r := by
    cases h : decode .crc32 parcel with
    | ok r => exact ⟨r, rfl⟩
    | error e =>
      rw [h] at hok
      cases hok
  exact ⟨selfNamed_parcel, r, hr, decode_sound selfNamed_parcel hr⟩

end Document
end Introspect
