import Introspect.Proofs.Document.Readers

/-! The document of a registry refers to no type that it lacks. Every name of a type in it is the
id of one entry of its type table, whatever types the records of the registry mention. -/
namespace Introspect.Document
variable {α β : Type} {j n : Json} {r : Registry} {hash : NameHash}

/-- The ids of the type table. -/
def typeIds (j : Json) : List Json := (partsAt j "types").filterMap (·.member? "id")

/-- Every name of a type in a document: the template arguments in the type table, then the types in
classes, enums, aliases and functions. -/
def typeReferences (j : Json) : List Json :=
  (partsAt j "types").flatMap argumentNames ++ ((partsAt j "classes").flatMap classTypeNames ++
    (partsAt j "enums").flatMap typeNames ++ (partsAt j "aliases").flatMap aliasTypeNames ++
    (partsAt j "functions").flatMap callableTypeNames)

/-! ## Names that are written -/

/-- How a document refers to a type. -/
def nameJson (t : CppType) : Json := .text t.qualifiedName

theorem argumentNames_typeJson (t : CppType) :
    argumentNames (typeJson t) = t.arguments.map nameJson := by
  cases t with
  | plain i k => rfl
  | templated i k g a as =>
    have harguments : argumentNames (typeJson (.templated i k g a as)) =
        ((a :: as).map CppType.qualifiedName).map Json.text := rfl
    rw [harguments, List.map_map]
    rfl

/-- What is written item by item refers to the types of the items. -/
private theorem flatMap_written {write : α → Json} {names : Json → List Json}
    {types : α → List CppType} (h : ∀ a, names (write a) = (types a).map nameJson) (l : List α) :
    (l.map write).flatMap names = (l.flatMap types).map nameJson := by
  rw [List.flatMap_map, List.map_flatMap]
  exact List.flatMap_congr fun a _ => h a

/-- What names one type in each item. -/
private theorem flatMap_written_one {write : α → Json} {names : Json → List Json}
    {type : α → CppType} (h : ∀ a, names (write a) = [nameJson (type a)]) (l : List α) :
    (l.map write).flatMap names = (l.map type).map nameJson := by
  rw [List.flatMap_map, List.map_map, List.map_eq_flatMap]
  exact List.flatMap_congr fun a _ => h a

theorem callableTypeNames_object {ms : List (String × Json)} {result : TypeUse}
    {arguments : List TypeUse}
    (hresult : (Json.object ms).member? "return_type" = some (useJson result))
    (harguments : (Json.object ms).member? "argument_types" =
      some (.array (arguments.map useJson))) :
    callableTypeNames (.object ms) = (result.type :: arguments.map (·.type)).map nameJson := by
  have hparts : partsAt (.object ms) "argument_types" = arguments.map useJson := by
    rw [partsAt, harguments]
    rfl
  rw [callableTypeNames, hresult, hparts, flatMap_written_one (fun _ => rfl)]
  rfl

theorem classTypeNames_classJson (c : ClassRecord) :
    classTypeNames (classJson c) = (classTypes c).map nameJson := by
  have hfields : (c.fields.map fieldJson).flatMap fieldTypeNames =
      (c.fields.map fun f => f.use.type).map nameJson :=
    flatMap_written_one (fun _ => rfl) c.fields
  have hmethods : (c.methods.map methodJson).flatMap callableTypeNames =
      (c.methods.flatMap fun m => m.result.type :: m.arguments.map (·.type)).map nameJson :=
    flatMap_written (fun _ => callableTypeNames_object rfl rfl) c.methods
  rw [classTypes, List.map_append, List.map_cons, ← hfields, ← hmethods]
  rfl

/-- A document refers to the arguments of the types in its table, and to the types of the records,
in their order. -/
theorem typeReferences_encode (r : Registry) : typeReferences (encode r) =
    ((typeTable r).items.flatMap CppType.arguments ++ recordTypes r).map nameJson := by
  have htypes : ((typeTable r).items.map typeJson).flatMap argumentNames =
      ((typeTable r).items.flatMap CppType.arguments).map nameJson :=
    flatMap_written argumentNames_typeJson _
  have hclasses : (r.classes.items.map classJson).flatMap classTypeNames =
      (r.classes.items.flatMap classTypes).map nameJson :=
    flatMap_written classTypeNames_classJson _
  have henums : (r.enums.items.map enumJson).flatMap typeNames =
      (r.enums.items.map (·.type)).map nameJson := flatMap_written_one (fun _ => rfl) _
  have haliases : (r.aliases.items.map aliasJson).flatMap aliasTypeNames =
      (r.aliases.items.flatMap fun a => [a.type, a.target]).map nameJson :=
    flatMap_written (fun _ => rfl) _
  have hfunctions : (r.functions.items.map functionJson).flatMap callableTypeNames =
      (r.functions.items.flatMap fun f => f.result.type :: f.arguments.map (·.type)).map
        nameJson :=
    flatMap_written (fun _ => callableTypeNames_object rfl rfl) _
  rw [recordTypes]
  simp only [List.map_append]
  rw [← htypes, ← hclasses, ← henums, ← haliases, ← hfunctions]
  rfl

theorem typeIds_encode (r : Registry) : typeIds (encode r) = (typeTable r).items.map nameJson := by
  have hparts : partsAt (encode r) "types" = (typeTable r).items.map typeJson := rfl
  rw [typeIds, hparts, List.filterMap_map]
  exact List.filterMap_eq_map' (f := nameJson) ▸ rfl

/-! ## The type table -/

/-- Types come in behind those that are there. -/
theorem items_prefix_enterAll (ts : List CppType) (table : Catalog CppType.qualifiedName) :
    table.items <+: (enterAll table ts).items := by
  have hall : ∀ {ts : List CppType},
      (∀ t ∈ ts, ∀ table : Catalog CppType.qualifiedName, table.items <+: (enter table t).items) →
      ∀ table : Catalog CppType.qualifiedName, table.items <+: (enterAll table ts).items := by
    intro ts
    induction ts with
    | nil => exact fun _ table => List.prefix_rfl
    | cons t ts ih =>
      intro h table
      rw [enterAll]
      exact (h t (List.mem_cons_self ..) table).trans
        (ih (fun u hu => h u (List.mem_cons_of_mem _ hu)) (enter table t))
  have henter : ∀ (t : CppType) (table : Catalog CppType.qualifiedName),
      table.items <+: (enter table t).items := by
    intro t
    induction t using CppType.arguments_induction with
    | step t ih =>
      intro table
      rw [enter_eq]
      refine List.IsPrefix.trans ?_ (hall ih _)
      split
      · exact List.prefix_rfl
      · next hno =>
        rw [Catalog.items_insert fun h => hno (Catalog.contains_iff.2 h)]
        exact List.prefix_append ..
  exact hall (fun t _ => henter t) table

/-- Writing the table out enters no type: the arguments of its types are there. -/
theorem enterAll_arguments_typeTable {t : CppType} (ht : t ∈ (typeTable r).items) :
    enterAll (typeTable r) t.arguments = typeTable r :=
  enterAll_of_enter fun _ ha => enter_of_registered _ fun _ hu =>
    Catalog.contains_iff.2 (name_mem_typeTable (.inr ht) (.argument ha hu))

theorem items_prefix_typeTable (r : Registry) : r.types.items <+: (typeTable r).items :=
  (items_prefix_enterAll _ _).trans (items_prefix_enterAll _ _)

/-- Every name of a type in a document is the id of one entry. -/
theorem count_typeIds_encode (hn : n ∈ typeReferences (encode r)) :
    (typeIds (encode r)).count n = 1 := by
  have hnodup : ((typeTable r).items.map nameJson).Nodup := by
    have hkeys : (typeTable r).items.map nameJson = (typeTable r).keys.map Json.text := by
      rw [Catalog.keys, List.map_map]
      rfl
    rw [hkeys]
    exact (typeTable r).nodup.map fun a b h => Json.text.inj h
  have hmem : ∀ {t : CppType}, t.qualifiedName ∈ (typeTable r).keys →
      nameJson t ∈ (typeTable r).items.map nameJson := by
    intro t ht
    obtain ⟨u, hu, hname⟩ := List.mem_map.1 ht
    exact List.mem_map.2 ⟨u, hu, congrArg Json.text hname⟩
  rw [typeIds_encode]
  refine List.count_eq_one_of_mem hnodup ?_
  rw [typeReferences_encode] at hn
  obtain ⟨t, ht, rfl⟩ := List.mem_map.1 hn
  obtain ht | ht := List.mem_append.1 ht
  · obtain ⟨u, hu, ht⟩ := List.mem_flatMap.1 ht
    exact hmem (name_mem_typeTable (.inr hu) (.of_argument ht))
  · exact hmem (name_mem_typeTable (.inl ht) (.refl t))

/-! ## Reading a document whose references are kept -/

/-- No name of a type is reported while reading. -/
abbrev Quiet (m : Decoding α) : Prop := FailsWith (fun e => e.isStray = false) m

theorem walks_quiet : Walks fun _ m m' => m = m' ∧ Quiet m where
  pure a := ⟨rfl, .pure a⟩
  lift_bind := by
    intro _ _ x f f' hx hf
    refine ⟨?_, FailsWith.lift_bind hx fun a ha => (hf a ha).2⟩
    cases x with
    | ok a => exact (hf a rfl).1
    | error e => rfl
  bind hm hf := ⟨by rw [hm.1, funext fun a => (hf a).1], hm.2.bind fun _ a _ _ => (hf a).2⟩

/-- A name of which the table has an entry. A value that cannot be an id is refused as such. -/
def Covers (entries : Table Json Json) (n : Json) : Prop :=
  ∀ k, idOf n = .ok k → ∃ e, entries.find? k = some e

section reading
variable {entries : Table Json Json}

theorem quiet_lookUp
    (harguments : ∀ k e, entries.find? k = some e → ∀ n ∈ argumentNames e, Covers entries n)
    (depth : Nat) (hn : Covers entries n) : Quiet (lookUp entries depth n) := by
  induction depth generalizing n with
  | zero =>
    rintro s e ⟨⟩
    rfl
  | succ depth ih =>
    refine FailsWith.lookUp_succ (plain_idOf n) fun k hk => ?_
    obtain ⟨e, he⟩ := hn k hk
    exact ⟨e, he, (walks_quiet.typeOfEntry fun i hi => ⟨rfl, ih (harguments k e he i hi)⟩).2⟩

variable {read : Json → Decoding α} {add : Registry → α → Except Failure Registry} {name : String}

/-- The records of a category are read and added one by one. -/
theorem quiet_addEntries (hread : ∀ e ∈ partsAt j name, Quiet (read e))
    (hadd : ∀ r a, Plain (add r a)) (r : Registry) : Quiet (addEntries j name read add r) := by
  refine FailsWith.lift_bind (plain_itemsAt j name) fun items hitems => ?_
  rw [partsAt_of_itemsAt hitems] at hread
  exact .foldlM (fun r e he => (hread e he).bind fun _ a _ _ => .lift (hadd r a)) r

end reading

theorem plain_apply (i : Insertion) (r : Registry) : Plain (i.apply r) := by
  intro e he
  obtain ⟨_, _, rfl⟩ := Insertion.exists_collision_of_error he
  rfl

theorem plain_requireNumber (q : QualifiedName) : Plain (requireNumber q) := by
  unfold requireNumber
  split
  · exact .error rfl
  · exact .ok ()

theorem plain_addType (r : Registry) (t : CppType) : Plain (addType r t) :=
  (plain_requireNumber t.id).bind fun _ _ => plain_apply (.type t) r

theorem plain_addFunction (r : Registry) (f : FunctionRecord) : Plain (addFunction r f) :=
  (plain_requireNumber f.id).bind fun _ _ => plain_apply (.function f) r

theorem plain_requireNumbers (r : Registry) (kind : NameKind) (members : List Json) :
    Plain (requireNumbers r kind members) := by
  refine (Plain.mapM plain_nameOf members).bind fun names _ => Plain.bind ?_ fun _ _ => ?_
  · unfold Registry.requireDistinct
    split
    · exact .ok ()
    · exact .error rfl
  · split
    · exact .error rfl
    · exact .ok ()

theorem plain_addClass (r : Registry) (e : Json × ClassRecord) : Plain (addClass r e) :=
  (plain_itemsAt e.1 "fields").bind fun fields _ => (plain_requireNumbers r .field fields).bind
    fun _ _ => (plain_itemsAt e.1 "methods").bind fun methods _ =>
      (plain_requireNumbers r .method methods).bind fun _ _ => plain_apply (.class e.2) r

/-- No name is reported of a document that has an entry for every name in it. -/
theorem plain_records (h : ∀ entries, typeEntries j = .ok entries →
    (∀ k ∈ entries.keys, Covers entries k) ∧ ∀ n ∈ typeReferences j, Covers entries n) :
    Plain (records hash j) := by
  refine (plain_typeEntries j).bind fun entries hentries => ?_
  obtain ⟨hkeys, hreferences⟩ := h entries hentries
  simp only [typeReferences, List.mem_append, List.mem_flatMap] at hreferences
  have hlook : ∀ n, Covers entries n → Quiet (typeNamed entries n) := by
    refine fun n hn => quiet_lookUp (fun k e he i hi => ?_) _ hn
    obtain ⟨items, hitems, hmem, -⟩ := exists_of_find?_typeEntries hentries he
    exact hreferences i (.inl ⟨e, (partsAt_of_itemsAt hitems).symm ▸ hmem, hi⟩)
  have hclasses : ∀ r, Quiet (addEntries j "classes"
      (fun e => do return (e, ← classOf (typeNamed entries) e)) addClass r) := by
    refine quiet_addEntries (fun e he => ?_) plain_addClass
    have hclass : Quiet (classOf (typeNamed entries) e) := (walks_quiet.classOf fun n hn =>
      ⟨rfl, hlook n (hreferences n (.inr (.inl (.inl (.inl ⟨e, he, hn⟩)))))⟩).2
    exact hclass.bind fun _ _ _ _ => .pure _
  have henums : ∀ r, Quiet (addEntries j "enums" (enumOf (typeNamed entries))
      Registry.addEnum r) :=
    quiet_addEntries (fun e he => (walks_quiet.enumOf fun n hn =>
      ⟨rfl, hlook n (hreferences n (.inr (.inl (.inl (.inr ⟨e, he, hn⟩)))))⟩).2)
      fun r e => plain_apply (.enum e) r
  have haliases : ∀ r, Quiet (addEntries j "aliases" (aliasOf (typeNamed entries))
      Registry.addAlias r) :=
    quiet_addEntries (fun e he => (walks_quiet.aliasOf fun n hn =>
      ⟨rfl, hlook n (hreferences n (.inr (.inl (.inr ⟨e, he, hn⟩))))⟩).2)
      fun r a => plain_apply (.secondName a) r
  have hfunctions : ∀ r, Quiet (addEntries j "functions" (functionOf (typeNamed entries))
      addFunction r) :=
    quiet_addEntries (fun e he => (walks_quiet.functionOf fun n hn =>
      ⟨rfl, hlook n (hreferences n (.inr (.inr ⟨e, he, hn⟩)))⟩).2) plain_addFunction
  refine Plain.bind (x := StateT.run _ _) ?_ fun _ _ => .ok _
  refine FailsWith.bind (.mapM fun k hk => hlook k (hkeys k hk)) (fun _ types _ _ => ?_) .empty
  refine FailsWith.bind (.foldlM (fun r t _ => .lift (plain_addType r t)) _) fun _ r₁ _ _ => ?_
  refine (hclasses r₁).bind fun _ r₂ _ _ => (henums r₂).bind fun _ r₃ _ _ => ?_
  exact (haliases r₃).bind fun _ r₄ _ _ => hfunctions r₄

/-- The document of a registry is closed under reference, whatever types its records mention.
Writing the type table out enters no type that is not there. The table starts with the types of the
registry in their order. Every name of a type in the document is the id of one entry, and so the
reader never reports that it does not know one. -/
theorem encode_closed (r : Registry) :
    (∀ t ∈ (typeTable r).items, enterAll (typeTable r) t.arguments = typeTable r) ∧
    (∃ more, itemsAt (encode r) "types" = .ok ((r.types.items ++ more).map typeJson)) ∧
    (∀ n ∈ typeReferences (encode r), (typeIds (encode r)).count n = 1) ∧
    ∀ hash v, decode hash (encode r) ≠ .error (.registryFile (.unknownType v)) := by
  refine ⟨fun t => enterAll_arguments_typeTable, ?_, fun n => count_typeIds_encode, ?_⟩
  · obtain ⟨more, hmore⟩ := items_prefix_typeTable r
    refine ⟨more, ?_⟩
    rw [hmore]
    exact itemsAt_object rfl
  · intro hash v hdecode
    obtain ⟨entries, hentries, hitems⟩ := typeEntries_encode r
    have hcovers : ∀ n, (∃ t ∈ (typeTable r).items, n = nameJson t) → Covers entries n := by
      rintro _ ⟨t, ht, rfl⟩ k ⟨⟩
      have hfind : entries.find? (nameJson t) = some (typeJson t) := by
        rw [Table.find?_eq_some_iff, hitems]
        exact List.mem_map.2 ⟨t, ht, rfl⟩
      exact ⟨_, hfind⟩
    have hplain : Plain (records hash (encode r)) := by
      refine plain_records fun entries' hentries' => ?_
      cases hentries.symm.trans hentries'
      refine ⟨fun k hk => hcovers k ?_, fun n hn => hcovers n ?_⟩
      · change k ∈ entries.entries.map Prod.fst at hk
        rw [hitems, List.map_map] at hk
        obtain ⟨t, ht, rfl⟩ := List.mem_map.1 hk
        exact ⟨t, ht, rfl⟩
      · have hmem : n ∈ typeIds (encode r) := by
          rw [← List.count_pos_iff, count_typeIds_encode hn]
          exact Nat.one_pos
        rw [typeIds_encode] at hmem
        obtain ⟨t, ht, rfl⟩ := List.mem_map.1 hmem
        exact ⟨t, ht, rfl⟩
    rw [decode_encode] at hdecode
    cases hplain _ hdecode

end Introspect.Document
