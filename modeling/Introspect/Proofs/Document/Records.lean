import Introspect.Proofs.Document.Types
import Introspect.Proofs.Registry.WellFormed

/-! Records are read as they were written when the types they name are found. -/
namespace Introspect.Document
variable {inv : Table Json CppType → Prop} {look : Json → Decoding CppType}

theorem useOf_useJson {u : TypeUse} (hu : Finds inv look u.type) :
    Gives inv (useOf look (useJson u)) u := by
  rw [useOf, useJson, required_object rfl, optional_object rfl, Given.ofJson_toJson]
  exact .bind (.of_ok rfl) (.bind hu (.pure u))

theorem usesOf_written {ms : List (String × Json)} {name : String} {us : List TypeUse}
    (h : (Json.object ms).member? name = some (.array (us.map useJson)))
    (hus : ∀ u ∈ us, Finds inv look u.type) : Gives inv (usesOf look (.object ms) name) us := by
  rw [usesOf, itemsAt_object h]
  exact .bind (.of_ok rfl) (.mapM fun u hu => useOf_useJson (hus u hu))

theorem fieldOf_fieldJson {f : Field} (hf : f.metadata.file.Normal)
    (htype : Finds inv look f.use.type) :
    Gives inv (fieldOf look (fieldJson f)) f := by
  have hname : nameOf (fieldJson f) = .ok (.proper f.name) := nameOf_written rfl
  have huse : required (fieldJson f) "type" = .ok (useJson f.use) := required_object rfl
  have hmetadata : requiredAs metadataOf (fieldJson f) "metadata" = .ok f.metadata := by
    rw [fieldJson, requiredAs_object rfl, metadataOf_metadataJson hf]
  rw [fieldOf, hname, huse, hmetadata]
  exact .bind (.of_ok rfl) (.bind (.of_ok rfl) (.bind (useOf_useJson htype)
    (.bind (.of_ok rfl) (.pure f))))

theorem methodOf_methodJson {m : Method} (hm : m.metadata.file.Normal)
    (hresult : Finds inv look m.result.type) (harguments : ∀ u ∈ m.arguments, Finds inv look u.type) :
    Gives inv (methodOf look (methodJson m)) m := by
  have hname : nameOf (methodJson m) = .ok (.proper m.name) := nameOf_written rfl
  have huse : required (methodJson m) "return_type" = .ok (useJson m.result) := required_object rfl
  have huses : Gives inv (usesOf look (methodJson m) "argument_types") m.arguments :=
    usesOf_written rfl harguments
  have hmetadata : requiredAs metadataOf (methodJson m) "metadata" = .ok m.metadata := by
    rw [methodJson, callableMembers, requiredAs_object rfl, metadataOf_metadataJson hm]
  rw [methodOf, hname, huse, hmetadata]
  exact .bind (.of_ok rfl) (.bind (.of_ok rfl) (.bind (useOf_useJson hresult)
    (.bind huses (.bind (.of_ok rfl) (.pure m)))))

theorem classOf_classJson {c : ClassRecord} (hc : c.Legible)
    (htypes : ∀ t ∈ classTypes c, Finds inv look t) : Gives inv (classOf look (classJson c)) c := by
  have htype : required (classJson c) "type" = .ok (.text c.type.qualifiedName) :=
    required_object rfl
  have hmetadata : requiredAs metadataOf (classJson c) "metadata" = .ok c.metadata := by
    rw [classJson, requiredAs_object rfl, metadataOf_metadataJson hc.file]
  have hkey : classKeyOf (optional (classJson c) "class_type" (.text ClassKey.classKey.label)) =
      .ok c.key := by
    rw [classJson, optional_object rfl, classKeyOf_label]
  have hfields : itemsAt (classJson c) "fields" = .ok (c.fields.map fieldJson) :=
    itemsAt_object rfl
  have hmethods : itemsAt (classJson c) "methods" = .ok (c.methods.map methodJson) :=
    itemsAt_object rfl
  have hbases : itemsAt (classJson c) "base_classes" = .ok (c.bases.map Given.toJson) :=
    itemsAt_object rfl
  have hfields' : ∀ f ∈ c.fields, Gives inv (fieldOf look (fieldJson f)) f := by
    intro f hf
    refine fieldOf_fieldJson (hc.fields f hf) (htypes _ ?_)
    simp only [classTypes, List.cons_append, List.mem_cons, List.mem_append, List.mem_map]
    exact .inr (.inl ⟨f, hf, rfl⟩)
  have hmethods' : ∀ m ∈ c.methods, Gives inv (methodOf look (methodJson m)) m := by
    intro m hm
    have hmem : ∀ t ∈ m.result.type :: m.arguments.map (·.type), t ∈ classTypes c := by
      intro t ht
      simp only [classTypes, List.cons_append, List.mem_cons, List.mem_append, List.mem_flatMap]
      exact .inr (.inr ⟨m, hm, by simpa using ht⟩)
    refine methodOf_methodJson (hc.methods m hm) (htypes _ (hmem _ (by simp))) ?_
    intro u hu
    exact htypes _ (hmem _ (List.mem_cons_of_mem _ (List.mem_map.2 ⟨u, hu, rfl⟩)))
  have hback : (c.bases.map Given.toJson).map (Given.ofJson (α := String)) = c.bases := by
    rw [List.map_map]
    simp [Function.comp_def]
  rw [classOf, htype, hmetadata, hkey, hfields, hmethods, hbases]
  refine .bind (.of_ok rfl) (.bind (htypes _ (by simp [classTypes])) (.bind (.of_ok rfl)
    (.bind (.of_ok rfl) (.bind (.of_ok rfl) (.bind (.mapM hfields') (.bind (.of_ok rfl)
    (.bind (.mapM hmethods') (.bind (.of_ok rfl) ?_))))))))
  rw [hback, classJson, optional_object rfl, optional_object rfl, Given.ofJson_toJson,
    Given.ofJson_toJson]
  exact .pure c

theorem enumOf_enumJson {e : EnumRecord} (he : e.Legible) (htype : Finds inv look e.type) :
    Gives inv (enumOf look (enumJson e)) e := by
  have hname : required (enumJson e) "type" = .ok (.text e.type.qualifiedName) :=
    required_object rfl
  have hmetadata : requiredAs metadataOf (enumJson e) "metadata" = .ok e.metadata := by
    rw [enumJson, requiredAs_object rfl, metadataOf_metadataJson he.file]
  have hvalues : listAt enumeratorOf (enumJson e) "values" = .ok e.values :=
    listAt_object rfl fun v hv => enumeratorOf_enumeratorJson (he.values v hv)
  rw [enumOf, hname, hmetadata, hvalues, enumJson, optional_object rfl, Given.ofJson_toJson]
  exact .bind (.of_ok rfl) (.bind htype (.bind (.of_ok rfl) (.bind (.of_ok rfl) (.pure e))))

theorem aliasOf_aliasJson {a : AliasRecord} (ha : a.metadata.file.Normal)
    (htype : Finds inv look a.type)
    (htarget : Finds inv look a.target) : Gives inv (aliasOf look (aliasJson a)) a := by
  have hname : required (aliasJson a) "type" = .ok (.text a.type.qualifiedName) :=
    required_object rfl
  have htargetName : required (aliasJson a) "alias_type" = .ok (.text a.target.qualifiedName) :=
    required_object rfl
  have hmetadata : requiredAs metadataOf (aliasJson a) "metadata" = .ok a.metadata := by
    rw [aliasJson, requiredAs_object rfl, metadataOf_metadataJson ha]
  rw [aliasOf, hname, htargetName, hmetadata, aliasJson, optional_object rfl, optional_object rfl,
    Given.ofJson_toJson, Given.ofJson_toJson]
  exact .bind (.of_ok rfl) (.bind htype (.bind (.of_ok rfl) (.bind htarget
    (.bind (.of_ok rfl) (.pure a)))))

theorem functionOf_functionJson {f : FunctionRecord} (hf : f.Legible)
    (hresult : Finds inv look f.result.type) (harguments : ∀ u ∈ f.arguments, Finds inv look u.type) :
    Gives inv (functionOf look (functionJson f)) f := by
  have hname : nameOf (functionJson f) = .ok f.id.givenName := nameOf_written rfl
  have huse : required (functionJson f) "return_type" = .ok (useJson f.result) :=
    required_object rfl
  have huses : Gives inv (usesOf look (functionJson f) "argument_types") f.arguments :=
    usesOf_written rfl harguments
  have hmetadata : requiredAs metadataOf (functionJson f) "metadata" = .ok f.metadata := by
    rw [functionJson, callableMembers, List.cons_append, requiredAs_object rfl,
      metadataOf_metadataJson hf.file]
  have hscope : optional (functionJson f) "namespace" (.text "") = f.id.givenScope.toJson :=
    optional_object rfl
  rw [functionOf, hname, huse, hmetadata, hscope, Given.ofJson_toJson]
  exact .bind (.of_ok rfl) (.bind (.of_ok rfl) (.bind (useOf_useJson hresult)
    (.bind huses (.bind (.of_ok rfl) (.pure f)))))

end Introspect.Document
