import Introspect.Proofs.Registry.Coherence
import Introspect.Registry.Merge

/-! Merges that redefine a type. A merge replaces records name by name, while a record that stays
goes on mentioning its types as they were. -/
namespace Introspect.Registry
variable {a b : Registry} {t : CppType}

/-- The records of a registry that stay when another one is merged into it: those whose names the
other has not. -/
def beyond (a b : Registry) : Registry :=
  { a with
    types := a.types.beyond b.types
    classes := a.classes.beyond b.classes
    enums := a.enums.beyond b.enums
    aliases := a.aliases.beyond b.aliases
    functions := a.functions.beyond b.functions }

private theorem mem_recordTypes_union :
    t ∈ Document.recordTypes (a.union b) ↔
      t ∈ Document.recordTypes b ∨ t ∈ Document.recordTypes (a.beyond b) := by
  simp only [Document.recordTypes, union, withHolders, beyond, List.mem_append, List.mem_flatMap,
    List.mem_map, Catalog.mem_items_insertAll, or_and_right, exists_or]
  -- each kind of record apart, what comes in before what stays
  calc
    _ ↔ _ := or_congr_left (or_congr_left or_or_or_comm)
    _ ↔ _ := or_congr_left or_or_or_comm
    _ ↔ _ := or_or_or_comm

private theorem mem_recordTypes_of_beyond (ht : t ∈ Document.recordTypes (a.beyond b)) :
    t ∈ Document.recordTypes a := by
  simp only [Document.recordTypes, beyond, List.mem_append, List.mem_flatMap, List.mem_map,
    Catalog.mem_items_beyond] at ht ⊢
  obtain ((⟨c, ⟨hc, -⟩, ht⟩ | ⟨e, ⟨he, -⟩, ht⟩) | ⟨l, ⟨hl, -⟩, ht⟩) | ⟨f, ⟨hf, -⟩, ht⟩ := ht
  · exact .inl (.inl (.inl ⟨c, hc, ht⟩))
  · exact .inl (.inl (.inr ⟨e, he, ht⟩))
  · exact .inl (.inr ⟨l, hl, ht⟩)
  · exact .inr ⟨f, hf, ht⟩

/-- A union mentions what comes in mentions, and what the records that stay mention. -/
theorem mentions_union : (a.union b).Mentions t ↔ b.Mentions t ∨ (a.beyond b).Mentions t := by
  have htypes : ∀ u, u ∈ (a.union b).types.items ↔ u ∈ b.types.items ∨
      u ∈ (a.beyond b).types.items := fun u => Catalog.mem_items_insertAll
  simp only [Mentions, mem_recordTypes_union, htypes, ← exists_or, ← or_and_right, or_assoc,
    or_left_comm]

theorem mentions_of_beyond (ht : (a.beyond b).Mentions t) : a.Mentions t := by
  obtain ⟨u, hu | hu, htu⟩ := ht
  · exact ⟨u, .inl (mem_recordTypes_of_beyond hu), htu⟩
  · exact ⟨u, .inr (Catalog.mem_items_beyond.1 hu).1, htu⟩

theorem find?_types_union (a b : Registry) (n : String) :
    (a.union b).types.find? n = (b.types.find? n).or (a.types.find? n) :=
  Catalog.find?_insertAll a.types b.types n

/-- A merge of coherent registries that is not strict returns, and every type that is mentioned in
the result has a registered type of its name. The two are one, for all of them, exactly when the
registry that comes in redefines no type that a record beyond it mentions. -/
theorem merge_coherent_iff (ha : a.Coherent) (hb : b.Coherent) :
    ∃ s, a.merge b false = (s, none) ∧
      (∀ t, s.Mentions t → t.qualifiedName ∈ s.types.keys) ∧
      (s.Coherent ↔ ∀ t, (a.beyond b).Mentions t →
        ∀ u, b.types.find? t.qualifiedName = some u → u = t) := by
  refine ⟨a.union b, merge_lenient a b, ?_, ?_, ?_⟩
  · intro t ht
    rw [← Catalog.find?_isSome_iff, find?_types_union]
    rcases mentions_union.1 ht with ht | ht
    · simp [hb t ht]
    · simp [ha t (mentions_of_beyond ht)]
  · intro hs t ht u hu
    have hfind := hs t (mentions_union.2 (.inr ht))
    rw [find?_types_union, hu, Option.some_or] at hfind
    exact Option.some.inj hfind
  · intro hkept t ht
    rw [find?_types_union]
    rcases mentions_union.1 ht with ht | ht
    · rw [hb t ht, Option.some_or]
    · cases hu : b.types.find? t.qualifiedName with
      | none => rw [Option.none_or, ha t (mentions_of_beyond ht)]
      | some u => rw [hkept t ht u hu, Option.some_or]

/-- The type of handles, of a given kind. -/
def handle (kind : TypeKind) : CppType := .plain ⟨"Handle", ""⟩ kind

/-- A registry with the class of handles and a class with a method that returns one. -/
def door : Registry :=
  { empty NameHash.crc32 with
    types := .ofList [handle .record, .plain ⟨"Door", ""⟩ .record]
    classes := .ofList [{
      type := .plain ⟨"Door", ""⟩ .record
      metadata := .bare (Path.ofString "/module/Door.h") 1
      key := .classKey
      abstractness := false
      fields := []
      methods := [⟨"grip", ⟨handle .record, false⟩, [], .bare (Path.ofString "/module/Door.h") 2⟩]
      bases := []
      bodyLine := .proper none }] }

/-- A registry that knows handles only. -/
def handles (kind : TypeKind) : Registry :=
  { empty NameHash.crc32 with types := .ofList [handle kind] }

theorem coherent_door : door.Coherent := by
  have hrecords : Document.recordTypes door = [.plain ⟨"Door", ""⟩ .record, handle .record] := rfl
  have htypes : door.types.items = [handle .record, .plain ⟨"Door", ""⟩ .record] := rfl
  apply coherent_of_closed
  · simp [hrecords, htypes]
  · simp [htypes, handle, CppType.arguments]

theorem coherent_handles (kind : TypeKind) : (handles kind).Coherent := by
  have htypes : (handles kind).types.items = [handle kind] := rfl
  apply coherent_of_closed
  · intro t ht
    cases ht
  · simp [htypes, handle, CppType.arguments]

/-- Handles of the same kind come in without harm. -/
theorem merge_coherent_door_handles :
    ∃ s, door.merge (handles .record) false = (s, none) ∧ s.Coherent := by
  obtain ⟨s, hmerge, -, hiff⟩ := merge_coherent_iff coherent_door (coherent_handles .record)
  refine ⟨s, hmerge, hiff.2 fun t ht u hu => ?_⟩
  obtain ⟨hu, hname⟩ := Catalog.find?_eq_some_iff.1 hu
  have hmem : t ∈ door.types.items := coherent_door.mem_types (mentions_of_beyond ht)
  have huhandle : u = handle .record := List.mem_singleton.1 hu
  subst huhandle
  exact Catalog.eq_of_key_eq (c := door.types) (List.mem_cons_self ..) hmem hname

/-- A door keeps the class of handles that its method returned, while the registered type of that
name has become another one. -/
theorem not_coherent_door_handles :
    door.Coherent ∧ (handles .int32).Coherent ∧
      ∃ s, door.merge (handles .int32) false = (s, none) ∧ s.Mentions (handle .record) ∧
        s.types.find? (handle .record).qualifiedName = some (handle .int32) ∧ ¬s.Coherent := by
  have hmentions : (door.union (handles .int32)).Mentions (handle .record) :=
    .of_record (List.mem_cons_of_mem _ (List.mem_cons_self ..))
  have hfind : (door.union (handles .int32)).types.find? (handle .record).qualifiedName =
      some (handle .int32) := rfl
  refine ⟨coherent_door, coherent_handles .int32, _, merge_lenient _ _, hmentions, hfind, ?_⟩
  intro h
  have hsame := (h _ hmentions).symm.trans hfind
  cases Option.some.inj hsame

end Introspect.Registry
