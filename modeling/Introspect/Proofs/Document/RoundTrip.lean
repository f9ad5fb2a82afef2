import Mathlib.Algebra.Ring.Int.Defs
import Introspect.Proofs.Document.Exact
import Introspect.Proofs.Document.Records
import Introspect.Proofs.Registry.Coherence
import Introspect.Proofs.Registry.Soundness

/-! A registry is read back from its document. -/
namespace Introspect

namespace Registry

/-- No two names of types, of functions, or of fields or methods of one class share a number. -/
structure NoCollisions (r : Registry) : Prop where
  types : r.hash.Separates r.types.keys
  functions : r.hash.Separates r.functions.keys
  fields : ∀ c ∈ r.classes.items, r.hash.Separates (c.fields.map (·.name))
  methods : ∀ c ∈ r.classes.items, r.hash.Separates (c.methods.map (·.name))

theorem claim_of_separates {hash : NameHash} {kind : NameKind} {holders : Table Int String}
    {names : List String} {n : String} (hx : HoldersExact hash holders names)
    (hs : hash.Separates (names ++ [n])) : ∃ holders', claim hash kind holders n = .ok holders' := by
  cases h : claim hash kind holders n with
  | ok holders' => exact ⟨holders', rfl⟩
  | error e =>
    obtain ⟨m, hm, hne, hv, -⟩ := hx.claim_error h
    exact absurd ((NameHash.Separates.append_iff.1 hs).2 m hm hv) hne

end Registry

namespace Document

/-! ## Adding what was read -/

theorem requireNumber_iff {q : QualifiedName} : requireNumber q = .ok () ↔ q.Numbered := by
  unfold QualifiedName.Numbered Given.IsProper
  cases hq : q.givenName <;> simp [requireNumber, hq, Given.proper?]

/-- Names that are all texts are the texts that get numbers. -/
theorem texts_of_proper (l : List String) :
    ((l.map Given.proper).takeWhile fun g => g.proper?.isSome).filterMap Given.proper? = l := by
  have hproper : ∀ g ∈ l.map Given.proper, g.proper?.isSome = true := by
    intro g hg
    obtain ⟨s, -, rfl⟩ := List.mem_map.1 hg
    rfl
  have htake : ((l.map Given.proper) ++ []).takeWhile (fun g => g.proper?.isSome) =
      (l.map Given.proper) ++ [] := List.takeWhile_append_of_pos hproper
  rw [List.append_nil] at htake
  rw [htake, List.filterMap_map]
  exact (congrFun List.filterMap_eq_map l).trans (List.map_id l)

theorem requireNumbers_of_separates {α : Type} {r : Registry} {kind : NameKind}
    {write : α → Json} {name : α → String} {l : List α}
    (hnames : ∀ a ∈ l, nameOf (write a) = .ok (.proper (name a)))
    (hs : r.hash.Separates (l.map name)) : requireNumbers r kind (l.map write) = .ok () := by
  have hproper : (l.map fun a => Given.proper (name a)) = (l.map name).map .proper := by simp
  rw [requireNumbers, mapM_map_eq_ok hnames, ok_bind, hproper, texts_of_proper]
  simp [Registry.requireDistinct_of_separates hs]

section adding
variable {r : Registry}

private theorem separates_after {hash : NameHash} {names names' rest : List String} {n : String}
    (hkeys : ∀ m, m ∈ names' ↔ m = n ∨ m ∈ names) (hs : hash.Separates (names ++ n :: rest)) :
    hash.Separates (names' ++ rest) := by
  apply hs.of_subset
  intro m hm
  obtain hm | hm := List.mem_append.1 hm
  · obtain rfl | hm := (hkeys m).1 hm
    · simp
    · simp [hm]
  · simp [hm]

/-- Types with names that can be told apart are added one after another. -/
theorem foldlM_addType {l : List CppType} (hl : ∀ t ∈ l, t.id.Numbered)
    (hx : Registry.HoldersExact r.hash r.typeHolders r.types.keys)
    (hs : r.hash.Separates (r.types.keys ++ l.map CppType.qualifiedName)) :
    ∃ holders, l.foldlM addType r =
      .ok { r with types := r.types.insertAll l, typeHolders := holders } := by
  induction l generalizing r with
  | nil => exact ⟨r.typeHolders, rfl⟩
  | cons t l ih =>
    have hfirst : r.hash.Separates (r.types.keys ++ [t.qualifiedName]) :=
      hs.of_subset (by simp)
    obtain ⟨holders, hclaim⟩ : ∃ holders,
        Registry.claim r.hash .type r.typeHolders t.qualifiedName = .ok holders :=
      Registry.claim_of_separates hx hfirst
    have hadd : addType r t =
        .ok { r with types := r.types.insert t, typeHolders := holders } := by
      rw [addType, requireNumber_iff.2 (hl t (by simp)), ok_bind, Registry.addType, hclaim]
      rfl
    have hkeys : ∀ n, n ∈ (r.types.insert t).keys ↔ n = t.qualifiedName ∨ n ∈ r.types.keys :=
      fun n => Catalog.mem_keys_insert
    rw [List.foldlM_cons, hadd, ok_bind]
    exact ih (fun u hu => hl u (by simp [hu])) (hx.claim_ok hclaim hkeys)
      (separates_after hkeys hs)

/-- Functions with names that can be told apart are added one after another. -/
theorem foldlM_addFunction {l : List FunctionRecord} (hl : ∀ f ∈ l, f.Legible)
    (hx : Registry.HoldersExact r.hash r.functionHolders r.functions.keys)
    (hs : r.hash.Separates (r.functions.keys ++ l.map FunctionRecord.qualifiedName)) :
    ∃ holders, l.foldlM addFunction r =
      .ok { r with functions := r.functions.insertAll l, functionHolders := holders } := by
  induction l generalizing r with
  | nil => exact ⟨r.functionHolders, rfl⟩
  | cons f l ih =>
    have hfirst : r.hash.Separates (r.functions.keys ++ [f.qualifiedName]) :=
      hs.of_subset (by simp)
    obtain ⟨holders, hclaim⟩ : ∃ holders,
        Registry.claim r.hash .function r.functionHolders f.qualifiedName = .ok holders :=
      Registry.claim_of_separates hx hfirst
    have hadd : addFunction r f =
        .ok { r with functions := r.functions.insert f, functionHolders := holders } := by
      rw [addFunction, requireNumber_iff.2 (hl f (by simp)).id, ok_bind,
        Registry.addFunction, hclaim]
      rfl
    have hkeys : ∀ n, n ∈ (r.functions.insert f).keys ↔
        n = f.qualifiedName ∨ n ∈ r.functions.keys := fun n => Catalog.mem_keys_insert
    rw [List.foldlM_cons, hadd, ok_bind]
    exact ih (fun u hu => hl u (by simp [hu])) (hx.claim_ok hclaim hkeys)
      (separates_after hkeys hs)

private theorem ensureType_of_mem {t : CppType} (ht : t ∈ r.types.items) :
    r.ensureType t = .ok r := by
  rw [Registry.ensureType, if_pos (Catalog.contains_iff.2 (Catalog.key_mem_keys ht))]

theorem foldlM_addClass {l : List ClassRecord} (htypes : ∀ c ∈ l, c.type ∈ r.types.items)
    (hfields : ∀ c ∈ l, r.hash.Separates (c.fields.map (·.name)))
    (hmethods : ∀ c ∈ l, r.hash.Separates (c.methods.map (·.name))) :
    (l.map fun c => (classJson c, c)).foldlM addClass r =
      .ok { r with classes := r.classes.insertAll l } := by
  induction l generalizing r with
  | nil => rfl
  | cons c l ih =>
    have hfieldItems : itemsAt (classJson c) "fields" = .ok (c.fields.map fieldJson) :=
      itemsAt_object rfl
    have hmethodItems : itemsAt (classJson c) "methods" = .ok (c.methods.map methodJson) :=
      itemsAt_object rfl
    have hfieldNumbers : requireNumbers r .field (c.fields.map fieldJson) = .ok () :=
      requireNumbers_of_separates (fun f _ => nameOf_written rfl) (hfields c (by simp))
    have hmethodNumbers : requireNumbers r .method (c.methods.map methodJson) = .ok () :=
      requireNumbers_of_separates (fun m _ => nameOf_written rfl) (hmethods c (by simp))
    have hadd : addClass r (classJson c, c) = .ok { r with classes := r.classes.insert c } := by
      rw [addClass, hfieldItems, hmethodItems, ok_bind, hfieldNumbers, ok_bind, ok_bind,
        hmethodNumbers, ok_bind, Registry.addClass,
        Registry.requireDistinct_of_separates (hfields c (by simp)), ok_bind,
        Registry.requireDistinct_of_separates (hmethods c (by simp)), ok_bind,
        ensureType_of_mem (htypes c (by simp))]
      rfl
    rw [List.map_cons, List.foldlM_cons, hadd, ok_bind]
    exact ih (fun d hd => htypes d (by simp [hd])) (fun d hd => hfields d (by simp [hd]))
      fun d hd => hmethods d (by simp [hd])

theorem foldlM_addEnum {l : List EnumRecord} (htypes : ∀ e ∈ l, e.type ∈ r.types.items) :
    l.foldlM Registry.addEnum r = .ok { r with enums := r.enums.insertAll l } := by
  induction l generalizing r with
  | nil => rfl
  | cons e l ih =>
    rw [List.foldlM_cons, Registry.addEnum, ensureType_of_mem (htypes e (by simp))]
    exact ih fun d hd => htypes d (by simp [hd])

theorem foldlM_addAlias {l : List AliasRecord} (htypes : ∀ a ∈ l, a.type ∈ r.types.items) :
    l.foldlM Registry.addAlias r = .ok { r with aliases := r.aliases.insertAll l } := by
  induction l generalizing r with
  | nil => rfl
  | cons a l ih =>
    rw [List.foldlM_cons, Registry.addAlias, ensureType_of_mem (htypes a (by simp))]
    exact ih fun d hd => htypes d (by simp [hd])

end adding

/-! ## The whole document -/

/-- The entries of a document are those of the table of types, under their names. -/
theorem typeEntries_encode (r : Registry) : ∃ entries, typeEntries (encode r) = .ok entries ∧
    entries.entries = (typeTable r).items.map fun t => (.text t.qualifiedName, typeJson t) := by
  let named := (typeTable r).items.map fun t => (Json.text t.qualifiedName, typeJson t)
  have hlist : listAt (fun e => do return (← requiredAs idOf e "id", e)) (encode r) "types" =
      .ok named := by
    have hitems : (encode r).member? "types" = some (.array (named.map Prod.snd)) := by
      simp [named, encode, Json.member?]
    apply listAt_object hitems
    intro e he
    obtain ⟨t, -, rfl⟩ := List.mem_map.1 he
    have hid : requiredAs idOf (typeJson t) "id" = .ok (.text t.qualifiedName) := by
      rw [typeJson, requiredAs_object rfl]
      rfl
    simp [hid]
  have hnodup : (named.map Prod.fst).Nodup := by
    have hnames : named.map Prod.fst = (typeTable r).keys.map Json.text := by
      simp [named, Catalog.keys]
    rw [hnames]
    exact List.Pairwise.map _ (fun a b hab he => hab (by simpa using he)) (typeTable r).nodup
  refine ⟨.ofList named, ?_, Table.entries_ofList hnodup⟩
  rw [typeEntries, hlist]
  rfl

private theorem addEntries_gives {α : Type} {inv : Table Json CppType → Prop} {j : Json}
    {name : String} {read : Json → Decoding α} {write : α → Json}
    {add : Registry → α → Except Failure Registry} {l : List α} {r r' : Registry}
    (hitems : itemsAt j name = .ok (l.map write)) (hread : ∀ a ∈ l, Gives inv (read (write a)) a)
    (hadd : l.foldlM add r = .ok r') : Gives inv (addEntries j name read add r) r' := by
  rw [addEntries, hitems]
  exact .bind (.of_ok rfl) (.foldlM hread hadd)

theorem itemsAt_classes (r : Registry) : itemsAt (encode r) "classes" =
    .ok ((r.classes.items.map fun c => (classJson c, c)).map Prod.fst) := by
  rw [List.map_map]
  exact itemsAt_object rfl

/-- Classes are read beside their documents when the registered types are found. -/
theorem classes_gives {r : Registry} (hr : r.Legible) (hcoherent : r.Coherent) {inv : Table Json CppType → Prop} {look : Json → Decoding CppType}
    (hfinds : ∀ t ∈ r.types.items, Finds inv look t) :
    ∀ e ∈ r.classes.items.map fun c => (classJson c, c),
      Gives inv (do return (e.1, ← classOf look e.1) : Decoding (Json × ClassRecord)) e := by
  intro e he
  obtain ⟨c, hc, rfl⟩ := List.mem_map.1 he
  exact .bind (classOf_classJson (hr.classes c hc) fun t ht =>
    hfinds t (hcoherent.classTypes hc t ht)) (.pure _)

/-- The records of a registry rebuild it, category by category, from nothing. -/
private theorem exists_rebuilt {r : Registry} (hr : r.Legible) (hcoherent : r.Coherent)
    (hnumbers : r.NoCollisions) :
    ∃ typed classed enumed aliased whole : Registry,
      r.types.items.foldlM addType (.empty r.hash) = .ok typed ∧
      (r.classes.items.map fun c => (classJson c, c)).foldlM addClass typed = .ok classed ∧
      r.enums.items.foldlM Registry.addEnum classed = .ok enumed ∧
      r.aliases.items.foldlM Registry.addAlias enumed = .ok aliased ∧
      r.functions.items.foldlM addFunction aliased = .ok whole ∧
      whole.hash = r.hash ∧ whole.types = r.types ∧ whole.classes = r.classes ∧ whole.enums = r.enums ∧
      whole.aliases = r.aliases ∧ whole.functions = r.functions := by
  obtain ⟨holders, htyped⟩ :=
    foldlM_addType (r := .empty r.hash) hr.types .empty hnumbers.types
  obtain ⟨holders', hwhole⟩ := foldlM_addFunction
    (r := { Registry.empty r.hash with
      types := Catalog.ofList r.types.items, typeHolders := holders,
      classes := Catalog.ofList r.classes.items, enums := Catalog.ofList r.enums.items,
      aliases := Catalog.ofList r.aliases.items })
    hr.functions .empty hnumbers.functions
  have hregistered : ∀ t ∈ r.types.items,
      t ∈ (Catalog.ofList r.types.items : Catalog CppType.qualifiedName).items := by
    rw [Catalog.ofList_items]
    exact fun _ ht => ht
  refine ⟨_, _, _, _, _, htyped, foldlM_addClass ?_ hnumbers.fields hnumbers.methods,
    foldlM_addEnum ?_, foldlM_addAlias ?_, hwhole, rfl, Catalog.ofList_items _,
    Catalog.ofList_items _, Catalog.ofList_items _, Catalog.ofList_items _,
    Catalog.ofList_items _⟩
  · intro c hc
    exact hregistered _ (hcoherent.classTypes hc _ (by simp [classTypes]))
  · intro e he
    exact hregistered _ (hcoherent.enumType he)
  · intro a ha
    exact hregistered _ (hcoherent.aliasTypes ha _ (by simp))

theorem records_encode {r : Registry} (hr : r.Legible) (hcoherent : r.Coherent)
    (hnumbers : r.NoCollisions) :
    ∃ r', records r.hash (encode r) = .ok r' ∧ r'.hash = r.hash ∧ r'.types = r.types ∧
      r'.classes = r.classes ∧ r'.enums = r.enums ∧ r'.aliases = r.aliases ∧
      r'.functions = r.functions := by
  obtain ⟨entries, hentries, hitems⟩ := typeEntries_encode r
  rw [typeTable_of_coherent hcoherent] at hitems
  obtain ⟨typed, classed, enumed, aliased, whole, htyped, hclassed, henumed, haliased, hwhole,
    hmaps⟩ := exists_rebuilt hr hcoherent hnumbers
  have hfinds : ∀ t ∈ r.types.items, Finds (Built r.types) (typeNamed entries) t := fun t ht =>
    typeNamed_gives (fun t ht => hcoherent.arguments ht) hitems ht
  have hkeys : entries.keys = r.types.items.map fun t => .text t.qualifiedName := by
    change entries.entries.map Prod.fst = _
    rw [hitems, List.map_map]
    rfl
  have htypes : Gives (Built r.types) (entries.keys.mapM (typeNamed entries)) r.types.items := by
    rw [hkeys]
    exact .mapM hfinds
  have hclasses : Gives (Built r.types) (addEntries (encode r) "classes"
      (fun e => do return (e, ← classOf (typeNamed entries) e)) addClass typed) classed :=
    addEntries_gives (itemsAt_classes r) (classes_gives hr hcoherent hfinds) hclassed
  have henums : Gives (Built r.types) (addEntries (encode r) "enums"
      (enumOf (typeNamed entries)) Registry.addEnum classed) enumed :=
    addEntries_gives (itemsAt_object rfl)
      (fun e he => enumOf_enumJson (hr.enums e he) (hfinds _ (hcoherent.enumType he))) henumed
  have haliases : Gives (Built r.types) (addEntries (encode r) "aliases"
      (aliasOf (typeNamed entries)) Registry.addAlias enumed) aliased := by
    refine addEntries_gives (itemsAt_object rfl) ?_ haliased
    intro a ha
    have hnamed := hcoherent.aliasTypes ha
    exact aliasOf_aliasJson (hr.aliases a ha) (hfinds _ (hnamed _ (by simp)))
      (hfinds _ (hnamed _ (by simp)))
  have hfunctions : Gives (Built r.types) (addEntries (encode r) "functions"
      (functionOf (typeNamed entries)) addFunction aliased) whole := by
    refine addEntries_gives (itemsAt_object rfl) ?_ hwhole
    intro f hf
    have hnamed := hcoherent.functionTypes hf
    refine functionOf_functionJson (hr.functions f hf) (hfinds _ (hnamed _ (by simp))) ?_
    intro u hu
    exact hfinds _ (hnamed _ (List.mem_cons_of_mem _ (List.mem_map.2 ⟨u, hu, rfl⟩)))
  refine ⟨whole, ?_, hmaps⟩
  rw [records, hentries, ok_bind]
  refine Gives.run' (?_ : Gives (Built r.types) _ whole) built_empty
  exact .bind htypes (.bind (.foldlM_of_ok htyped) (.bind hclasses (.bind henums
    (.bind haliases hfunctions))))

private theorem decode_object {hash : NameHash} {ms : List (String × Json)}
    (h : isVersion (optional (.object ms) "version" .null) = true) :
    decode hash (.object ms) = records hash (.object ms) := by
  simp [decode, h]

/-- Documents are written with the version that is read. -/
theorem decode_encode (hash : NameHash) (r : Registry) :
    decode hash (encode r) = records hash (encode r) := by
  apply decode_object
  rw [optional_object rfl]
  decide

/-- What is read from the text of a registry that has nothing in it that a text would lose. -/
theorem ofText_of_exact {r : Registry} (hr : (encode r).Exact) (hash : NameHash)
    {indent : Option String} (hi : Json.IsBlank indent) :
    ofText hash (toText r indent) = records hash (encode r) := by
  have hparse : Json.parse (toText r indent) = .ok (encode r) := Json.parse_print hi hr
  rw [ofText, hparse]
  exact decode_encode hash r

/-- What is read has the hash that it is read with and the records of what was written. -/
theorem exists_ofText {r : Registry} (hr : r.WellFormed IsShort) (hcoherent : r.Coherent)
    (hnumbers : r.NoCollisions) {indent : Option String} (hi : Json.IsBlank indent) :
    ∃ r', ofText r.hash (toText r indent) = .ok r' ∧ r'.hash = r.hash ∧ r'.types = r.types ∧
      r'.classes = r.classes ∧ r'.enums = r.enums ∧ r'.aliases = r.aliases ∧
      r'.functions = r.functions := by
  have htypes : ∀ t ∈ (typeTable r).items, t.id.WellFormed := by
    rw [typeTable_of_coherent hcoherent]
    exact hr.types
  rw [ofText_of_exact (exact_encode hr htypes) r.hash hi]
  exact records_encode hr.legible hcoherent hnumbers

private def place : Metadata :=
  ⟨Path.absolute ["game", "box.h"], .proper 3, true, [⟨"saved", .runtime⟩],
    .ofList [("owner", ⟨"\"quoted\"\n\uD55C", .compile⟩)], .proper (some "A box.")⟩

private theorem place_wellFormed {numbers : Int → Prop} (h : numbers 3) :
    place.WellFormed numbers where
  file := by
    unfold Path.Normal
    decide
  line := ⟨3, rfl, h⟩
  reflected := ⟨true, rfl⟩
  tags := by
    intro n hn
    obtain rfl := List.mem_singleton.1 hn
    exact ⟨_, rfl⟩
  attributes := by
    intro e he
    obtain rfl := List.mem_singleton.1 he
    exact ⟨_, rfl⟩
  comment := ⟨some "A box.", rfl⟩

private theorem isShort_three : IsShort 3 := by
  unfold IsShort
  decide

/-- A registry with a class that specialises a template, and a function on it. -/
def boxes : Registry :=
  let int : CppType := .plain ⟨"int", ""⟩ .int32
  let box : CppType := .templated ⟨"Box<int>", "game"⟩ .record .specialized int []
  { Registry.empty NameHash.crc32 with
    types := .ofList [box, int]
    classes := .ofList [⟨box, place, .structKey, false, [⟨"value", ⟨int, true⟩, place⟩],
      [⟨"get", ⟨int, false⟩, [], place⟩], [], .proper none⟩]
    functions := .ofList [⟨⟨"open", "game"⟩, ⟨box, false⟩, [⟨int, true⟩], place⟩] }

private theorem boxes_wellFormed : boxes.WellFormed IsShort := by
  have hplace := place_wellFormed isShort_three
  refine ⟨?_, ?_, by simp [boxes, Registry.empty], by simp [boxes, Registry.empty], ?_⟩
  · intro t ht
    rw [boxes, Catalog.items_ofList (by decide)] at ht
    simp only [List.mem_cons, List.not_mem_nil, or_false] at ht
    obtain rfl | rfl := ht <;> exact ⟨⟨_, rfl⟩, ⟨_, rfl⟩⟩
  · intro c hc
    obtain rfl := List.mem_singleton.1 hc
    refine ⟨hplace, ⟨_, rfl⟩, ?_, ?_, by simp, ⟨none, rfl, by simp⟩⟩
    · intro f hf
      obtain rfl := List.mem_singleton.1 hf
      exact ⟨⟨_, rfl⟩, hplace⟩
    · intro m hm
      obtain rfl := List.mem_singleton.1 hm
      exact ⟨⟨_, rfl⟩, by simp, hplace⟩
  · intro f hf
    obtain rfl := List.mem_singleton.1 hf
    refine ⟨⟨⟨_, rfl⟩, ⟨_, rfl⟩⟩, ⟨_, rfl⟩, ?_, hplace⟩
    intro u hu
    obtain rfl := List.mem_singleton.1 hu
    exact ⟨_, rfl⟩

private theorem boxes_coherent : boxes.Coherent :=
  Registry.coherent_of_closed (by decide +kernel) (by decide +kernel)

private theorem boxes_noCollisions : boxes.NoCollisions := by
  constructor <;> unfold NameHash.Separates <;> decide +kernel

/-- A registry with an enumerator whose value has one digit too many. -/
def longLevel : Registry :=
  let level : CppType := .plain ⟨"Level", "game"⟩ .enum
  { Registry.empty NameHash.crc32 with
    types := .ofList [level]
    enums := .ofList [⟨level, place, [⟨"Top", .proper (10 ^ Text.longestWhole), place⟩], .proper none⟩] }

theorem longLevel_wellFormed : longLevel.WellFormed fun _ => True := by
  have hplace : place.WellFormed fun _ => True := place_wellFormed trivial
  refine ⟨?_, by simp [longLevel, Registry.empty], ?_, by simp [longLevel, Registry.empty],
    by simp [longLevel, Registry.empty]⟩
  · intro t ht
    obtain rfl := List.mem_singleton.1 ht
    exact ⟨⟨_, rfl⟩, ⟨_, rfl⟩⟩
  · intro e he
    obtain rfl := List.mem_singleton.1 he
    refine ⟨hplace, ?_, ⟨none, rfl, by simp⟩⟩
    intro v hv
    obtain rfl := List.mem_singleton.1 hv
    exact ⟨⟨_, rfl⟩, ⟨_, rfl, trivial⟩, hplace⟩

theorem longLevel_coherent : longLevel.Coherent :=
  Registry.coherent_of_closed (by decide +kernel) (by decide +kernel)

private theorem length_digitsOf_pow (k : Nat) : (Json.digitsOf (10 ^ k)).length = k + 1 := by
  have habs : (10 ^ k : Int).natAbs = 10 ^ k := Int.natAbs_pow 10 k
  have hle : (Nat.toDigits 10 (10 ^ k)).length ≤ k + 1 :=
    (Nat.length_toDigits_le_iff (by decide) (by omega)).2
      (Nat.pow_lt_pow_right (by decide) (by omega))
  have hgt : k < (Nat.toDigits 10 (10 ^ k)).length := by
    by_cases hk : k = 0
    · subst hk
      decide
    · have hiff := Nat.length_toDigits_le_iff (b := 10) (n := 10 ^ k) (by decide)
        (Nat.pos_of_ne_zero hk)
      have hne : ¬ (Nat.toDigits 10 (10 ^ k)).length ≤ k := fun h =>
        Nat.lt_irrefl _ (hiff.1 h)
      omega
  rw [Json.digitsOf, habs]
  omega

theorem stopsAt_longLevel : (encode longLevel).StopsAt (Text.longestWhole + 1) := by
  have hmetadata := Json.inherits_exact.metadataJson (place_wellFormed isShort_three)
  apply @Json.StopsAt.member _ [_, _, _]
  · rw [typeTable_of_coherent longLevel_coherent]
    exact ⟨isShort_version, Json.inherits_exact.types longLevel_wellFormed.types, trivial,
      trivial⟩
  · apply @Json.StopsAt.item _ []
    · trivial
    · apply @Json.StopsAt.member _ [_, _]
      · simp [Json.MembersExact, hmetadata, Json.Exact]
      · apply @Json.StopsAt.item _ []
        · trivial
        · apply @Json.StopsAt.member _ [_]
          · exact ⟨trivial, trivial⟩
          · exact .number (length_digitsOf_pow _) (by omega)

end Document
end Introspect
