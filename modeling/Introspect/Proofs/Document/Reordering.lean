import Introspect.Proofs.Document.Building
import Introspect.Proofs.Document.Decoded

/-! Documents that differ in the order of their type tables. They are read as registries with the
same records, or neither of them is read. -/
namespace Introspect.Document
open Relation
variable {α β : Type} {entries entries' : Table Json Json} {s s' : Table Json CppType}
  {e j j' k n : Json} {t : CppType} {types types' : List CppType} {hash : NameHash}

/-! ## Tables with the same entries -/

theorem Unfolds.congr (h : ∀ k, entries'.find? k = entries.find? k) (ht : Unfolds entries k t) :
    Unfolds entries' k t := by
  induction t using CppType.arguments_induction generalizing k with
  | step t ih =>
    obtain ⟨e, he, houtlines⟩ := ht.outlines
    obtain ⟨hdescribes, hid, harguments⟩ := houtlines.imp fun _ _ a ha hunfolds => ih a ha hunfolds
    exact .entry ((h k).trans he) hdescribes hid harguments

/-- In a table of which all types were built nothing is missing. -/
theorem closed_of_allTypes {depth : Nat} (hids : ∀ k ∈ entries.keys, idOf k = .ok k)
    (h : (allTypes entries depth).run .empty = .ok (types, s)) : Closed entries := by
  have hs := (found_of_allTypes hids h).1
  have houtlines : ∀ k e, entries.find? k = some e → ∃ t,
      Outlines e t fun j a => idOf j = .ok j.canonical ∧ s.find? j.canonical = some a := by
    intro k e he
    obtain ⟨t, ht⟩ := exists_find?_of_allTypes hids h k (Table.mem_keys_iff_exists.2 ⟨e, he⟩)
    obtain ⟨e', he', houtlines⟩ := hs.outlines ht
    cases he.symm.trans he'
    exact ⟨t, houtlines⟩
  refine ⟨hids, fun k e he => ?_, fun k e he j hj => ?_⟩
  · obtain ⟨t, hdescribes, -, -⟩ := houtlines k e he
    exact ⟨t.kind, t.template?, hdescribes⟩
  · obtain ⟨t, -, -, harguments⟩ := houtlines k e he
    obtain ⟨a, -, hid, hfind⟩ := exists_of_forall₂ harguments.flip hj
    obtain ⟨e', he', -⟩ := hs _ _ hfind
    exact ⟨hid, Table.mem_keys_iff_exists.2 ⟨e', he'⟩⟩

/-- Two tables have the same entries, in whatever order. -/
structure SameEntries (entries entries' : Table Json Json) : Prop where
  find : ∀ k, entries'.find? k = entries.find? k
  keys : entries'.keys.Perm entries.keys

namespace SameEntries
variable (h : SameEntries entries entries')
include h

theorem symm : SameEntries entries' entries := ⟨fun k => (h.find k).symm, h.keys.symm⟩

theorem size : entries'.size = entries.size := by
  have hlength := h.keys.length_eq
  simpa [Table.keys, Catalog.keys, Table.size, Catalog.size] using hlength

theorem acyclic (hacyclic : Acyclic entries) : Acyclic entries' := by
  have hrefers : Refers entries' = Refers entries := by
    funext k k'
    simp only [Refers, h.find]
  rw [Acyclic, hrefers]
  exact hacyclic

/-- What was built for an id in one order is what was built in the other. -/
theorem found (hs : Settled entries s) (hs' : Settled entries' s')
    (hall : ∀ k ∈ entries'.keys, ∃ t, s'.find? k = some t) (ht : s.find? k = some t) :
    s'.find? k = some t := by
  obtain ⟨e, he, -⟩ := hs k t ht
  obtain ⟨u, hu⟩ := hall k (Table.mem_keys_iff_exists.2 ⟨e, (h.find k).trans he⟩)
  rw [hu, (hs'.unfolds hu).unique ((hs.unfolds ht).congr h.find)]

/-- What can be built in one order can be built in the other, and comes to the same. -/
theorem allTypes {depth : Nat} (hids : ∀ k ∈ entries.keys, idOf k = .ok k)
    (hrun : (allTypes entries depth).run .empty = .ok (types, s)) : ∃ types' s',
      (Document.allTypes entries' (entries'.size + 1)).run .empty = .ok (types', s') ∧
        types'.Perm types ∧ ∀ k, s'.find? k = s.find? k := by
  have hc := closed_of_allTypes hids hrun
  have hc' : Closed entries' := by
    refine ⟨fun k hk => hids k (h.keys.mem_iff.1 hk), ?_, ?_⟩
    · simpa only [h.find] using hc.described
    · simpa only [h.find, h.keys.mem_iff] using hc.arguments
  obtain ⟨types', s', hrun'⟩ := hc'.exists_of_ne
    (allTypes_of_acyclic (h.acyclic (acyclic_of_allTypes hids hrun)))
  obtain ⟨hs, hfound⟩ := found_of_allTypes hids hrun
  obtain ⟨hs', hfound'⟩ := found_of_allTypes hc'.ids hrun'
  have hfind : ∀ k, s'.find? k = s.find? k := fun k => Option.ext fun u =>
    ⟨h.symm.found hs' hs (exists_find?_of_allTypes hids hrun),
      h.found hs hs' (exists_find?_of_allTypes hc'.ids hrun')⟩
  refine ⟨types', s', hrun', (List.map_perm_map_iff (Option.some_injective _)).1 ?_, hfind⟩
  rw [← map_eq_map_iff_forall₂.2 hfound, ← map_eq_map_iff_forall₂.2 hfound', funext hfind]
  exact h.keys.map s.find?

end SameEntries

/-! ## Registries with their types in another order -/

/-- Where the first of two computations succeeds so does the second one, with a value that is so
related to that of the first. -/
def Matched (Q : α → β → Prop) (x : Except Failure α) (x' : Except Failure β) : Prop :=
  ∀ a, x = .ok a → ∃ b, x' = .ok b ∧ Q a b

namespace Matched
variable {α' β' : Type} {Q : α → α' → Prop} {Q' : β → β' → Prop}

theorem ok {a : α} {b : α'} (h : Q a b) : Matched Q (.ok a) (.ok b) := by
  rintro _ ⟨⟩
  exact ⟨b, rfl, h⟩

theorem same_bind {x : Except Failure α} {f : α → Except Failure β} {f' : α → Except Failure β'}
    (hf : ∀ a, Matched Q' (f a) (f' a)) : Matched Q' (x >>= f) (x >>= f') := by
  intro c hc
  obtain ⟨a, ha, hc⟩ := bind_eq_ok_iff.1 hc
  obtain ⟨d, hd, hcd⟩ := hf a c hc
  exact ⟨d, bind_eq_ok_iff.2 ⟨a, ha, hd⟩, hcd⟩

theorem bind {x : Except Failure α} {x' : Except Failure α'} {f : α → Except Failure β}
    {f' : α' → Except Failure β'} (hx : Matched Q x x')
    (hf : ∀ a b, Q a b → Matched Q' (f a) (f' b)) : Matched Q' (x >>= f) (x' >>= f') := by
  intro c hc
  obtain ⟨a, ha, hc⟩ := bind_eq_ok_iff.1 hc
  obtain ⟨b, hb, hab⟩ := hx a ha
  obtain ⟨d, hd, hcd⟩ := hf a b hab c hc
  exact ⟨d, bind_eq_ok_iff.2 ⟨b, hb, hd⟩, hcd⟩

theorem error (e : Failure) (x' : Except Failure α') :
    Matched Q (.error e : Except Failure α) x' := by
  rintro _ ⟨⟩

end Matched

/-- The two registries find the same types by name and by number, and apart from their types they
are the same. -/
structure SameMaps (r r' : Registry) : Prop where
  hash : r'.hash = r.hash
  types : ∀ n, r'.types.find? n = r.types.find? n
  typeHolders : ∀ v, r'.typeHolders.find? v = r.typeHolders.find? v
  classes : r'.classes = r.classes
  enums : r'.enums = r.enums
  aliases : r'.aliases = r.aliases
  functions : r'.functions = r.functions
  functionHolders : r'.functionHolders = r.functionHolders

theorem matched_claim {holders holders' : Table Int String} {kind : NameKind} {name : String}
    (h : ∀ v, holders'.find? v = holders.find? v) :
    Matched (fun a b => ∀ v, b.find? v = a.find? v) (Registry.claim hash kind holders name)
      (Registry.claim hash kind holders' name) := by
  unfold Registry.claim
  rw [h]
  split
  · exact .ok fun v => by rw [Table.find?_insert, Table.find?_insert, h]
  · split
    · exact .ok h
    · exact .error _ _

namespace SameMaps
variable {r r' : Registry} (h : SameMaps r r')
include h

theorem addType (t : CppType) : Matched SameMaps (r.addType t) (r'.addType t) := by
  unfold Registry.addType
  rw [h.hash]
  refine (matched_claim h.typeHolders).bind fun holders holders' hholders => .ok ?_
  exact { h with
    hash := rfl
    types := fun n => by rw [Catalog.find?_insert, Catalog.find?_insert, h.types]
    typeHolders := hholders }

theorem ensureType (t : CppType) : Matched SameMaps (r.ensureType t) (r'.ensureType t) := by
  unfold Registry.ensureType Catalog.contains
  rw [h.types]
  split
  · exact .ok h
  · exact h.addType t

theorem requireDistinct : r'.requireDistinct = r.requireDistinct := by
  funext kind names
  rw [Registry.requireDistinct, Registry.requireDistinct, h.hash]

theorem requireNumbers : Document.requireNumbers r' = Document.requireNumbers r := by
  funext kind members
  rw [Document.requireNumbers, Document.requireNumbers, h.requireDistinct]

theorem addClass (e : Json × ClassRecord) :
    Matched SameMaps (Document.addClass r e) (Document.addClass r' e) := by
  unfold Document.addClass Registry.addClass
  rw [h.requireNumbers, h.requireDistinct]
  refine .same_bind fun _ => .same_bind fun _ => .same_bind fun _ => .same_bind fun _ => ?_
  refine .same_bind fun _ => .same_bind fun _ => (h.ensureType e.2.type).bind fun _ _ hq => .ok ?_
  exact { hq with classes := by rw [hq.classes] }

theorem addEnum (e : EnumRecord) : Matched SameMaps (r.addEnum e) (r'.addEnum e) :=
  (h.ensureType e.type).bind fun _ _ hq => .ok { hq with enums := by rw [hq.enums] }

theorem addAlias (a : AliasRecord) : Matched SameMaps (r.addAlias a) (r'.addAlias a) :=
  (h.ensureType a.type).bind fun _ _ hq => .ok { hq with aliases := by rw [hq.aliases] }

theorem addFunction (f : FunctionRecord) :
    Matched SameMaps (Document.addFunction r f) (Document.addFunction r' f) := by
  unfold Document.addFunction Registry.addFunction
  rw [h.hash, h.functionHolders]
  exact .same_bind fun _ => .same_bind fun _ => .ok { h with
    hash := rfl
    functions := by rw [h.functions]
    functionHolders := rfl }

end SameMaps

/-- Types that can be added in one order can be added in any. -/
theorem matched_foldlM_addType {typed : Registry}
    (hnodup : (types.map CppType.qualifiedName).Nodup)
    (harguments : ∀ t ∈ types, ∀ a ∈ t.arguments, a ∈ types) (hperm : types'.Perm types)
    (h : types.foldlM addType (Registry.empty hash) = .ok typed) :
    ∃ typed', types'.foldlM addType (Registry.empty hash) = .ok typed' ∧ SameMaps typed typed' := by
  have hlinked : Linked hash types typed := linked_of_foldlM hnodup harguments h
  have hnumbered : ∀ t ∈ types, t.id.Numbered := by
    rw [← hlinked.items]
    exact fun t ht => (hlinked.records .types t ht).1
  have hseparates : hash.Separates (types.map CppType.qualifiedName) := by
    have hkeys : typed.types.keys = types.map CppType.qualifiedName := by
      rw [Catalog.keys, hlinked.items]
    rw [← hkeys, ← hlinked.hash]
    exact hlinked.sound.type_holders.separates
  have hempty : Registry.HoldersExact hash (Registry.empty hash).typeHolders
      (Registry.empty hash).types.keys := .empty
  obtain ⟨holders, htyped⟩ := foldlM_addType (r := .empty hash) hnumbered hempty hseparates
  obtain ⟨holders', htyped'⟩ := foldlM_addType (r := .empty hash) (l := types')
    (fun t ht => hnumbered t (hperm.mem_iff.1 ht)) hempty
    (hseparates.of_subset (hperm.map CppType.qualifiedName).subset)
  have hlinked' := linked_of_foldlM ((hperm.map CppType.qualifiedName).nodup_iff.2 hnodup)
    (fun t ht a ha => hperm.mem_iff.2 (harguments t (hperm.mem_iff.1 ht) a ha)) htyped'
  cases h.symm.trans htyped
  refine ⟨_, htyped', rfl, fun n => Option.ext fun t => ?_, fun v => Option.ext fun n => ?_, rfl,
    rfl, rfl, rfl, rfl⟩
  · rw [Catalog.find?_eq_some_iff, Catalog.find?_eq_some_iff, hlinked.items, hlinked'.items,
      hperm.mem_iff]
  · rw [hlinked.sound.type_holders v n, hlinked'.sound.type_holders v n, Catalog.keys, Catalog.keys,
      hlinked.items, hlinked'.items, (hperm.map CppType.qualifiedName).mem_iff]

/-! ## Readings after all types were built -/

/-- Where the first reading succeeds it builds nothing, and the second one succeeds and builds
nothing either, with a value that is so related to that of the first. -/
def Follows (s s' : Table Json CppType) (Q : α → β → Prop) (m : Decoding α) (m' : Decoding β) :
    Prop :=
  ∀ a s₁, m.run s = .ok (a, s₁) → s₁ = s ∧ ∃ b, m'.run s' = .ok (b, s') ∧ Q a b

namespace Follows
variable {α' β' : Type} {Q : α → α' → Prop} {Q' : β → β' → Prop}

theorem pure {a : α} {b : α'} (h : Q a b) : Follows s s' Q (Pure.pure a) (Pure.pure b) := by
  rintro _ _ ⟨⟩
  exact ⟨rfl, b, rfl, h⟩

theorem lift {x : Except Failure α} {x' : Except Failure α'} (h : Matched Q x x') :
    Follows s s' Q (liftM x) (liftM x') := by
  intro a s₁ hrun
  obtain ⟨hx, rfl⟩ := run_lift_ok_iff.1 hrun
  obtain ⟨b, hb, hab⟩ := h a hx
  exact ⟨rfl, b, run_lift_ok_iff.2 ⟨hb, rfl⟩, hab⟩

theorem bind {m : Decoding α} {m' : Decoding α'} {f : α → Decoding β} {f' : α' → Decoding β'}
    (hm : Follows s s' Q m m') (hf : ∀ a b, Q a b → Follows s s' Q' (f a) (f' b)) :
    Follows s s' Q' (m >>= f) (m' >>= f') := by
  intro c s₂ hrun
  obtain ⟨a, s₁, hfirst, hrest⟩ := run_bind_ok_iff.1 hrun
  obtain ⟨rfl, b, hb, hab⟩ := hm a s₁ hfirst
  obtain ⟨hs, d, hd, hcd⟩ := hf a b hab c s₂ hrest
  exact ⟨hs, d, run_bind_ok_iff.2 ⟨b, s', hb, hd⟩, hcd⟩

theorem foldlM {γ : Type} {step : α → γ → Decoding α} {step' : α' → γ → Decoding α'} {l : List γ}
    (h : ∀ a b, ∀ c ∈ l, Q a b → Follows s s' Q (step a c) (step' b c)) {a : α} {b : α'}
    (hab : Q a b) : Follows s s' Q (l.foldlM step a) (l.foldlM step' b) := by
  induction l generalizing a b with
  | nil => exact .pure hab
  | cons c l ih =>
    rw [List.foldlM_cons, List.foldlM_cons]
    exact (h a b c (by simp) hab).bind fun _ _ => ih fun a b d hd => h a b d (by simp [hd])

end Follows

theorem walks_follows (s s' : Table Json CppType) : Walks fun _ m m' => Follows s s' Eq m m' where
  pure _ := .pure rfl
  lift_bind _ hf := by
    intro c s₂ hrun
    obtain ⟨a, s₁, hlift, hrest⟩ := run_bind_ok_iff.1 hrun
    obtain ⟨ha, rfl⟩ := run_lift_ok_iff.1 hlift
    obtain ⟨hs, d, hd, hcd⟩ := hf a ha c s₂ hrest
    exact ⟨hs, d, run_bind_ok_iff.2 ⟨a, s', run_lift_ok_iff.2 ⟨ha, rfl⟩, hd⟩, hcd⟩
  bind hm hf := hm.bind fun a _ hab => hab ▸ hf a

/-- When every type of a table was built, a look-up finds one of them. -/
theorem follows_typeNamed (hall : ∀ k ∈ entries.keys, ∃ t, s.find? k = some t)
    (hfind : ∀ k, s'.find? k = s.find? k) (j : Json) :
    Follows s s' Eq (typeNamed entries j) (typeNamed entries' j) := by
  intro t s₁ hrun
  obtain ⟨k, hk, ⟨ht, rfl⟩ | ⟨hnone, e, -, he, -⟩⟩ := run_lookUp_ok_iff.1 hrun
  · exact ⟨rfl, t, run_lookUp_ok_iff.2 ⟨k, hk, .inl ⟨(hfind k).trans ht, rfl⟩⟩, rfl⟩
  · obtain ⟨u, hu⟩ := hall k (Table.mem_keys_iff_exists.2 ⟨e, he⟩)
    cases hnone.symm.trans hu

/-- The records of a category are read and added one by one. -/
theorem follows_addEntries {name : String} {read read' : Json → Decoding α}
    {add : Registry → α → Except Failure Registry} (hitems : itemsAt j' name = itemsAt j name)
    (hread : ∀ e, Follows s s' Eq (read e) (read' e))
    (hadd : ∀ r r' a, SameMaps r r' → Matched SameMaps (add r a) (add r' a)) {r r' : Registry}
    (h : SameMaps r r') :
    Follows s s' SameMaps (addEntries j name read add r) (addEntries j' name read' add r') := by
  rw [addEntries, addEntries, hitems]
  refine (Follows.lift fun a ha => ⟨a, ha, rfl⟩ : Follows s s' Eq _ _).bind fun items _ heq => ?_
  subst heq
  exact .foldlM (fun r r' e _ hr => (hread e).bind fun a _ heq => heq ▸ .lift (hadd r r' a hr)) h

/-! ## The whole document -/

/-- The second document is the first one with the entries of its type table in another order. -/
structure Reordered (j j' : Json) : Prop where
  objects : (∃ ms, j = .object ms) ∧ ∃ ms, j' = .object ms
  others : ∀ name, name ≠ "types" → j'.member? name = j.member? name
  types : ∃ items items', itemsAt j "types" = .ok items ∧ itemsAt j' "types" = .ok items' ∧
    items'.Perm items

namespace Reordered
variable (h : Reordered j j')
include h

theorem symm : Reordered j' j where
  objects := h.objects.symm
  others name hname := (h.others name hname).symm
  types := by
    obtain ⟨items, items', hitems, hitems', hperm⟩ := h.types
    exact ⟨items', items, hitems', hitems, hperm.symm⟩

theorem itemsAt {name : String} (hname : name ≠ "types") : itemsAt j' name = itemsAt j name := by
  rw [Document.itemsAt, Document.itemsAt, optional, optional, h.others name hname]

end Reordered

theorem decode_eq_ok_iff {r : Registry} : decode hash j = .ok r ↔
    (∃ ms, j = .object ms) ∧ isVersion (optional j "version" .null) = true ∧
      records hash j = .ok r := by
  cases j with
  | object ms =>
    rw [decode]
    split
    · next hversion => simp [hversion]
    · next hversion => simp [hversion]
  | _ => simp [decode]

/-- The records that a document lists behind its types. -/
private def recordsFrom (j : Json) (look : Json → Decoding CppType) (r : Registry) :
    Decoding Registry := do
  let r ← addEntries j "classes" (fun e => do return (e, ← classOf look e)) addClass r
  let r ← addEntries j "enums" (enumOf look) Registry.addEnum r
  let r ← addEntries j "aliases" (aliasOf look) Registry.addAlias r
  addEntries j "functions" (functionOf look) addFunction r

private theorem records_eq_ok_iff {r : Registry} : records hash j = .ok r ↔
    ∃ entries types s typed s', typeEntries j = .ok entries ∧
      (allTypes entries (entries.size + 1)).run .empty = .ok (types, s) ∧
      types.foldlM addType (Registry.empty hash) = .ok typed ∧
      (recordsFrom j (typeNamed entries) typed).run s = .ok (r, s') := by
  constructor
  · intro h
    rw [records, bind_eq_ok_iff] at h
    obtain ⟨entries, hentries, hrun'⟩ := h
    obtain ⟨s', hrun⟩ := exists_of_run' hrun'
    obtain ⟨types, s, htypes, hrest⟩ := run_bind_ok_iff.1 hrun
    obtain ⟨typed, s₁, hfold, hrecords⟩ := run_bind_ok_iff.1 hrest
    obtain ⟨htyped, rfl⟩ := run_foldlM_lift_ok_iff.1 hfold
    exact ⟨entries, types, s₁, typed, s', hentries, htypes, htyped, hrecords⟩
  · rintro ⟨entries, types, s, typed, s', hentries, htypes, htyped, hrecords⟩
    rw [records, hentries, ok_bind]
    have hrest := run_bind_ok_iff.2 ⟨typed, s, run_foldlM_lift_ok_iff.2 ⟨htyped, rfl⟩, hrecords⟩
    exact congrArg (Prod.fst <$> ·) (run_bind_ok_iff.2 ⟨types, s, htypes, hrest⟩)

/-- The records behind the types are read alike when the look-ups are. -/
private theorem follows_recordsFrom {look look' : Json → Decoding CppType}
    (hlook : ∀ j, Follows s s' Eq (look j) (look' j)) (h : Reordered j j') {r r' : Registry}
    (hr : SameMaps r r') :
    Follows s s' SameMaps (recordsFrom j look r) (recordsFrom j' look' r') := by
  have hwalks := walks_follows s s'
  have hclass : ∀ e, Follows s s' Eq (do return (e, ← classOf look e) :
      Decoding (Json × ClassRecord)) (do return (e, ← classOf look' e)) :=
    fun e => hwalks.bind (hwalks.classOf fun n _ => hlook n) fun _ => hwalks.pure _
  refine (follows_addEntries (h.itemsAt (by decide)) hclass (fun _ _ e hq => hq.addClass e)
    hr).bind fun _ _ hr => ?_
  refine (follows_addEntries (h.itemsAt (by decide)) (fun _ => hwalks.enumOf fun n _ => hlook n)
    (fun _ _ e hq => hq.addEnum e) hr).bind fun _ _ hr => ?_
  refine (follows_addEntries (h.itemsAt (by decide)) (fun _ => hwalks.aliasOf fun n _ => hlook n)
    (fun _ _ a hq => hq.addAlias a) hr).bind fun _ _ hr => ?_
  exact follows_addEntries (h.itemsAt (by decide)) (fun _ => hwalks.functionOf fun n _ => hlook n)
    (fun _ _ f hq => hq.addFunction f) hr

/-- The entries of the type table have different ids. -/
def DistinctIds (j : Json) : Prop :=
  ∀ items, itemsAt j "types" = .ok items → (items.map (·.member? "id")).Nodup

theorem identified_of_selfNamed {items : List Json} (hj : SelfNamed j) (hdistinct : DistinctIds j)
    (hitems : itemsAt j "types" = .ok items) : Identified items where
  ids e he := ⟨_, hj items hitems e he, rfl⟩
  distinct := hdistinct items hitems

theorem sameEntries_of_listed {items items' : List Json} (hperm : items'.Perm items)
    (h : (entries.entries.map fun p => (some p.1, p.2)) = items.map fun e => (e.member? "id", e))
    (h' : (entries'.entries.map fun p => (some p.1, p.2)) =
      items'.map fun e => (e.member? "id", e)) : SameEntries entries entries' where
  find k := Option.ext fun e => by
    rw [find?_eq_some_iff_of_listed h', find?_eq_some_iff_of_listed h, hperm.mem_iff]
  keys := by
    refine (List.perm_ext_iff_of_nodup entries'.nodup_keys entries.nodup_keys).2 fun k => ?_
    rw [mem_keys_iff_of_listed h', mem_keys_iff_of_listed h]
    simp only [hperm.mem_iff]

private theorem exists_decode {r : Registry} (hj : SelfNamed j) (hdistinct : DistinctIds j)
    (h : Reordered j j') (hr : decode hash j = .ok r) :
    ∃ r', decode hash j' = .ok r' ∧ SameMaps r r' := by
  obtain ⟨-, hversion, hrecords⟩ := decode_eq_ok_iff.1 hr
  obtain ⟨items, items', hitems, hitems', hperm⟩ := h.types
  have hid : Identified items := identified_of_selfNamed hj hdistinct hitems
  have hid' : Identified items' :=
    ⟨fun e he => hid.ids e (hperm.mem_iff.1 he), (hperm.map _).nodup_iff.2 hid.distinct⟩
  obtain ⟨entries, types, s, typed, s₁, hentries, htypes, htyped, hrest⟩ :=
    records_eq_ok_iff.1 hrecords
  obtain ⟨_, hread, hlist⟩ := hid.typeEntries hitems
  cases hentries.symm.trans hread
  obtain ⟨entries', hentries', hlist'⟩ := hid'.typeEntries hitems'
  have hids : ∀ k ∈ entries.keys, idOf k = .ok k := hid.idOf_keys hlist
  have hsame : SameEntries entries entries' := sameEntries_of_listed hperm hlist hlist'
  obtain ⟨types', s', htypes', htypesPerm, hfind⟩ := hsame.allTypes hids htypes
  have hc : Complete entries types s := complete_of_mapM (hj.spelled hentries) htypes
  obtain ⟨typed', htyped', htypedMaps⟩ :=
    matched_foldlM_addType hc.nodup (fun _ => hc.arguments_mem) htypesPerm htyped
  have hlook : ∀ j, Follows s s' Eq (typeNamed entries j) (typeNamed entries' j) :=
    follows_typeNamed (exists_find?_of_allTypes hids htypes) hfind
  obtain ⟨rfl, r', hr', hmaps⟩ := follows_recordsFrom hlook h htypedMaps r s₁ hrest
  refine ⟨r', decode_eq_ok_iff.2 ⟨h.objects.2, ?_, ?_⟩, hmaps⟩
  · rw [optional, h.others "version" (by decide)]
    exact hversion
  · exact records_eq_ok_iff.2
      ⟨entries', types', s', typed', s', hentries', htypes', htyped', hr'⟩

/-- The order of the type table makes no difference when its entries go by their own names, each by
another one. Either both documents are read or neither is. The registries have the same classes,
enums, aliases and functions in the same order, and they find the same types. -/
theorem decode_reordered (hj : SelfNamed j) (hdistinct : DistinctIds j) (h : Reordered j j')
    (hash : NameHash) :
    ((∃ r, decode hash j = .ok r) ↔ ∃ r', decode hash j' = .ok r') ∧
    ∀ r r', decode hash j = .ok r → decode hash j' = .ok r' →
      r'.classes = r.classes ∧ r'.enums = r.enums ∧ r'.aliases = r.aliases ∧
        r'.functions = r.functions ∧ ∀ n, r'.types.find? n = r.types.find? n := by
  have hj' : SelfNamed j' := by
    obtain ⟨items, items', hitems, hitems', hperm⟩ := h.types
    intro found hfound e he
    cases hitems'.symm.trans hfound
    exact hj items hitems e (hperm.mem_iff.1 he)
  have hdistinct' : DistinctIds j' := by
    obtain ⟨items, items', hitems, hitems', hperm⟩ := h.types
    intro found hfound
    cases hitems'.symm.trans hfound
    exact (hperm.map _).nodup_iff.2 (hdistinct items hitems)
  refine ⟨⟨fun ⟨r, hr⟩ => ?_, fun ⟨r', hr'⟩ => ?_⟩, fun r r' hr hr' => ?_⟩
  · obtain ⟨r', hr', -⟩ := exists_decode hj hdistinct h hr
    exact ⟨r', hr'⟩
  · obtain ⟨r, hr, -⟩ := exists_decode hj' hdistinct' h.symm hr'
    exact ⟨r, hr⟩
  · obtain ⟨_, hread, hmaps⟩ := exists_decode hj hdistinct h hr
    cases hr'.symm.trans hread
    exact ⟨hmaps.classes, hmaps.enums, hmaps.aliases, hmaps.functions, hmaps.types⟩

/-- A document with these entries in its type table, in which a class and a function speak of a
box of numbers. -/
def crate (types : List Json) : Json :=
  let text (name value : String) : String × Json := (name, .text value)
  let place : String × Json := ("metadata", .object [text "file" "game/box.h"])
  .object [
    ("version", .int 1),
    ("types", .array types),
    ("classes", .array [.object [text "type" "game::Box<int>", place]]),
    ("functions", .array [.object [text "name" "open", text "namespace" "game",
      ("return_type", .object [text "type" "int"]), place]])]

/-- A type and its argument, which stands behind it. -/
def boxed : List Json :=
  let text (name value : String) : String × Json := (name, .text value)
  [.object [text "id" "game::Box<int>", text "name" "Box<int>", text "namespace" "game",
    text "kind" "CLASS",
    ("template", .object [text "kind" "specialized", ("arguments", Json.texts ["int"])])],
  .object [text "id" "int", text "name" "int", text "kind" "INT32"]]

theorem reordered_crate {types types' : List Json} (h : types'.Perm types) :
    Reordered (crate types) (crate types') where
  objects := ⟨⟨_, rfl⟩, ⟨_, rfl⟩⟩
  others name hname := by
    have hno : ("types" == name) = false := by simpa using hname.symm
    simp [crate, Json.member?, List.find?_cons, hno]
  types := ⟨types, types', rfl, rfl, h⟩

theorem decode_reordered_crate : SelfNamed (crate boxed) ∧ DistinctIds (crate boxed) ∧
    Reordered (crate boxed) (crate boxed.reverse) ∧
    (∃ r, decode .crc32 (crate boxed) = .ok r) ∧
    ((∃ r, decode .crc32 (crate boxed) = .ok r) ↔
      ∃ r', decode .crc32 (crate boxed.reverse) = .ok r') ∧
    ∀ r r', decode .crc32 (crate boxed) = .ok r → decode .crc32 (crate boxed.reverse) = .ok r' →
      r'.classes = r.classes ∧ r'.enums = r.enums ∧ r'.aliases = r.aliases ∧
        r'.functions = r.functions ∧ ∀ n, r'.types.find? n = r.types.find? n := by
  have hnamed : SelfNamed (crate boxed) := by
    rintro items ⟨⟩
    decide +kernel
  have hdistinct : DistinctIds (crate boxed) := by
    rintro items ⟨⟩
    decide
  have hreordered := reordered_crate boxed.reverse_perm
  have hok : (decode .crc32 (crate boxed)).toOption.isSome = true := by decide +kernel
  refine ⟨hnamed, hdistinct, hreordered, ?_,
    decode_reordered hnamed hdistinct hreordered .crc32⟩
  cases h : decode .crc32 (crate boxed) with
  | ok r => exact ⟨r, rfl⟩
  | error e =>
    rw [h] at hok
    cases hok

end Introspect.Document
