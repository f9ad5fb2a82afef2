import Introspect.Proofs.Document.Readers

/-! Building all types of a table in which every entry is well-formed. It comes to an end exactly
when no type is among its own arguments. Then every entry was built once, and its type is used
wherever its id is mentioned. -/
namespace Introspect.Document
open Relation
variable {α β : Type} {entries : Table Json Json} {s s' : Table Json CppType} {e j k : Json}
  {t u : CppType} {types : List CppType} {depth : Nat}

/-! ## Well-formed tables -/

/-- Entries with different ids, each in the form in which ids are compared, as every text is. -/
structure Identified (items : List Json) : Prop where
  ids : ∀ e ∈ items, ∃ k, e.member? "id" = some k ∧ idOf k = .ok k
  distinct : (items.map (·.member? "id")).Nodup

/-- Each entry describes a type, and each of its arguments has an entry. -/
structure WellFormedTable (items : List Json) : Prop extends Identified items where
  described : ∀ e ∈ items, ∃ kind mark, Describes e kind mark
  arguments : ∀ e ∈ items, ∀ j ∈ argumentNames e,
    j.isKey ∧ ∃ e' ∈ items, e'.member? "id" = some j.canonical

/-- A table is read entry by entry, in its order. -/
theorem Identified.typeEntries {items : List Json} (h : Identified items)
    (hitems : itemsAt j "types" = .ok items) : ∃ entries, typeEntries j = .ok entries ∧
      (entries.entries.map fun p => (some p.1, p.2)) =
        items.map fun e => (e.member? "id", e) := by
  let ident (e : Json) : Json := (e.member? "id").getD .null
  have hident : ∀ e ∈ items, e.member? "id" = some (ident e) ∧ idOf (ident e) = .ok (ident e) := by
    intro e he
    obtain ⟨k, hk, hid⟩ := h.ids e he
    have hkey : ident e = k := by simp only [ident, hk, Option.getD_some]
    exact ⟨hkey ▸ hk, hkey ▸ hid⟩
  have hnamed : listAt (fun e => do return (← requiredAs idOf e "id", e)) j "types" =
      .ok (items.map fun e => (ident e, e)) := by
    have hread : ∀ e ∈ items, (do return (← requiredAs idOf e "id", e)) =
        Except.ok (ε := Failure) (ident e, e) := by
      intro e he
      rw [requiredAs, required_of_member? (hident e he).1, ok_bind, (hident e he).2]
      rfl
    have hmap : (items.map id).mapM (fun e => do return (← requiredAs idOf e "id", e)) =
        Except.ok (ε := Failure) (items.map fun e => (ident e, e)) := mapM_map_eq_ok hread
    rw [List.map_id] at hmap
    rw [listAt, hitems]
    exact hmap
  have hnodup : ((items.map fun e => (ident e, e)).map Prod.fst).Nodup := by
    rw [List.map_map]
    refine List.Nodup.of_map some ?_
    rw [List.map_map]
    exact (List.map_congr_left fun e he => (hident e he).1.symm) ▸ h.distinct
  refine ⟨.ofList (items.map fun e => (ident e, e)), ?_, ?_⟩
  · rw [Document.typeEntries, hnamed]
    rfl
  · rw [Table.entries_ofList hnodup, List.map_map]
    exact List.map_congr_left fun e he => by rw [(hident e he).1]; rfl

section listed
variable {items : List Json}
  (h : (entries.entries.map fun p => (some p.1, p.2)) = items.map fun e => (e.member? "id", e))
include h

theorem find?_eq_some_iff_of_listed :
    entries.find? k = some e ↔ e ∈ items ∧ e.member? "id" = some k := by
  have hmem : (k, e) ∈ entries.entries ↔
      (some k, e) ∈ entries.entries.map fun p => (some p.1, p.2) := by simp
  rw [Table.find?_eq_some_iff, hmem, h, List.mem_map]
  constructor
  · rintro ⟨e', he', hpair⟩
    obtain ⟨hid, rfl⟩ := Prod.mk.inj hpair
    exact ⟨he', hid⟩
  · rintro ⟨he, hid⟩
    exact ⟨e, he, by rw [hid]⟩

theorem mem_keys_iff_of_listed :
    k ∈ entries.keys ↔ ∃ e ∈ items, e.member? "id" = some k := by
  rw [Table.mem_keys_iff_exists]
  exact exists_congr fun e => find?_eq_some_iff_of_listed h

end listed

/-- What a well-formed table comes to when its entries are found by their ids. -/
structure Closed (entries : Table Json Json) : Prop where
  ids : ∀ k ∈ entries.keys, idOf k = .ok k
  described : ∀ k e, entries.find? k = some e → ∃ kind mark, Describes e kind mark
  arguments : ∀ k e, entries.find? k = some e → ∀ j ∈ argumentNames e,
    idOf j = .ok j.canonical ∧ j.canonical ∈ entries.keys

theorem Identified.idOf_keys {items : List Json} (h : Identified items)
    (hlist : (entries.entries.map fun p => (some p.1, p.2)) =
      items.map fun e => (e.member? "id", e)) : ∀ k ∈ entries.keys, idOf k = .ok k := by
  intro k hk
  obtain ⟨e, he, hid⟩ := (mem_keys_iff_of_listed hlist).1 hk
  obtain ⟨k', hk', hown⟩ := h.ids e he
  cases hid.symm.trans hk'
  exact hown

theorem WellFormedTable.closed {items : List Json} (h : WellFormedTable items)
    (hlist : (entries.entries.map fun p => (some p.1, p.2)) =
      items.map fun e => (e.member? "id", e)) : Closed entries where
  ids := h.idOf_keys hlist
  described k e hk := h.described e ((find?_eq_some_iff_of_listed hlist).1 hk).1
  arguments k e hk n hn := by
    obtain ⟨hkey, hentry⟩ := h.arguments e ((find?_eq_some_iff_of_listed hlist).1 hk).1 n hn
    exact ⟨idOf_ok_iff.2 ⟨hkey, rfl⟩, (mem_keys_iff_of_listed hlist).2 hentry⟩

/-! ## Coming to an end -/

/-- All types of a table, where one type may be built for another in chains up to a length. -/
def allTypes (entries : Table Json Json) (depth : Nat) : Decoding (List CppType) :=
  entries.keys.mapM (lookUp entries depth)

/-- The types are built with some length of chains, without running out of it. -/
def Ends (entries : Table Json Json) : Prop :=
  ∃ depth, (allTypes entries depth).run .empty ≠ .error .endlessRecursion

/-- All that can go wrong in a closed table is that the recursion does not end. -/
theorem Closed.failsWith_lookUp (hc : Closed entries) (n : Nat) (hj : idOf j = .ok k)
    (hk : k ∈ entries.keys) : FailsWith (· = .endlessRecursion) (lookUp entries n j) := by
  induction n generalizing j k with
  | zero =>
    rintro s e ⟨⟩
    rfl
  | succ n ih =>
    refine FailsWith.lookUp_succ (fun _ herror => by cases hj.symm.trans herror) fun k' hk' => ?_
    cases hj.symm.trans hk'
    obtain ⟨e, he⟩ := Table.mem_keys_iff_exists.1 hk
    obtain ⟨kind, mark, hdescribes⟩ := hc.described k e he
    refine ⟨e, he, ?_⟩
    rw [← typeIn_eq_typeOfEntry, hdescribes.typeIn_eq]
    refine (FailsWith.mapM fun i hi => ?_).bind fun _ _ _ _ => .pure _
    obtain ⟨hi', hmem⟩ := hc.arguments k e he i hi
    exact ih hi' hmem

theorem Closed.exists_of_ne (hc : Closed entries)
    (h : (allTypes entries depth).run .empty ≠ .error .endlessRecursion) :
    ∃ types s, (allTypes entries depth).run .empty = .ok (types, s) := by
  cases hrun : (allTypes entries depth).run .empty with
  | ok found => exact ⟨found.1, found.2, rfl⟩
  | error e =>
    have hfails : FailsWith (· = .endlessRecursion) (allTypes entries depth) :=
      .mapM fun k hk => hc.failsWith_lookUp depth (hc.ids k hk) hk
    exact absurd (hfails .empty e hrun ▸ hrun) h

/-- What was built at the end stands under every id of the table. -/
theorem found_of_allTypes (hids : ∀ k ∈ entries.keys, idOf k = .ok k)
    (h : (allTypes entries depth).run .empty = .ok (types, s)) :
    Settled entries s ∧ List.Forall₂ (fun k t => s.find? k = some t) entries.keys types := by
  obtain ⟨-, hs, hagain⟩ := Settles.mapM (settles_lookUp entries depth) entries.keys .empty types s
    (settled_empty entries) h
  obtain ⟨-, hfound⟩ := forall₂_of_mapM_known (hagain s (.refl s))
  refine ⟨hs, ((List.forall₂_and_left _ _).2 ⟨hids, hfound⟩).imp fun k t hkt => ?_⟩
  obtain ⟨hk, -, ht⟩ := hkt
  exact (idOf_ok_iff.1 hk).2 ▸ ht

theorem exists_find?_of_allTypes (hids : ∀ k ∈ entries.keys, idOf k = .ok k)
    (h : (allTypes entries depth).run .empty = .ok (types, s)) :
    ∀ k ∈ entries.keys, ∃ t, s.find? k = some t := by
  intro k hk
  obtain ⟨t, -, ht⟩ := exists_of_forall₂ (found_of_allTypes hids h).2.flip hk
  exact ⟨t, ht⟩

theorem acyclic_of_allTypes (hids : ∀ k ∈ entries.keys, idOf k = .ok k)
    (h : (allTypes entries depth).run .empty = .ok (types, s)) : Acyclic entries :=
  (found_of_allTypes hids h).1.acyclic (exists_find?_of_allTypes hids h)

/-- Chains as long as the table are long enough when no type is among its own arguments. -/
theorem allTypes_of_acyclic (h : Acyclic entries) :
    (allTypes entries (entries.size + 1)).run .empty ≠ .error .endlessRecursion := by
  intro hrun
  have hrefuses : AlwaysRefuses (allTypes entries (entries.size + 1)) True :=
    .mapM fun k _ => refuses_typeNamed h k
  obtain hrefusal | ⟨-, hno⟩ := hrefuses .empty _ hrun
  · cases hrefusal
  · exact hno trivial

theorem Closed.ends_iff (hc : Closed entries) : Ends entries ↔ Acyclic entries := by
  constructor
  · rintro ⟨depth, h⟩
    obtain ⟨types, s, hrun⟩ := hc.exists_of_ne h
    exact acyclic_of_allTypes hc.ids hrun
  · exact fun h => ⟨_, allTypes_of_acyclic h⟩

/-! ## Notes of what is built -/

/-- Reading with a list of the ids whose types were built, one note each time. -/
abbrev Noting := StateT (List Json) Decoding

/-- `lookUp` with notes. -/
def lookUpNoted (entries : Table Json Json) : Nat → Json → Noting CppType
  | 0, _ => throw .endlessRecursion
  | n + 1, j => do
    let id ← idOf j
    match (← getThe (Table Json CppType)).find? id with
    | some t => return t
    | none =>
      match entries.find? id with
      | none => throw (.registryFile (.unknownType j.plainly))
      | some entry =>
        let t ← typeIn (lookUpNoted entries n) entry
        modifyThe (Table Json CppType) (·.insert id t)
        modifyThe (List Json) (· ++ [id])
        return t

/-- `allTypes` with notes. -/
def allTypesNoted (entries : Table Json Json) (depth : Nat) : Noting (List CppType) :=
  entries.keys.mapM (lookUpNoted entries depth)

/-- Without its notes the reading is the other one. -/
def Erases (m : Noting α) (m' : Decoding α) : Prop := ∀ notes, Prod.fst <$> m.run notes = m'

namespace Erases

theorem pure (a : α) : Erases (Pure.pure a) (Pure.pure a) := by
  intro notes
  rw [StateT.run_pure, map_pure]

theorem lift (x : Except Failure α) : Erases (liftM x) (liftM x) := by
  intro notes
  cases x <;> rfl

theorem bind {m : Noting α} {m' : Decoding α} {f : α → Noting β} {f' : α → Decoding β}
    (hm : Erases m m') (hf : ∀ a, Erases (f a) (f' a)) : Erases (m >>= f) (m' >>= f') := by
  intro notes
  rw [StateT.run_bind, map_bind, ← hm notes, bind_map_left]
  exact bind_congr fun found => hf found.1 found.2

theorem mapM {read : β → Noting α} {read' : β → Decoding α} (h : ∀ b, Erases (read b) (read' b))
    (l : List β) : Erases (l.mapM read) (l.mapM read') := by
  induction l with
  | nil =>
    rw [List.mapM_nil, List.mapM_nil]
    exact .pure []
  | cons b l ih =>
    rw [List.mapM_cons, List.mapM_cons]
    exact (h b).bind fun _ => ih.bind fun _ => .pure _

theorem typeIn {look : Json → Noting CppType} {look' : Json → Decoding CppType}
    (h : ∀ j, Erases (look j) (look' j)) (e : Json) :
    Erases (typeIn look e) (typeIn look' e) := by
  have htemplate : Erases (templateIn look e) (templateIn look' e) := by
    rw [templateIn, templateIn]
    dsimp only
    split
    · exact .pure none
    · refine (lift _).bind fun kind => (lift _).bind fun names => (mapM h names).bind ?_
      intro arguments
      split
      · exact (lift _).bind fun _ => .pure _
      · exact .pure _
  rw [Document.typeIn, Document.typeIn]
  refine htemplate.bind fun template => (lift _).bind fun name => (lift _).bind fun kind => ?_
  cases template with
  | none => exact .pure _
  | some found => exact .pure _

theorem lookUpNoted (entries : Table Json Json) (n : Nat) (j : Json) :
    Erases (lookUpNoted entries n j) (lookUp entries n j) := by
  induction n generalizing j with
  | zero => exact fun _ => rfl
  | succ n ih =>
    rw [Document.lookUpNoted, lookUp]
    refine (lift _).bind fun id => Erases.bind (fun _ => rfl) fun s => ?_
    cases s.find? id with
    | some t => exact .pure t
    | none =>
      cases entries.find? id with
      | none => exact fun _ => rfl
      | some e =>
        exact (typeIn ih e).bind fun t => Erases.bind (fun _ => rfl) fun _ _ => rfl

end Erases

/-! ## What a look-up builds -/

/-- What is new after the reading stands within the types that it gives. -/
def BuildsWithin (m : Decoding α) (parts : α → List CppType) : Prop :=
  ∀ s a s', m.run s = .ok (a, s') →
    ∀ k u, s'.find? k = some u → s.find? k = some u ∨ ∃ t ∈ parts a, u.Within t

theorem BuildsWithin.mapM {read : β → Decoding CppType}
    (h : ∀ b, BuildsWithin (read b) fun t => [t]) (l : List β) :
    BuildsWithin (l.mapM read) id := by
  induction l with
  | nil =>
    rintro s _ _ ⟨⟩ k u hu
    exact .inl hu
  | cons b l ih =>
    intro s ts s' hrun k u hu
    rw [List.mapM_cons] at hrun
    obtain ⟨t, s₁, hfirst, hrun⟩ := run_bind_ok_iff.1 hrun
    obtain ⟨us, s₂, hrest, hpure⟩ := run_bind_ok_iff.1 hrun
    cases hpure
    obtain hu | ⟨v, hv, huv⟩ := ih s₁ us _ hrest k u hu
    · obtain hu | ⟨v, hv, huv⟩ := h b s t s₁ hfirst k u hu
      · exact .inl hu
      · obtain rfl := List.mem_singleton.1 hv
        exact .inr ⟨v, List.mem_cons_self .., huv⟩
    · exact .inr ⟨v, List.mem_cons_of_mem _ hv, huv⟩

theorem BuildsWithin.typeOfEntry {look : Json → Decoding CppType}
    (h : ∀ j, BuildsWithin (look j) fun t => [t]) (e : Json) :
    BuildsWithin (typeOfEntry look e) CppType.arguments := by
  intro s t s' hrun
  obtain ⟨-, -, harguments⟩ := run_typeOfEntry_ok_iff.1 hrun
  exact mapM h (argumentNames e) s t.arguments s' harguments

theorem BuildsWithin.lookUp (entries : Table Json Json) (n : Nat) (j : Json) :
    BuildsWithin (lookUp entries n j) fun t => [t] := by
  induction n generalizing j with
  | zero => nofun
  | succ n ih =>
    intro s t s' hrun k u hu
    obtain ⟨k', -, ⟨-, rfl⟩ | ⟨-, e, s₁, -, hread, rfl⟩⟩ := run_lookUp_ok_iff.1 hrun
    · exact .inl hu
    · rw [Table.find?_insert] at hu
      split at hu
      · cases hu
        exact .inr ⟨t, List.mem_singleton_self t, .refl t⟩
      · obtain hu | ⟨a, ha, hua⟩ := typeOfEntry ih e s t s₁ hread k u hu
        · exact .inl hu
        · exact .inr ⟨t, List.mem_singleton_self t, .argument ha hua⟩

/-- A type is not built while its arguments are. -/
theorem find?_eq_none_of_run {n : Nat} (hs : Settled entries s) (hk : s.find? k = none)
    (he : entries.find? k = some e)
    (h : (typeOfEntry (lookUp entries n) e).run s = .ok (t, s')) : s'.find? k = none := by
  obtain ⟨-, hs', hagain⟩ := settles_typeOfEntry (settles_lookUp entries n) e s t s' hs h
  obtain ⟨hgrows, -⟩ := hs'.insert he hagain
  refine Option.eq_none_iff_forall_ne_some.2 fun u hu => ?_
  -- it would be the same type, and yet stand within an argument of it
  have hsame : (s'.insert k t).find? k = some u := hgrows k u hu
  rw [Table.find?_insert, if_pos rfl, Option.some.injEq] at hsame
  subst hsame
  obtain hu | ⟨a, ha, hta⟩ :=
    BuildsWithin.typeOfEntry (BuildsWithin.lookUp entries n) e s t s' h k t hu
  · cases hk.symm.trans hu
  · exact Nat.lt_irrefl _ (Nat.lt_of_le_of_lt hta.sizeOf_le (CppType.sizeOf_lt_of_mem_arguments ha))

/-! ## Built once -/

theorem run_bind_noted_iff {m : Noting α} {f : α → Noting β} {notes notes' : List Json} {b : β} :
    ((m >>= f).run notes).run s = .ok ((b, notes'), s') ↔
      ∃ a notes₁ s₁, (m.run notes).run s = .ok ((a, notes₁), s₁) ∧
        ((f a).run notes₁).run s₁ = .ok ((b, notes'), s') := by
  rw [StateT.run_bind, run_bind_ok_iff]
  constructor
  · rintro ⟨⟨a, notes₁⟩, s₁, hm, hf⟩
    exact ⟨a, notes₁, s₁, hm, hf⟩
  · rintro ⟨a, notes₁, s₁, hm, hf⟩
    exact ⟨(a, notes₁), s₁, hm, hf⟩

/-- A reading with notes went as it would have gone without. -/
theorem Erases.run {m : Noting α} {m' : Decoding α} (h : Erases m m') {notes notes' : List Json}
    {a : α} (hrun : (m.run notes).run s = .ok ((a, notes'), s')) : m'.run s = .ok (a, s') := by
  rw [← h notes, StateT.run_map, hrun]
  rfl

theorem Erases.exists_run {m : Noting α} {m' : Decoding α} (h : Erases m m') {a : α}
    (hrun : m'.run s = .ok (a, s')) (notes : List Json) :
    ∃ notes', (m.run notes).run s = .ok ((a, notes'), s') := by
  rw [← h notes, StateT.run_map] at hrun
  cases hm : (m.run notes).run s with
  | error e =>
    rw [hm] at hrun
    cases hrun
  | ok found =>
    rw [hm] at hrun
    cases hrun
    exact ⟨found.1.2, rfl⟩

/-- The notes are kept in step with the table of what was built: an id is noted when, and only
when, its type comes in. -/
def Tallies (entries : Table Json Json) (m : Noting α) : Prop :=
  ∀ notes s a notes' s', Settled entries s → s.keys = notes →
    (m.run notes).run s = .ok ((a, notes'), s') → Settled entries s' ∧ s'.keys = notes'

namespace Tallies

theorem pure (a : α) : Tallies entries (Pure.pure a) := by
  rintro _ s _ _ _ hs hnotes ⟨⟩
  exact ⟨hs, hnotes⟩

theorem bind {m : Noting α} {f : α → Noting β} (hm : Tallies entries m)
    (hf : ∀ a, Tallies entries (f a)) : Tallies entries (m >>= f) := by
  intro notes s b notes' s' hs hnotes hrun
  obtain ⟨a, notes₁, s₁, hfirst, hrest⟩ := run_bind_noted_iff.1 hrun
  obtain ⟨hs₁, hnotes₁⟩ := hm notes s a notes₁ s₁ hs hnotes hfirst
  exact hf a notes₁ s₁ b notes' s' hs₁ hnotes₁ hrest

theorem mapM {read : β → Noting α} (h : ∀ b, Tallies entries (read b)) (l : List β) :
    Tallies entries (l.mapM read) := by
  induction l with
  | nil =>
    rw [List.mapM_nil]
    exact .pure []
  | cons b l ih =>
    rw [List.mapM_cons]
    exact (h b).bind fun _ => ih.bind fun _ => .pure _

theorem lookUpNoted (entries : Table Json Json) (n : Nat) (j : Json) :
    Tallies entries (lookUpNoted entries n j) := by
  induction n generalizing j with
  | zero => nofun
  | succ n ih =>
    intro notes s t notes' s' hs hnotes hrun
    rw [Document.lookUpNoted] at hrun
    cases hk : idOf j with
    | error e =>
      rw [hk] at hrun
      cases hrun
    | ok k =>
      rw [hk] at hrun
      obtain ⟨_, _, _, ⟨⟩, hrun⟩ := run_bind_noted_iff.1 hrun
      obtain ⟨_, _, _, ⟨⟩, hrun⟩ := run_bind_noted_iff.1 hrun
      split at hrun
      · cases hrun
        exact ⟨hs, hnotes⟩
      · next hnone =>
        split at hrun
        · cases hrun
        · next e he =>
          obtain ⟨u, notes₁, s₁, hread, hrun⟩ := run_bind_noted_iff.1 hrun
          cases hrun
          have herased : (typeOfEntry (lookUp entries n) e).run s = .ok (t, s₁) :=
            (Erases.typeIn (Erases.lookUpNoted entries n) e).run hread
          rw [(describes_of_run herased).typeIn_eq] at hread
          obtain ⟨hs₁, hnotes₁⟩ :=
            (Tallies.mapM ih _).bind (fun _ => .pure _) notes s t notes₁ s₁ hs hnotes hread
          obtain ⟨-, -, hagain⟩ :=
            settles_typeOfEntry (settles_lookUp entries n) e s t s₁ hs herased
          refine ⟨(hs₁.insert he hagain).2, ?_⟩
          have hnew : k ∉ s₁.keys := fun hmem =>
            Table.mem_keys_iff.1 hmem (find?_eq_none_of_run hs hnone he herased)
          rw [Table.keys_insert, if_neg hnew, hnotes₁]

end Tallies

/-- What it is that all types of the table were built, and `s` is what was built for the ids. -/
structure BuiltOnce (entries : Table Json Json) (depth : Nat) (types : List CppType)
    (s : Table Json CppType) : Prop where
  unfolds : List.Forall₂ (fun k t => ∀ u, Unfolds entries k u ↔ u = t) entries.keys types
  found : List.Forall₂ (fun k t => s.find? k = some t) entries.keys types
  once : ∃ notes, ((allTypesNoted entries depth).run []).run .empty = .ok ((types, notes), s) ∧
    notes.Perm entries.keys
  shared : ∀ k t, s.find? k = some t → ∃ e, entries.find? k = some e ∧
    Outlines e t fun j a => s.find? j.canonical = some a
  again : ∀ j k t n, idOf j = .ok k → s.find? k = some t →
    (lookUp entries (n + 1) j).run s = .ok (t, s)

theorem Closed.builtOnce (hc : Closed entries)
    (h : (allTypes entries depth).run .empty = .ok (types, s)) :
    BuiltOnce entries depth types s := by
  obtain ⟨hs, hfound⟩ := found_of_allTypes hc.ids h
  have herases : Erases (allTypesNoted entries depth) (allTypes entries depth) :=
    .mapM (Erases.lookUpNoted entries depth) entries.keys
  obtain ⟨notes, hnoted⟩ := herases.exists_run h []
  obtain ⟨-, hnotes⟩ := Tallies.mapM (Tallies.lookUpNoted entries depth) entries.keys [] .empty
    types notes s (settled_empty entries) rfl hnoted
  have hperm : s.keys.Perm entries.keys := by
    refine (List.perm_ext_iff_of_nodup s.nodup_keys entries.nodup_keys).2 fun k => ?_
    rw [Table.mem_keys_iff_exists, Table.mem_keys_iff_exists]
    constructor
    · rintro ⟨t, ht⟩
      obtain ⟨e, he, -⟩ := hs k t ht
      exact ⟨e, he⟩
    · exact fun hk => exists_find?_of_allTypes hc.ids h k (Table.mem_keys_iff_exists.2 hk)
  exact {
    unfolds := hfound.imp fun _ _ ht u =>
      ⟨fun hu => hu.unique (hs.unfolds ht), fun hu => hu ▸ hs.unfolds ht⟩
    found := hfound
    once := ⟨notes, hnoted, hnotes ▸ hperm⟩
    shared := fun k t ht =>
      let ⟨e, he, houtlines⟩ := hs.outlines ht
      ⟨e, he, houtlines.imp fun _ _ _ _ hfind => hfind.2⟩
    again := fun _ k _ _ hk ht => run_lookUp_ok_iff.2 ⟨k, hk, .inl ⟨ht, rfl⟩⟩ }

/-- Building all types of a well-formed table comes to an end, in chains as long as the table or in
any others, exactly when no type is among its own arguments. Where it ends it gives for each id the
type that the entry of the id unfolds to. Each id is built once, and what was built for it is what
stands wherever the id is mentioned. -/
theorem allTypes_ends_iff_acyclic {items : List Json} (hitems : itemsAt j "types" = .ok items)
    (h : WellFormedTable items) : ∃ entries, typeEntries j = .ok entries ∧
      (entries.entries.map fun p => (some p.1, p.2)) = (items.map fun e => (e.member? "id", e)) ∧
      (Ends entries ↔ Acyclic entries) ∧
      ((entries.keys.mapM (typeNamed entries)).run .empty ≠ .error .endlessRecursion ↔
        Acyclic entries) ∧
      ∀ depth, (allTypes entries depth).run .empty ≠ .error .endlessRecursion →
        ∃ types s, (allTypes entries depth).run .empty = .ok (types, s) ∧
          BuiltOnce entries depth types s := by
  obtain ⟨entries, hentries, hlist⟩ := h.typeEntries hitems
  have hc : Closed entries := h.closed hlist
  refine ⟨entries, hentries, hlist, hc.ends_iff, ?_, fun depth hends => ?_⟩
  · exact ⟨fun hends => hc.ends_iff.1 ⟨_, hends⟩, allTypes_of_acyclic⟩
  · obtain ⟨types, s, hrun⟩ := hc.exists_of_ne hends
    exact ⟨types, s, hrun, hc.builtOnce hrun⟩

/-- A box of boxes, before the boxes, before what is in them. -/
def nested : List Json :=
  let text (name value : String) : String × Json := (name, .text value)
  let box (id argument : String) : Json := .object [text "id" id, text "name" id,
    text "kind" "CLASS", ("template", .object [text "kind" "specialized",
      ("arguments", Json.texts [argument])])]
  [box "Box<Box<int>>" "Box<int>", box "Box<int>" "int",
    .object [text "id" "int", text "name" "int", text "kind" "INT32"]]

theorem wellFormedTable_nested : WellFormedTable nested where
  ids := by
    simp only [nested, List.forall_mem_cons]
    exact ⟨⟨_, rfl, rfl⟩, ⟨_, rfl, rfl⟩, ⟨_, rfl, rfl⟩, nofun⟩
  distinct := by decide
  described := by
    simp only [nested, List.forall_mem_cons]
    exact ⟨⟨.record, some .specialized, ⟨_, rfl⟩, rfl, rfl, by decide⟩,
      ⟨.record, some .specialized, ⟨_, rfl⟩, rfl, rfl, by decide⟩,
      ⟨.int32, none, ⟨_, rfl⟩, rfl, rfl⟩, nofun⟩
  arguments := by decide

theorem allTypes_ends_iff_acyclic_nested :
    itemsAt (.object [("types", .array nested)]) "types" = .ok nested ∧ WellFormedTable nested ∧
    ∃ entries, typeEntries (.object [("types", .array nested)]) = .ok entries ∧
      (entries.entries.map fun p => (some p.1, p.2)) = (nested.map fun e => (e.member? "id", e)) ∧
      (Ends entries ↔ Acyclic entries) ∧
      ((entries.keys.mapM (typeNamed entries)).run .empty ≠ .error .endlessRecursion ↔
        Acyclic entries) ∧
      ∀ depth, (allTypes entries depth).run .empty ≠ .error .endlessRecursion →
        ∃ types s, (allTypes entries depth).run .empty = .ok (types, s) ∧
          BuiltOnce entries depth types s :=
  ⟨rfl, wellFormedTable_nested, allTypes_ends_iff_acyclic rfl wellFormedTable_nested⟩

end Introspect.Document
