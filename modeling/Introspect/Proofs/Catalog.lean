import Introspect.Table

/-! What look-ups in keyed collections and in tables find, and which values stand in them after an
insertion. -/
namespace Introspect

namespace Catalog
variable {α κ : Type} {key : α → κ}

@[simp] theorem items_empty : (empty : Catalog key).items = [] := rfl

@[simp] theorem keys_empty : (empty : Catalog key).keys = [] := rfl

theorem key_mem_keys {c : Catalog key} {v : α} (h : v ∈ c.items) : key v ∈ c.keys :=
  List.mem_map_of_mem h

/-- Values of one key are one value. -/
theorem eq_of_key_eq {c : Catalog key} {a b : α} (ha : a ∈ c.items) (hb : b ∈ c.items)
    (h : key a = key b) : a = b := by
  obtain ⟨i, hi, rfl⟩ := List.getElem_of_mem ha
  obtain ⟨j, hj, rfl⟩ := List.getElem_of_mem hb
  have hij : i = j := by
    have hi' : i < (c.items.map key).length := by simpa using hi
    have hj' : j < (c.items.map key).length := by simpa using hj
    have hk : (c.items.map key)[i] = (c.items.map key)[j] := by simpa using h
    exact (List.getElem_inj c.nodup).1 hk
  subst hij
  rfl

/-- The values changed one by one, each under the key that it had. -/
def mapValues (f : α → α) (hf : ∀ v, key (f v) = key v) (c : Catalog key) : Catalog key :=
  ⟨c.items.map f, by
    have hkeys : (c.items.map f).map key = c.items.map key := by
      rw [List.map_map]
      exact List.map_congr_left fun v _ => hf v
    exact hkeys ▸ c.nodup⟩

@[simp] theorem items_mapValues (f : α → α) (hf : ∀ v, key (f v) = key v) (c : Catalog key) :
    (c.mapValues f hf).items = c.items.map f := rfl

@[simp] theorem keys_mapValues (f : α → α) (hf : ∀ v, key (f v) = key v) (c : Catalog key) :
    (c.mapValues f hf).keys = c.keys := by
  simp only [keys, items_mapValues, List.map_map]
  exact List.map_congr_left fun v _ => hf v

variable [DecidableEq κ]

theorem find?_eq_some_iff {c : Catalog key} {k : κ} {v : α} :
    c.find? k = some v ↔ v ∈ c.items ∧ key v = k := by
  constructor
  · intro h
    exact ⟨mem_of_find? h, key_of_find? h⟩
  · rintro ⟨hv, rfl⟩
    have hs : (c.find? (key v)).isSome := (find?_isSome_iff c _).2 (key_mem_keys hv)
    obtain ⟨w, hw⟩ := Option.isSome_iff_exists.1 hs
    rw [hw, eq_of_key_eq (mem_of_find? hw) hv (key_of_find? hw)]

theorem find?_of_mem {c : Catalog key} {v : α} (h : v ∈ c.items) : c.find? (key v) = some v :=
  find?_eq_some_iff.2 ⟨h, rfl⟩

theorem find?_eq_none_iff {c : Catalog key} {k : κ} : c.find? k = none ↔ k ∉ c.keys := by
  rw [← find?_isSome_iff]
  cases c.find? k <;> simp

theorem mem_keys_of_find? {c : Catalog key} {k : κ} {v : α} (h : c.find? k = some v) :
    k ∈ c.keys := by
  obtain ⟨hv, rfl⟩ := find?_eq_some_iff.1 h
  exact key_mem_keys hv

theorem contains_iff {c : Catalog key} {k : κ} : c.contains k = true ↔ k ∈ c.keys :=
  find?_isSome_iff c k

/-- A value with a new key comes last. -/
theorem items_insert {c : Catalog key} {v : α} (h : key v ∉ c.keys) :
    (c.insert v).items = c.items ++ [v] := by
  have hput : ∀ l : List α, key v ∉ l.map key → put key v l = l ++ [v] := by
    intro l
    induction l with
    | nil => intro _; rfl
    | cons a r ih =>
      intro hl
      simp only [List.map_cons, List.mem_cons, not_or] at hl
      simp [put, Ne.symm hl.1, ih hl.2]
  exact hput c.items h

theorem mem_keys_insert {c : Catalog key} {v : α} {k : κ} :
    k ∈ (c.insert v).keys ↔ k = key v ∨ k ∈ c.keys := by
  rw [keys_insert]
  split
  · next h =>
    constructor
    · exact .inr
    · rintro (rfl | hk)
      · exact h
      · exact hk
  · simp [or_comm]

theorem keys_prefix_insert (c : Catalog key) (v : α) : c.keys <+: (c.insert v).keys := by
  rw [keys_insert]
  split
  · exact List.prefix_rfl
  · exact List.prefix_append _ _

theorem mem_items_insert {c : Catalog key} {v a : α} :
    a ∈ (c.insert v).items ↔ a = v ∨ a ∈ c.items ∧ key a ≠ key v := by
  constructor
  · intro ha
    have hf := find?_of_mem ha
    rw [find?_insert] at hf
    split at hf
    · next h => exact .inl (Option.some.inj hf).symm
    · next h => exact .inr ⟨mem_of_find? hf, Ne.symm h⟩
  · rintro (rfl | ⟨ha, hk⟩)
    · exact mem_of_find? (k := key a) (by rw [find?_insert]; simp)
    · exact mem_of_find? (k := key a) (by rw [find?_insert, if_neg (Ne.symm hk)]; exact find?_of_mem ha)

/-- Values that are there after others came in were there before, or came in. -/
theorem mem_or_mem_of_mem_insertAll {c : Catalog key} {l : List α} {a : α}
    (h : a ∈ (c.insertAll l).items) : a ∈ c.items ∨ a ∈ l := by
  induction l generalizing c with
  | nil => exact .inl h
  | cons b l ih =>
    obtain h | h := ih (c := c.insert b) h
    · obtain rfl | ⟨h, -⟩ := mem_items_insert.1 h
      · exact .inr (List.mem_cons_self ..)
      · exact .inl h
    · exact .inr (List.mem_cons_of_mem _ h)

/-- Values with new and different keys come last in their order. -/
theorem items_insertAll {c : Catalog key} {l : List α} (hl : (l.map key).Nodup)
    (hc : ∀ v ∈ l, key v ∉ c.keys) : (c.insertAll l).items = c.items ++ l := by
  induction l generalizing c with
  | nil => simp [insertAll]
  | cons a r ih =>
    simp only [List.map_cons, List.nodup_cons] at hl
    have ha := hc a (by simp)
    have hr : ∀ v ∈ r, key v ∉ (c.insert a).keys := by
      intro v hv hk
      rcases mem_keys_insert.1 hk with hk | hk
      · exact hl.1 (hk ▸ List.mem_map_of_mem hv)
      · exact hc v (by simp [hv]) hk
    have h := ih hl.2 hr
    rw [items_insert ha] at h
    simpa [insertAll] using h

private theorem find?_insertAll_list {l : List α} (hl : (l.map key).Nodup) (c : Catalog key)
    (k : κ) : (c.insertAll l).find? k = (l.find? fun v => key v = k).or (c.find? k) := by
  induction l generalizing c with
  | nil => rfl
  | cons a r ih =>
    simp only [List.map_cons, List.nodup_cons] at hl
    have hrest : (c.insertAll (a :: r)).find? k = _ := ih hl.2 (c.insert a)
    rw [hrest, find?_insert, List.find?_cons]
    by_cases hk : key a = k
    · have hnone : (r.find? fun v => key v = k) = none := by
        simp only [List.find?_eq_none, decide_eq_true_eq]
        intro v hv hvk
        exact hl.1 (hk.trans hvk.symm ▸ List.mem_map_of_mem hv)
      simp [hk, hnone]
    · simp [hk]

/-- Of the values of one key that come in the last wins. -/
theorem find?_insertAll_reverse (c : Catalog key) (l : List α) (k : κ) :
    (c.insertAll l).find? k = (l.reverse.find? fun v => key v = k).or (c.find? k) := by
  induction l generalizing c with
  | nil => rfl
  | cons a l ih =>
    have hrest : (c.insertAll (a :: l)).find? k = _ := ih (c.insert a)
    rw [hrest, find?_insert, List.reverse_cons, List.find?_append, Option.or_assoc]
    by_cases hk : key a = k <;> simp [hk]

/-- Values that come in win over values of the same key. -/
theorem find?_insertAll (c d : Catalog key) (k : κ) :
    (c.insertAll d.items).find? k = (d.find? k).or (c.find? k) :=
  find?_insertAll_list d.nodup c k

/-- The values whose keys another collection has not. -/
def beyond (c d : Catalog key) : Catalog key :=
  ⟨c.items.filter fun v => !d.contains (key v), c.nodup.sublist (List.filter_sublist.map _)⟩

theorem mem_items_beyond {c d : Catalog key} {v : α} :
    v ∈ (c.beyond d).items ↔ v ∈ c.items ∧ key v ∉ d.keys := by
  simp [beyond, ← contains_iff]

/-- Values that come in all stay, and of the others those beyond them. -/
theorem mem_items_insertAll {c d : Catalog key} {v : α} :
    v ∈ (c.insertAll d.items).items ↔ v ∈ d.items ∨ v ∈ (c.beyond d).items := by
  rw [mem_items_beyond]
  constructor
  · intro hv
    have hfind := find?_of_mem hv
    rw [find?_insertAll, Option.or_eq_some_iff, find?_eq_none_iff] at hfind
    rcases hfind with hd | ⟨hd, hc⟩
    · exact .inl (mem_of_find? hd)
    · exact .inr ⟨mem_of_find? hc, hd⟩
  · intro hv
    apply mem_of_find? (k := key v)
    rw [find?_insertAll, Option.or_eq_some_iff, find?_eq_none_iff]
    rcases hv with hd | ⟨hc, hd⟩
    · exact .inl (find?_of_mem hd)
    · exact .inr ⟨hd, find?_of_mem hc⟩

/-- A collection is the collection of its values. -/
theorem ofList_items (c : Catalog key) : ofList c.items = c := by
  apply ext
  simp [ofList, items_insertAll c.nodup]

theorem items_ofList {l : List α} (h : (l.map key).Nodup) :
    (ofList l : Catalog key).items = l := by
  simp [ofList, items_insertAll h]

theorem find?_mapValues (f : α → α) (hf : ∀ v, key (f v) = key v) (c : Catalog key) (k : κ) :
    (c.mapValues f hf).find? k = (c.find? k).map f := by
  rw [find?, items_mapValues, List.find?_map]
  simp only [find?, Function.comp_def, hf]

/-- A collection is given by its keys in order and by what they find. -/
theorem ext_of_find? {a b : Catalog key} (hkeys : a.keys = b.keys)
    (hfind : ∀ k, a.find? k = b.find? k) : a = b := by
  apply ext
  apply List.ext_getElem
  · simpa [keys] using congrArg List.length hkeys
  · intro n ha hb
    have hkey : key a.items[n] = key b.items[n] := by
      have hn := congrArg (fun l => l[n]?) hkeys
      simpa [keys, ha, hb] using hn
    have hfound := hfind (key a.items[n])
    rw [find?_of_mem (List.getElem_mem ha), hkey, find?_of_mem (List.getElem_mem hb)] at hfound
    exact Option.some.inj hfound

private theorem eraseDups_of_nodup {l : List κ} (h : l.Nodup) : l.eraseDups = l := by
  induction l with
  | nil => rfl
  | cons k l ih =>
    obtain ⟨hk, hl⟩ := List.nodup_cons.1 h
    have hrest : (l.filter fun j => !j == k) = l := by
      apply List.filter_eq_self.2
      intro j hj
      have hne : j ≠ k := fun he => hk (he ▸ hj)
      simp [hne]
    rw [List.eraseDups_cons, hrest, ih hl]

theorem eraseDups_keys (c : Catalog key) : c.keys.eraseDups = c.keys := eraseDups_of_nodup c.nodup

/-- The keys of a collection stay where they are, and new ones come behind them in the order of
their first appearance. -/
theorem keys_insertAll (c : Catalog key) (l : List α) :
    (c.insertAll l).keys = (c.keys ++ l.map key).eraseDups := by
  induction l generalizing c with
  | nil =>
    rw [List.map_nil, List.append_nil, eraseDups_keys]
    rfl
  | cons v l ih =>
    have hrest : (c.insertAll (v :: l)).keys = ((c.insert v).keys ++ l.map key).eraseDups := ih _
    rw [hrest, keys_insert, List.map_cons]
    split
    · next h =>
      have hold : (key v :: l.map key).removeAll c.keys = (l.map key).removeAll c.keys := by
        simp [List.cons_removeAll, h]
      rw [List.eraseDups_append, List.eraseDups_append, hold]
    · rw [List.append_assoc, List.singleton_append]

private theorem eraseDups_concat (l : List κ) (k : κ) :
    (l ++ [k]).eraseDups = if k ∈ l then l.eraseDups else l.eraseDups ++ [k] := by
  rw [List.eraseDups_append]
  by_cases h : k ∈ l <;> simp [List.cons_removeAll, List.eraseDups_cons, h]

private theorem insertAll_items_insert (c d : Catalog key) (v : α) :
    c.insertAll (d.insert v).items = (c.insertAll d.items).insert v := by
  apply ext_of_find?
  · have hinner : (d.insert v).items.map key = (d.insert v).keys := rfl
    have hd : d.items.map key = d.keys := rfl
    rw [keys_insertAll, hinner, keys_insert, keys_insert, keys_insertAll, hd]
    by_cases hv : key v ∈ d.keys
    · simp [hv]
    · simp only [hv, if_false, ← List.append_assoc, eraseDups_concat, List.mem_eraseDups]
  · intro k
    simp only [find?_insertAll, find?_insert]
    split <;> simp

/-- What comes in later can come in together with what came in before. -/
theorem insertAll_insertAll (c d : Catalog key) (l : List α) :
    c.insertAll (d.insertAll l).items = (c.insertAll d.items).insertAll l := by
  induction l generalizing d with
  | nil => rfl
  | cons v l ih =>
    have hrest : c.insertAll (d.insertAll (v :: l)).items =
        (c.insertAll (d.insert v).items).insertAll l := ih (d.insert v)
    rw [hrest, insertAll_items_insert]
    rfl

end Catalog

namespace Table
variable {κ α : Type}

@[simp] theorem entries_empty : (empty : Table κ α).entries = [] := rfl

theorem nodup_keys (t : Table κ α) : t.keys.Nodup := t.catalog.nodup

variable [DecidableEq κ]

theorem find?_eq_some_iff {t : Table κ α} {k : κ} {v : α} :
    t.find? k = some v ↔ (k, v) ∈ t.entries := by
  rw [find?, Option.map_eq_some_iff]
  constructor
  · rintro ⟨⟨j, w⟩, h, rfl⟩
    obtain ⟨hm, rfl⟩ := Catalog.find?_eq_some_iff.1 h
    exact hm
  · intro h
    exact ⟨(k, v), Catalog.find?_eq_some_iff.2 ⟨h, rfl⟩, rfl⟩

theorem mem_keys_iff {t : Table κ α} {k : κ} : k ∈ t.keys ↔ t.find? k ≠ none := by
  rw [find?, ne_eq, Option.map_eq_none_iff, Catalog.find?_eq_none_iff, Decidable.not_not]
  rfl

theorem mem_keys_iff_exists {t : Table κ α} {k : κ} : k ∈ t.keys ↔ ∃ v, t.find? k = some v := by
  rw [mem_keys_iff, Option.ne_none_iff_exists']

/-- A table is the table of its entries. -/
theorem ofList_entries (t : Table κ α) : ofList t.entries = t :=
  ext (Catalog.ofList_items t.catalog)

theorem entries_ofList {l : List (κ × α)} (h : (l.map Prod.fst).Nodup) :
    (ofList l).entries = l :=
  Catalog.items_ofList h

/-- What a table finds is one of its bindings. -/
theorem mem_of_find?_ofList {l : List (κ × α)} {k : κ} {v : α}
    (h : (ofList l).find? k = some v) : (k, v) ∈ l := by
  obtain hm | hm := Catalog.mem_or_mem_of_mem_insertAll (find?_eq_some_iff.1 h)
  · cases hm
  · exact hm

/-- Of the bindings of one key the last one wins. -/
theorem find?_ofList (l : List (κ × α)) (k : κ) :
    (ofList l).find? k = (l.reverse.find? fun e => e.1 = k).map Prod.snd := by
  rw [find?, ofList, Catalog.ofList, Catalog.find?_insertAll_reverse, Catalog.find?_empty,
    Option.or_none]

theorem find?_ofList_append (l m : List (κ × α)) (k : κ) :
    (ofList (l ++ m)).find? k = ((ofList m).find? k).or ((ofList l).find? k) := by
  simp only [find?_ofList, List.reverse_append, List.find?_append, Option.map_or]

/-- What a table of different keys finds is what stands there. -/
theorem find?_ofList_eq_some_iff {l : List (κ × α)} (h : (l.map Prod.fst).Nodup) {k : κ} {v : α} :
    (ofList l).find? k = some v ↔ (k, v) ∈ l := by
  rw [find?_eq_some_iff, entries_ofList h]

end Table
end Introspect
