import Introspect.Proofs.Registry.History
import Introspect.Registry.Merge

/-! What a merge does with names that share a number: it fails over records that differ, never over
numbers, so that two registries that clash are put together all the same. -/
namespace Introspect

/-- The names of a collection are its own and those that come in. -/
theorem Catalog.mem_keys_insertAll {α κ : Type} {key : α → κ} [DecidableEq κ] (c : Catalog key)
    (l : List α) (k : κ) : k ∈ (c.insertAll l).keys ↔ k ∈ c.keys ∨ k ∈ l.map key := by
  induction l generalizing c with
  | nil => simp [insertAll]
  | cons v l ih =>
    have hrest : k ∈ ((c.insert v).insertAll l).keys ↔ _ := ih (c.insert v)
    rw [mem_keys_insert] at hrest
    simpa [insertAll, or_assoc, or_left_comm] using hrest

namespace Registry
variable {hash : NameHash} {a b r s : Registry} {strict : Bool}

/-! ## What a merge returns -/

/-- A category either is added as a whole, or holds a value that a strict merge refuses. -/
private theorem mergeItems_cases {α : Type} {key : α → String} (strict : Bool)
    (agrees : α → α → Bool) (l : List α) (c : Catalog key) :
    mergeItems strict agrees l c = (c.insertAll l, none) ∨
      strict = true ∧ ∃ c' k, mergeItems strict agrees l c = (c', some k) := by
  induction l generalizing c with
  | nil => exact .inl rfl
  | cons v l ih =>
    rw [mergeItems]
    split
    · next h => exact .inr ⟨(Bool.and_eq_true _ _ ▸ h).1, _, _, rfl⟩
    · exact ih (c.insert v)

/-- A merge is the union, or it is strict and stops at records of one name that differ. -/
theorem merge_cases (a b : Registry) (strict : Bool) :
    a.merge b strict = (a.union b, none) ∨
      strict = true ∧ ∃ s category k,
        a.merge b strict = (s, some (.mergeConflict category k)) := by
  unfold merge
  rcases mergeItems_cases strict CppType.agrees b.types.items a.types with ht | ⟨hs, c, k, ht⟩
  case inr => exact .inr ⟨hs, _, _, _, by rw [ht]⟩
  rcases mergeItems_cases strict ClassRecord.agrees b.classes.items a.classes with
    hc | ⟨hs, c, k, hc⟩
  case inr => exact .inr ⟨hs, _, _, _, by simp only [ht, hc]; rfl⟩
  rcases mergeItems_cases strict EnumRecord.agrees b.enums.items a.enums with
    he | ⟨hs, c, k, he⟩
  case inr => exact .inr ⟨hs, _, _, _, by simp only [ht, hc, he]; rfl⟩
  rcases mergeItems_cases strict AliasRecord.agrees b.aliases.items a.aliases with
    ha | ⟨hs, c, k, ha⟩
  case inr => exact .inr ⟨hs, _, _, _, by simp only [ht, hc, he, ha]; rfl⟩
  rcases mergeItems_cases strict FunctionRecord.agrees b.functions.items a.functions with
    hf | ⟨hs, c, k, hf⟩
  case inr => exact .inr ⟨hs, _, _, _, by simp only [ht, hc, he, ha, hf]; rfl⟩
  exact .inl (by simp only [ht, hc, he, ha, hf, union])

theorem merge_error {e : Failure} (h : a.merge b strict = (s, some e)) :
    strict = true ∧ ∃ category k, e = .mergeConflict category k := by
  rcases merge_cases a b strict with hok | ⟨hs, s', category, k, hfails⟩
  · simp [hok] at h
  · rw [hfails] at h
    cases h
    exact ⟨hs, category, k, rfl⟩

theorem merge_ok (h : a.merge b strict = (s, none)) : s = a.union b := by
  rcases merge_cases a b strict with hok | ⟨-, s', category, k, hfails⟩
  · rw [hok] at h
    cases h
    rfl
  · simp [hfails] at h

/-! ## Numbered names -/

/-- The names of a kind that a registry numbers. Those of members have numbers in their class
only. -/
def numberedNames (r : Registry) : NameKind → List String
  | .type => r.types.keys
  | .function => r.functions.keys
  | .field | .method => []

/-- No two names of one kind share a number. -/
def NumbersApart (r : Registry) : Prop := ∀ kind, r.hash.Separates (r.numberedNames kind)

theorem Sound.numbersApart (hr : r.Sound) : r.NumbersApart
  | .type => hr.type_holders.separates
  | .function => hr.function_holders.separates
  | .field | .method => .nil

theorem mem_numberedNames_union (a b : Registry) (kind : NameKind) (n : String) :
    n ∈ (a.union b).numberedNames kind ↔ n ∈ a.numberedNames kind ∨ n ∈ b.numberedNames kind := by
  cases kind with
  | type => exact a.types.mem_keys_insertAll b.types.items n
  | function => exact a.functions.mem_keys_insertAll b.functions.items n
  | field => simp [numberedNames]
  | method => simp [numberedNames]

/-- A number that is read off a list of names stands for the last one that has it. -/
theorem find?_holdersOf (hash : NameHash) (names : List String) (v : Int) :
    (holdersOf hash names).find? v = names.reverse.find? fun n => hash n = v := by
  suffices ∀ t : Table Int String,
      (⟨t.catalog.insertAll (names.map fun n => (hash n, n))⟩ : Table Int String).find? v =
        (names.reverse.find? fun n => hash n = v).or (t.find? v) from
    (this .empty).trans (by simp)
  induction names with
  | nil => exact fun t => rfl
  | cons n names ih =>
    intro t
    refine (ih (t.insert (hash n) n)).trans ?_
    rw [Table.find?_insert, List.reverse_cons, List.find?_append, Option.or_assoc]
    by_cases hv : hash n = v <;> simp [hv]

/-- Numbers read off names are exact just where no two of the names share one. -/
theorem holdersExact_holdersOf_iff {names : List String} :
    HoldersExact hash (holdersOf hash names) names ↔ hash.Separates names := by
  refine ⟨HoldersExact.separates, fun hs v n => ?_⟩
  rw [find?_holdersOf]
  constructor
  · intro h
    exact ⟨List.mem_reverse.1 (List.mem_of_find?_eq_some h), by simpa using List.find?_some h⟩
  · rintro ⟨hn, rfl⟩
    have hsome : (names.reverse.find? fun m => hash m = hash n).isSome := by
      simpa [List.find?_isSome] using ⟨n, hn, rfl⟩
    obtain ⟨m, hm⟩ := Option.isSome_iff_exists.1 hsome
    have hmn : m = n := hs m (List.mem_reverse.1 (List.mem_of_find?_eq_some hm)) n hn
      (by simpa using List.find?_some hm)
    rw [hm, hmn]

/-! ## Clashes -/

/-- A name of one registry and a different one of another share a number. -/
structure NameClash (a b : Registry) (kind : NameKind) (c : Collision) : Prop where
  ne : c.first ≠ c.second
  first_value : a.hash c.first = c.value
  second_value : a.hash c.second = c.value
  first_mem : c.first ∈ a.numberedNames kind
  second_mem : c.second ∈ b.numberedNames kind

/-- A merge detects clashes: it returns only registries without one, and fails over one wherever a
name that comes in clashes. -/
structure DetectsClashes (a b : Registry) (merged : Registry × Option Failure) : Prop where
  returns_apart : ∀ s, merged = (s, none) → s.NumbersApart
  reports : ∀ kind c, NameClash a b kind c →
    ∃ s kind c, NameClash a b kind c ∧ merged = (s, some (.collision kind c))

/-- The registries that inserts and merges leave when all of them succeed, with the filled
registries that were put together. -/
inductive Merged (hash : NameHash) : List Registry → Registry → Prop
  | filled {is : List Insertion} {r : Registry}
      (h : is.foldlM (fun r i => i.apply r) (empty hash) = .ok r) : Merged hash [r] r
  | merge {as bs : List Registry} {a b r : Registry} {strict : Bool} (ha : Merged hash as a)
      (hb : Merged hash bs b) (h : a.merge b strict = (r, none)) : Merged hash (as ++ bs) r

/-- Inserts that all succeed leave a sound registry. -/
theorem sound_of_filled {is : List Insertion}
    (h : is.foldlM (fun r i => i.apply r) (empty hash) = .ok r) : r.Sound ∧ r.hash = hash := by
  suffices ∀ s : Registry, s.Sound → is.foldlM (fun r i => i.apply r) s = .ok r →
      r.Sound ∧ r.hash = s.hash from this (empty hash) (sound_empty hash) h
  clear h
  induction is with
  | nil =>
    intro s hs h
    cases h
    exact ⟨hs, rfl⟩
  | cons i is ih =>
    intro s hs h
    rw [List.foldlM_cons] at h
    cases hi : i.apply s with
    | error e => simp [hi, bind, Except.bind] at h
    | ok t =>
      rw [hi] at h
      obtain ⟨hr, hhash⟩ := ih t (Insertion.sound_of_ok hs hi) h
      exact ⟨hr, hhash.trans (Insertion.added_of_ok hi).hash⟩

namespace Merged
variable {as bs : List Registry}

theorem hash_eq (h : Merged hash as a) : a.hash = hash := by
  induction h with
  | filled h => exact (sound_of_filled h).2
  | merge _ _ h iha _ => rw [merge_ok h]; exact iha

/-- What was put together was filled by inserts. -/
theorem sound_part (h : Merged hash as a) : ∀ p ∈ as, p.Sound ∧ p.hash = hash := by
  induction h with
  | filled h => simpa using sound_of_filled h
  | merge _ _ _ iha ihb =>
    intro p hp
    rcases List.mem_append.1 hp with hp | hp
    · exact iha p hp
    · exact ihb p hp

/-- The names of a merged registry are those of its parts. -/
theorem mem_numberedNames (h : Merged hash as a) (kind : NameKind) (n : String) :
    n ∈ a.numberedNames kind ↔ ∃ p ∈ as, n ∈ p.numberedNames kind := by
  induction h with
  | filled h => simp
  | merge _ _ h iha ihb =>
    rw [merge_ok h, mem_numberedNames_union, iha, ihb]
    simp [or_and_right, exists_or]

/-- Numbers stay apart through merges exactly when no two parts clash. -/
theorem numbersApart_iff (h : Merged hash as a) :
    a.NumbersApart ↔ ∀ p ∈ as, ∀ q ∈ as, ∀ kind c, ¬NameClash p q kind c := by
  constructor
  · intro hapart p hp q hq kind c hc
    refine hc.ne (hapart kind _ ((h.mem_numberedNames kind _).2 ⟨p, hp, hc.first_mem⟩) _
      ((h.mem_numberedNames kind _).2 ⟨q, hq, hc.second_mem⟩) ?_)
    rw [h.hash_eq, ← (h.sound_part p hp).2, hc.first_value, hc.second_value]
  · intro hnone kind m hm n hn hv
    obtain ⟨p, hp, hm⟩ := (h.mem_numberedNames kind m).1 hm
    obtain ⟨q, hq, hn⟩ := (h.mem_numberedNames kind n).1 hn
    by_cases hne : m = n
    · exact hne
    · have hhash : p.hash = a.hash := (h.sound_part p hp).2.trans h.hash_eq.symm
      exact absurd ⟨hne, rfl, hhash ▸ hv.symm, hm, hn⟩ (hnone p hp q hq kind ⟨m, n, p.hash m⟩)

end Merged

/-- The union of registries whose numbers are apart has them apart exactly when the two do not
clash. -/
theorem numbersApart_union_iff (hhash : b.hash = a.hash) (ha : a.NumbersApart)
    (hb : b.NumbersApart) : (a.union b).NumbersApart ↔ ∀ kind c, ¬NameClash a b kind c := by
  constructor
  · intro hapart kind c hc
    exact hc.ne (hapart kind _ ((mem_numberedNames_union a b kind _).2 (.inl hc.first_mem)) _
      ((mem_numberedNames_union a b kind _).2 (.inr hc.second_mem))
      (hc.first_value.trans hc.second_value.symm))
  · intro hnone kind m hm n hn hv
    have hcross : ∀ m ∈ a.numberedNames kind, ∀ n ∈ b.numberedNames kind,
        a.hash m = a.hash n → m = n := fun m hm n hn hv =>
      Decidable.not_not.1 fun hne => hnone kind ⟨m, n, a.hash m⟩ ⟨hne, rfl, hv.symm, hm, hn⟩
    rcases (mem_numberedNames_union a b kind m).1 hm with hm | hm <;>
      rcases (mem_numberedNames_union a b kind n).1 hn with hn | hn
    · exact ha kind m hm n hn hv
    · exact hcross m hm n hn hv
    · exact (hcross n hn m hm hv.symm).symm
    · exact hb kind m hm n hn (hhash ▸ hv)

/-- A merge that cannot fail over numbers detects clashes only where there is none. -/
theorem detectsClashes_iff (hhash : b.hash = a.hash) (ha : a.NumbersApart) (hb : b.NumbersApart)
    (strict : Bool) :
    DetectsClashes a b (a.merge b strict) ↔ ∀ kind c, ¬NameClash a b kind c := by
  constructor
  · intro h kind c hc
    obtain ⟨s, kind', c', -, hreport⟩ := h.reports kind c hc
    obtain ⟨-, category, k, he⟩ := merge_error hreport
    cases he
  · intro hnone
    refine ⟨fun s hok => ?_, fun kind c hc => absurd hc (hnone kind c)⟩
    rw [merge_ok hok]
    exact (numbersApart_union_iff hhash ha hb).2 hnone

/-- Of registries filled by inserts, and of merges of them, a merge fails only over records of one
name that differ, and only when strict. When it returns, its numbers are exact just where no two
names of a kind share one, which is where no two of all the registries put together clash. So it
detects the clashes of two registries only when they have none. -/
theorem merge_detectsClashes_iff {as bs : List Registry} (ha : Merged hash as a)
    (hb : Merged hash bs b) (strict : Bool) :
    (∀ s e, a.merge b strict = (s, some e) →
      strict = true ∧ ∃ category k, e = .mergeConflict category k) ∧
    (∀ s, a.merge b strict = (s, none) →
      (s.NumbersApart ↔ ∀ p ∈ as ++ bs, ∀ q ∈ as ++ bs, ∀ kind c, ¬NameClash p q kind c) ∧
      (HoldersExact hash s.typeHolders s.types.keys ↔ hash.Separates s.types.keys) ∧
      (HoldersExact hash s.functionHolders s.functions.keys ↔
        hash.Separates s.functions.keys)) ∧
    (a.NumbersApart → b.NumbersApart →
      (DetectsClashes a b (a.merge b strict) ↔ ∀ kind c, ¬NameClash a b kind c)) := by
  refine ⟨fun s e h => merge_error h, fun s h => ⟨(ha.merge hb h).numbersApart_iff, ?_⟩,
    fun hapart hapart' =>
      detectsClashes_iff (hb.hash_eq.trans ha.hash_eq.symm) hapart hapart' strict⟩
  have hhash : (a.union b).hash = hash := ha.hash_eq
  have hrow := merge_ok h
  subst hrow
  rw [← hhash]
  exact ⟨holdersExact_holdersOf_iff, holdersExact_holdersOf_iff⟩

/-- A registry of one class type. -/
def lone (hash : NameHash) (name : String) : Registry :=
  { empty hash with
    types := Catalog.empty.insert (.plain ⟨name, ""⟩ .record)
    typeHolders := Table.empty.insert (hash name) name }

theorem merged_lone (hash : NameHash) (name : String) :
    Merged hash [lone hash name] (lone hash name) := by
  have hfilled : [Insertion.type (.plain ⟨name, ""⟩ .record)].foldlM (fun r i => i.apply r)
      (empty hash) = .ok (lone hash name) := rfl
  exact .filled hfilled

/-- The number of characters of a name. -/
def lengthHash : NameHash := fun name => name.length

/-- Registries of names of different length do not clash, and merge. -/
theorem merge_detectsClashes_lengths :
    Merged lengthHash [lone lengthHash "A"] (lone lengthHash "A") ∧
      Merged lengthHash [lone lengthHash "Bo"] (lone lengthHash "Bo") ∧
      DetectsClashes (lone lengthHash "A") (lone lengthHash "Bo")
        ((lone lengthHash "A").merge (lone lengthHash "Bo") true) := by
  have ha := merged_lone lengthHash "A"
  have hb := merged_lone lengthHash "Bo"
  have hapart := (ha.sound_part _ (List.mem_singleton_self _)).1.numbersApart
  have hapart' := (hb.sound_part _ (List.mem_singleton_self _)).1.numbersApart
  refine ⟨ha, hb, ((merge_detectsClashes_iff ha hb true).2.2 hapart hapart').2 ?_⟩
  rintro (_ | _ | _ | _) ⟨m, n, v⟩ ⟨-, hm, hn, hmem, hnmem⟩
  · have hmA : m = "A" := List.mem_singleton.1 hmem
    have hnBo : n = "Bo" := List.mem_singleton.1 hnmem
    subst hmA hnBo
    have hlengths : lengthHash "A" ≠ lengthHash "Bo" := by decide
    exact absurd (hm.trans hn.symm) hlengths
  all_goals cases hmem

/-- A function that gives all names one number. -/
def constantHash : NameHash := fun _ => 7

/-- Where all names have one number, two registries of one type each merge in silence: the result
has both names, and their number stands for the one that came in. -/
theorem not_detectsClashes_constantHash :
    Merged constantHash [lone constantHash "A"] (lone constantHash "A") ∧
      Merged constantHash [lone constantHash "B"] (lone constantHash "B") ∧
      NameClash (lone constantHash "A") (lone constantHash "B") .type ⟨"A", "B", 7⟩ ∧
      (lone constantHash "A").merge (lone constantHash "B") true =
        ((lone constantHash "A").union (lone constantHash "B"), none) ∧
      ((lone constantHash "A").union (lone constantHash "B")).types.keys = ["A", "B"] ∧
      ((lone constantHash "A").union (lone constantHash "B")).typeHolders.find? 7 = some "B" ∧
      ¬((lone constantHash "A").union (lone constantHash "B")).NumbersApart ∧
      ¬DetectsClashes (lone constantHash "A") (lone constantHash "B")
        ((lone constantHash "A").merge (lone constantHash "B") true) := by
  have hclash : NameClash (lone constantHash "A") (lone constantHash "B") .type ⟨"A", "B", 7⟩ :=
    ⟨by decide, rfl, rfl, List.mem_singleton_self _, List.mem_singleton_self _⟩
  refine ⟨merged_lone _ _, merged_lone _ _, hclash, rfl, rfl, rfl,
    fun hapart => hclash.ne (hapart .type "A" (by decide) "B" (by decide) rfl), fun h => ?_⟩
  obtain ⟨s, kind, c, -, hreport⟩ := h.reports _ _ hclash
  cases hreport

end Registry
end Introspect
