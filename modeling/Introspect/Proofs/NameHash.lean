import Introspect.NameHash

/-! The search for two names with one number finds the first such pair, and finds none only where
there is none. -/
namespace Introspect

namespace NameHash
variable (h : NameHash)

/-- No two different names of the list share a number. -/
def Separates (names : List String) : Prop :=
  ∀ a ∈ names, ∀ b ∈ names, h a = h b → a = b

variable {h}

theorem Separates.nil : h.Separates [] := by
  intro a ha
  simp at ha

theorem Separates.of_subset {l l' : List String} (hs : h.Separates l) (hl : l' ⊆ l) :
    h.Separates l' :=
  fun a ha b hb => hs a (hl ha) b (hl hb)

/-- A name joins compatible ones exactly when whoever has its number is the name itself. -/
theorem Separates.append_iff {l : List String} {n : String} :
    h.Separates (l ++ [n]) ↔ h.Separates l ∧ ∀ a ∈ l, h a = h n → a = n := by
  constructor
  · intro hs
    exact ⟨hs.of_subset (by simp), fun a ha => hs a (by simp [ha]) n (by simp)⟩
  · rintro ⟨hs, hn⟩ a ha b hb hab
    simp only [List.mem_append, List.mem_singleton] at ha hb
    rcases ha with ha | rfl
    · rcases hb with hb | rfl
      · exact hs a ha b hb hab
      · exact hn a ha hab
    · rcases hb with hb | rfl
      · exact (hn b hb hab.symm).symm
      · rfl

theorem holder?_eq_none_iff {seen : List String} {v : Int} :
    h.holder? seen v = none ↔ ∀ a ∈ seen, h a ≠ v := by
  simp [holder?]

theorem holder?_eq_some {seen : List String} {v : Int} {m : String}
    (hm : h.holder? seen v = some m) : m ∈ seen ∧ h m = v :=
  ⟨List.mem_of_find?_eq_some hm, by simpa using List.find?_some hm⟩

/-- What a search reports after the names `seen`: the names of `names` up to the second name are
compatible with all before them, and the first name is the earliest holder of the number. -/
structure Found (h : NameHash) (seen names : List String) (c : Collision) : Prop where
  ne : c.first ≠ c.second
  value : c.value = h c.second
  split : ∃ pre post, names = pre ++ c.second :: post ∧ h.Separates (seen ++ pre) ∧
    h.holder? (seen ++ pre) (h c.second) = some c.first

theorem Found.first_value {seen names : List String} {c : Collision} (hc : Found h seen names c) :
    h c.first = c.value := by
  obtain ⟨pre, post, -, -, hm⟩ := hc.split
  rw [(holder?_eq_some hm).2, hc.value]

/-- A name already seen changes nothing for the names after it. -/
private theorem Found.skip {seen names : List String} {n : String} {c : Collision}
    (hn : n ∈ seen) (hc : Found h seen names c) : Found h seen (n :: names) c := by
  obtain ⟨pre, post, rfl, hs, hm⟩ := hc.split
  refine ⟨hc.ne, hc.value, n :: pre, post, rfl, ?_, ?_⟩
  · apply hs.of_subset
    intro a ha
    simp only [List.mem_append, List.mem_cons] at ha ⊢
    rcases ha with ha | rfl | ha <;> simp_all
  · have hmem := (holder?_eq_some hm).1
    simp only [holder?, List.find?_append, List.find?_cons] at hm ⊢
    cases hf : seen.find? fun a => h a = h c.second with
    | some m => simpa [hf] using hm
    | none =>
      have hne : h n ≠ h c.second := by
        simp only [List.find?_eq_none, decide_eq_true_eq] at hf
        exact hf n hn
      simpa [hf, hne] using hm

private theorem Found.step {seen names : List String} {n : String} {c : Collision}
    (hc : Found h (seen ++ [n]) names c) : Found h seen (n :: names) c := by
  obtain ⟨pre, post, rfl, hs, hm⟩ := hc.split
  exact ⟨hc.ne, hc.value, n :: pre, post, rfl, by simpa using hs, by simpa using hm⟩

private theorem collisionAfter_spec (names : List String) {seen : List String}
    (hs : h.Separates seen) :
    match h.collisionAfter seen names with
    | none => h.Separates (seen ++ names)
    | some c => Found h seen names c := by
  induction names generalizing seen with
  | nil => simpa [collisionAfter] using hs
  | cons n r ih =>
    rw [collisionAfter]
    cases hm : h.holder? seen (h n) with
    | none =>
      have hn : h.Separates (seen ++ [n]) := by
        refine Separates.append_iff.2 ⟨hs, fun a ha hav => ?_⟩
        exact absurd hav (holder?_eq_none_iff.1 hm a ha)
      have := ih hn
      dsimp only
      split at this
      · simpa using this
      · exact this.step
    | some m =>
      obtain ⟨hmem, hval⟩ := holder?_eq_some hm
      by_cases hmn : m = n
      · subst hmn
        simp only [↓reduceIte]
        have := ih hs
        split at this
        · apply this.of_subset
          intro a ha
          simp only [List.mem_append, List.mem_cons] at ha ⊢
          rcases ha with ha | rfl | ha <;> simp_all
        · exact this.skip hmem
      · simp only [hmn, ↓reduceIte]
        exact ⟨hmn, rfl, [], r, rfl, by simpa using hs, by simpa using hm⟩

theorem collision?_eq_none_iff {names : List String} :
    h.collision? names = none ↔ h.Separates names := by
  have hspec := collisionAfter_spec names (Separates.nil (h := h))
  rw [← collision?] at hspec
  constructor
  · intro hn
    simpa [hn] using hspec
  · intro hs
    cases hc : h.collision? names with
    | none => rfl
    | some c =>
      rw [hc] at hspec
      obtain ⟨pre, post, rfl, -, hm⟩ := hspec.split
      obtain ⟨hmem, hval⟩ := holder?_eq_some hm
      exact absurd (hs c.first (by simp_all) c.second (by simp) hval) hspec.ne

/-- A search that reports a pair reports the first: all names before the second one are compatible,
and its first name is the earliest one with the number. -/
theorem found_of_collision? {names : List String} {c : Collision}
    (hc : h.collision? names = some c) : Found h [] names c := by
  have hspec := collisionAfter_spec names (Separates.nil (h := h))
  rw [← collision?, hc] at hspec
  exact hspec

/-! ## Positions -/

/-- The name at this position has an earlier one with its number that is another name. -/
def ClashesAt (h : NameHash) (names : List String) (i : Nat) : Prop :=
  ∃ n, names[i]? = some n ∧ ∃ j < i, ∃ m, names[j]? = some m ∧ m ≠ n ∧ h m = h n

/-- The pair whose second name stands at the first position that clashes, and whose first name is
the first of all with that number. -/
structure FirstPair (h : NameHash) (names : List String) (c : Collision) : Prop where
  value : c.value = h c.second
  second : ∃ i : Nat, names[i]? = some c.second ∧ h.ClashesAt names i ∧
    ∀ k < i, ¬ h.ClashesAt names k
  first : ∃ j : Nat, names[j]? = some c.first ∧ h c.first = c.value ∧
    ∀ k < j, ∀ n, names[k]? = some n → h n ≠ c.value

theorem Separates.not_clashesAt {l rest : List String} (hs : h.Separates l) {k : Nat}
    (hk : k < l.length) : ¬ h.ClashesAt (l ++ rest) k := by
  rintro ⟨n, hn, j, hj, m, hm, hne, hval⟩
  rw [List.getElem?_append_left hk] at hn
  rw [List.getElem?_append_left (Nat.lt_trans hj hk)] at hm
  exact hne (hs m (List.mem_of_getElem? hm) n (List.mem_of_getElem? hn) hval)

theorem Found.firstPair {names : List String} {c : Collision} (hc : Found h [] names c) :
    FirstPair h names c := by
  obtain ⟨pre, post, rfl, hs, hm⟩ := hc.split
  rw [List.nil_append] at hs hm
  obtain ⟨hval, j, hj, hfirst, hearlier⟩ := List.find?_eq_some_iff_getElem.1 hm
  have hvalue : h c.first = h c.second := of_decide_eq_true hval
  have hat : (pre ++ c.second :: post)[j]? = some c.first := by
    rw [List.getElem?_append_left hj, List.getElem?_eq_getElem hj, hfirst]
  refine ⟨hc.value, ⟨pre.length, by simp, ?_, fun k hk => hs.not_clashesAt hk⟩, j, hat,
    hvalue.trans hc.value.symm, fun k hk n hn => ?_⟩
  · exact ⟨c.second, by simp, j, hj, c.first, hat, hc.ne, hvalue⟩
  · have hin := Nat.lt_trans hk hj
    rw [List.getElem?_append_left hin, List.getElem?_eq_getElem hin, Option.some.injEq] at hn
    have hother := hearlier k hk
    rw [hn] at hother
    simpa [hc.value] using hother

theorem FirstPair.unique {names : List String} {c d : Collision} (hc : FirstPair h names c)
    (hd : FirstPair h names d) : c = d := by
  obtain ⟨i, hi, hclash, hleast⟩ := hc.second
  obtain ⟨i', hi', hclash', hleast'⟩ := hd.second
  obtain rfl : i = i' := Nat.le_antisymm (Nat.not_lt.1 fun hlt => hleast i' hlt hclash')
    (Nat.not_lt.1 fun hlt => hleast' i hlt hclash)
  have hsecond : c.second = d.second := Option.some.inj (hi.symm.trans hi')
  have hvalue : c.value = d.value := by rw [hc.value, hd.value, hsecond]
  obtain ⟨j, hj, hval, hleast⟩ := hc.first
  obtain ⟨j', hj', hval', hleast'⟩ := hd.first
  obtain rfl : j = j' := Nat.le_antisymm
    (Nat.not_lt.1 fun hlt => hleast j' hlt _ hj' (hval'.trans hvalue.symm))
    (Nat.not_lt.1 fun hlt => hleast' j hlt _ hj (hval.trans hvalue))
  have hfirst : c.first = d.first := Option.some.inj (hj.symm.trans hj')
  cases c
  cases d
  simp_all

theorem FirstPair.not_separates {names : List String} {c : Collision} (hc : FirstPair h names c) :
    ¬ h.Separates names := by
  obtain ⟨i, -, ⟨n, hn, j, -, m, hm, hne, hval⟩, -⟩ := hc.second
  exact fun hs => hne (hs m (List.mem_of_getElem? hm) n (List.mem_of_getElem? hn) hval)

/-- The search misses no pair, and the one that it reports is the first. -/
theorem collision?_firstPair (h : NameHash) (names : List String) :
    (h.collision? names = none ↔ ∀ a ∈ names, ∀ b ∈ names, a ≠ b → h a ≠ h b) ∧
    ∀ c, h.collision? names = some c ↔ FirstPair h names c := by
  refine ⟨?_, fun c => ⟨fun hc => (found_of_collision? hc).firstPair, fun hc => ?_⟩⟩
  · rw [collision?_eq_none_iff]
    constructor
    · intro hs a ha b hb hne hval
      exact hne (hs a ha b hb hval)
    · intro hs a ha b hb hval
      exact Decidable.byContradiction fun hne => hs a ha b hb hne hval
  · cases hsearch : h.collision? names with
    | none => exact absurd (collision?_eq_none_iff.1 hsearch) hc.not_separates
    | some d => rw [(found_of_collision? hsearch).firstPair.unique hc]

/-- With one number for all names, the first name that differs from the first of all is reported. -/
example : NameHash.collision? (fun _ => 7) ["a", "a", "b", "c"] = some ⟨"a", "b", 7⟩ := by decide

end NameHash
end Introspect
