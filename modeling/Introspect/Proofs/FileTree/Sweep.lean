import Mathlib.Data.List.MinMax
import Introspect.Proofs.FileTree.WellFormed

/-! What is left of a file tree from which empty files and empty directories were removed. -/
namespace Introspect

namespace FileTree
variable {t t' : FileTree} {place output p q : List String} {places : List (List String)}
  {s pattern : String}

/-- Only the places in use have to be looked at. -/
theorem WellFormed.of_keys (htop : t.find? [] = some .directory)
    (hkeys : ∀ k ∈ t.nodes.keys, (k ≠ [] → t.find? k.dropLast = some .directory) ∧
      ∀ s ∈ k, (Path.IsName s ∧ '\x00' ∉ s.toList) ∧ s.utf8ByteSize ≤ nameLimit) :
    t.WellFormed := by
  refine ⟨htop, fun p name hname => ?_, fun p hp s hs => ?_, fun p hp s hs => ?_⟩
  · simpa using (hkeys _ (Table.mem_keys_iff.2 hname)).1
  · exact ((hkeys p (Table.mem_keys_iff.2 hp)).2 s hs).1
  · exact ((hkeys p (Table.mem_keys_iff.2 hp)).2 s hs).2

/-- The place lies strictly below another one. -/
def Below (output place : List String) : Prop := output <+: place ∧ output ≠ place

theorem Below.trans {r : List String} (h : Below p q) (h' : Below q r) : Below p r := by
  refine ⟨h.1.trans h'.1, ?_⟩
  rintro rfl
  exact h.2 (h.1.eq_of_length_le h'.1.length_le)

theorem Below.length_lt (h : Below p q) : p.length < q.length := by
  rcases Nat.lt_or_ge p.length q.length with hlt | hge
  · exact hlt
  · exact absurd (h.1.eq_of_length_le hge) h.2

/-- Nothing lies below a place. -/
def Bare (t : FileTree) (place : List String) : Prop := ∀ q, Below place q → t.find? q = none

theorem mem_below_iff : q ∈ t.below place ↔
    t.find? place = some .directory ∧ Below place q ∧ t.find? q ≠ none := by
  have hbelow : (place.isPrefixOf q && decide (place.length < q.length)) = true ↔
      Below place q := by
    rw [Bool.and_eq_true, List.isPrefixOf_iff_prefix, decide_eq_true_eq]
    constructor
    · rintro ⟨habove, hlt⟩
      exact ⟨habove, fun he => Nat.lt_irrefl _ (he ▸ hlt)⟩
    · exact fun h => ⟨h.1, h.length_lt⟩
  unfold below
  split
  · next hd =>
    rw [List.mem_filter, Table.mem_keys_iff, hbelow, isDirectory_iff.1 hd]
    exact ⟨fun h => ⟨rfl, h.2, h.1⟩, fun h => ⟨h.2.2, h.2.1⟩⟩
  · next hd =>
    constructor
    · nofun
    · exact fun h => absurd (isDirectory_iff.2 h.1) hd

theorem mem_search_iff : q ∈ t.search place pattern ↔
    t.find? place = some .directory ∧ Below place q ∧ t.find? q ≠ none ∧
      Text.fits pattern (q.getLast?.getD "") = true := by
  rw [search, List.mem_filter, mem_below_iff, and_assoc, and_assoc]

/-! ## Empty files -/

theorem find?_removeEmptyFiles (t : FileTree) (places : List (List String)) (q : List String) :
    (t.removeEmptyFiles places).find? q =
      if q ∈ places ∧ t.find? q = some (.file "") then none else t.find? q := by
  induction places generalizing t with
  | nil => simp [removeEmptyFiles]
  | cons place places ih =>
    have hrest : (t.removeEmptyFiles (place :: places)).find? q =
        ((if t.text? place == some "" then t.cut place else t).removeEmptyFiles places).find? q :=
      rfl
    rw [hrest, ih]
    by_cases hempty : t.find? place = some (.file "")
    · have htext : (t.text? place == some "") = true := by
        simpa using text?_eq_some_iff.2 hempty
      rw [if_pos htext, find?_cut]
      by_cases hq : place = q
      · subst hq
        simp [hempty]
      · simp [hq, Ne.symm hq]
    · have htext : ¬ (t.text? place == some "") = true := by
        simpa using mt text?_eq_some_iff.1 hempty
      rw [if_neg htext]
      by_cases hq : q = place
      · subst hq
        simp [hempty]
      · simp [hq]

theorem WellFormed.removeEmptyFiles (ht : t.WellFormed) (places : List (List String)) :
    (t.removeEmptyFiles places).WellFormed := by
  induction places generalizing t with
  | nil => exact ht
  | cons place places ih =>
    have hrest : t.removeEmptyFiles (place :: places) =
        (if t.text? place == some "" then t.cut place else t).removeEmptyFiles places := rfl
    rw [hrest]
    apply ih
    split
    · next h =>
      have hfile : t.find? place = some (.file "") := text?_eq_some_iff.1 (by simpa using h)
      have hfree : t.find? place ≠ some .directory := by simp [hfile]
      refine ht.cut ?_ fun name => ht.below hfree (List.prefix_append _ _) (by simp)
      rintro rfl
      exact hfree ht.top
    · exact ht

/-! ## Empty directories -/

private theorem removeIfEmpty_cases (t : FileTree) (place : List String) :
    t.removeIfEmpty place = t.cut place ∧ t.find? place = some .directory ∧ t.Bare place ∨
      t.removeIfEmpty place = t ∧ (t.find? place = some .directory → ¬ t.Bare place) := by
  unfold removeIfEmpty
  split
  · next h =>
    rw [Bool.and_eq_true, isDirectory_iff, List.isEmpty_iff] at h
    refine .inl ⟨rfl, h.1, fun q hq => ?_⟩
    by_contra hfound
    have hmem := mem_below_iff.2 ⟨h.1, hq, hfound⟩
    rw [h.2] at hmem
    cases hmem
  · next h =>
    refine .inr ⟨rfl, fun hd hbare => h ?_⟩
    rw [Bool.and_eq_true, isDirectory_iff, List.isEmpty_iff]
    refine ⟨hd, List.eq_nil_iff_forall_not_mem.2 fun q hq => ?_⟩
    obtain ⟨-, hbelow, hfound⟩ := mem_below_iff.1 hq
    exact hfound (hbare q hbelow)

private theorem bare_removeIfEmpty (h : t.Bare p) (place : List String) :
    (t.removeIfEmpty place).Bare p := by
  rcases removeIfEmpty_cases t place with ⟨he, -, -⟩ | ⟨he, -⟩ <;> rw [he]
  · intro q hq
    rw [find?_cut, h q hq, ite_self]
  · exact h

private theorem bare_foldl_removeIfEmpty (h : t.Bare p) (places : List (List String)) :
    (places.foldl removeIfEmpty t).Bare p := by
  induction places generalizing t with
  | nil => exact h
  | cons place places ih => exact ih (bare_removeIfEmpty h place)

/-- A place stays as it is, or was one of the directories and is gone with everything below it. -/
private theorem find?_foldl_removeIfEmpty (t : FileTree) (places : List (List String))
    (q : List String) :
    (places.foldl removeIfEmpty t).find? q = t.find? q ∨
      q ∈ places ∧ t.find? q = some .directory ∧
        (places.foldl removeIfEmpty t).find? q = none ∧ (places.foldl removeIfEmpty t).Bare q := by
  induction places generalizing t with
  | nil => exact .inl rfl
  | cons place places ih =>
    rw [List.foldl_cons]
    have hrest := ih (t.removeIfEmpty place)
    rcases removeIfEmpty_cases t place with ⟨he, hd, hbare⟩ | ⟨he, -⟩
    · by_cases hq : place = q
      · subst hq
        have hnone : (t.removeIfEmpty place).find? place = none := by
          rw [he, find?_cut, if_pos rfl]
        rw [hnone] at hrest
        rcases hrest with hrest | ⟨-, hd', -⟩
        · exact .inr ⟨List.mem_cons_self .., hd, hrest,
            bare_foldl_removeIfEmpty (bare_removeIfEmpty hbare place) places⟩
        · cases hd'
      · have hsame : (t.removeIfEmpty place).find? q = t.find? q := by
          rw [he, find?_cut, if_neg hq]
        rw [hsame] at hrest
        exact hrest.imp_right fun h => ⟨List.mem_cons_of_mem _ h.1, h.2⟩
    · rw [he] at hrest ⊢
      exact hrest.imp_right fun h => ⟨List.mem_cons_of_mem _ h.1, h.2⟩

/-- When the deeper places come first, no directory among them is left with nothing in it: what
kept it when its turn came lies deeper than all that come later. -/
private theorem not_bare_foldl_removeIfEmpty {places : List (List String)}
    (hsorted : places.Pairwise fun a b => b.length ≤ a.length) (hq : q ∈ places)
    (hd : (places.foldl removeIfEmpty t).find? q = some .directory) :
    ¬ (places.foldl removeIfEmpty t).Bare q := by
  induction places generalizing t with
  | nil => cases hq
  | cons place places ih =>
    obtain ⟨hfirst, hsorted⟩ := List.pairwise_cons.1 hsorted
    rw [List.foldl_cons] at hd ⊢
    by_cases hmem : q ∈ places
    · exact ih hsorted hmem hd
    · obtain rfl : q = place := (List.mem_cons.1 hq).resolve_right hmem
      have hkept : (t.removeIfEmpty q).find? q = some .directory := by
        rcases find?_foldl_removeIfEmpty (t.removeIfEmpty q) places q with hsame | ⟨-, -, hnone, -⟩
        · rw [← hsame, hd]
        · rw [hnone] at hd
          cases hd
      have hfull : ¬ (t.removeIfEmpty q).Bare q := by
        rcases removeIfEmpty_cases t q with ⟨he, -, -⟩ | ⟨he, hfull⟩ <;> rw [he] at hkept ⊢
        · rw [find?_cut, if_pos rfl] at hkept
          cases hkept
        · exact hfull hkept
      obtain ⟨p, hp, hfound⟩ : ∃ p, Below q p ∧ (t.removeIfEmpty q).find? p ≠ none := by
        simpa [Bare] using hfull
      intro hbare
      rcases find?_foldl_removeIfEmpty (t.removeIfEmpty q) places p with hsame | ⟨hlater, -⟩
      · exact hfound (hsame ▸ hbare p hp)
      · exact absurd hp.length_lt (Nat.not_lt.2 (hfirst p hlater))

private theorem mem_sorted_iff : q ∈ ((t.below output).filter t.isDirectory).mergeSort
      (fun a b => decide (b.length ≤ a.length)) ↔
    t.find? output = some .directory ∧ Below output q ∧ t.find? q = some .directory := by
  rw [List.mem_mergeSort, List.mem_filter, mem_below_iff, isDirectory_iff]
  constructor
  · rintro ⟨⟨ho, hb, -⟩, hd⟩
    exact ⟨ho, hb, hd⟩
  · rintro ⟨ho, hb, hd⟩
    exact ⟨⟨ho, hb, by simp [hd]⟩, hd⟩

/-- Only directories below the given one go, with everything below them. -/
theorem find?_removeEmptyDirectories (t : FileTree) (output q : List String) :
    (t.removeEmptyDirectories output).find? q = t.find? q ∨
      Below output q ∧ t.find? q = some .directory ∧
        (t.removeEmptyDirectories output).find? q = none ∧
        (t.removeEmptyDirectories output).Bare q := by
  rcases find?_foldl_removeIfEmpty t _ q with hsame | ⟨hmem, hd, hnone, hbare⟩
  · exact .inl hsame
  · exact .inr ⟨(mem_sorted_iff.1 hmem).2.1, hd, hnone, hbare⟩

/-- No directory is left below the given one with nothing in it. -/
theorem not_bare_removeEmptyDirectories (houtput : t.find? output = some .directory)
    (hq : Below output q) (hd : (t.removeEmptyDirectories output).find? q = some .directory) :
    ¬ (t.removeEmptyDirectories output).Bare q := by
  have hbefore : t.find? q = some .directory := by
    rcases find?_removeEmptyDirectories t output q with hsame | ⟨-, -, hnone, -⟩
    · rw [← hsame, hd]
    · rw [hnone] at hd
      cases hd
  apply not_bare_foldl_removeIfEmpty (t := t) _ (mem_sorted_iff.2 ⟨houtput, hq, hbefore⟩) hd
  have htrans : ∀ a b c : List String, decide (b.length ≤ a.length) = true →
      decide (c.length ≤ b.length) = true → decide (c.length ≤ a.length) = true := by
    simp only [decide_eq_true_eq]
    omega
  have htotal : ∀ a b : List String,
      (decide (b.length ≤ a.length) || decide (a.length ≤ b.length)) = true := by
    simp only [Bool.or_eq_true, decide_eq_true_eq]
    omega
  have hsorted := List.pairwise_mergeSort htrans htotal ((t.below output).filter t.isDirectory)
  exact hsorted.imp of_decide_eq_true

/-- Below a directory there is a file, if no directory has nothing in it: what is deepest is no
directory. -/
theorem exists_file_below (hfull : ∀ p, Below output p → t.find? p = some .directory → ¬ t.Bare p)
    (hq : Below output q) (hd : t.find? q = some .directory) :
    ∃ p text, Below q p ∧ t.find? p = some (.file text) := by
  have hbound : ∀ k, t.find? k ≠ none → k.length ≤ (t.nodes.keys.map List.length).foldr max 0 :=
    fun k hk => List.le_max_of_le' 0 (List.mem_map_of_mem (Table.mem_keys_iff.2 hk)) le_rfl
  generalize hn : (t.nodes.keys.map List.length).foldr max 0 - q.length = n
  induction n using Nat.strongRecOn generalizing q with
  | ind n ih =>
    obtain ⟨p, hp, hfound⟩ : ∃ p, Below q p ∧ t.find? p ≠ none := by
      simpa [Bare] using hfull q hq hd
    cases hnode : t.find? p with
    | none => exact absurd hnode hfound
    | some node =>
      cases node with
      | file text => exact ⟨p, text, hp, hnode⟩
      | directory =>
        have hlt := hp.length_lt
        have hle := hbound p hfound
        obtain ⟨p', text, hp', hfile⟩ := ih _ (by omega) (hq.trans hp) hnode rfl
        exact ⟨p', text, hp.trans hp', hfile⟩

theorem WellFormed.removeEmptyDirectories (ht : t.WellFormed) (output : List String) :
    (t.removeEmptyDirectories output).WellFormed := by
  suffices h : ∀ (places : List (List String)) (t : FileTree), t.WellFormed →
      (∀ p ∈ places, p ≠ []) → (places.foldl removeIfEmpty t).WellFormed by
    refine h _ t ht fun p hp => ?_
    obtain ⟨-, hbelow, -⟩ := mem_sorted_iff.1 hp
    rintro rfl
    have hlt := hbelow.length_lt
    simp at hlt
  intro places
  induction places with
  | nil => exact fun t ht _ => ht
  | cons place places ih =>
    intro t ht hplaces
    refine ih _ ?_ fun p hp => hplaces p (List.mem_cons_of_mem _ hp)
    rcases removeIfEmpty_cases t place with ⟨he, -, hbare⟩ | ⟨he, -⟩ <;> rw [he]
    · exact ht.cut (hplaces place (List.mem_cons_self ..)) fun name =>
        hbare _ ⟨List.prefix_append _ _, by simp⟩
    · exact ht

end FileTree
end Introspect
