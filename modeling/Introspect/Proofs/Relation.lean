import Mathlib.Data.Finset.Card
import Mathlib.Data.List.Forall2
import Mathlib.Logic.Relation

/-! Relations between the items of two lists, and from step to step of a recursion. -/
namespace Introspect
open Relation

/-! ## Lists whose items are related one by one -/

section lists
variable {α β γ : Type} {R : α → β → Prop} {l : List α} {l' : List β}

/-- Each item on the right has one on the left that is related to it. -/
theorem exists_of_forall₂ (h : List.Forall₂ R l l') {b : β} (hb : b ∈ l') : ∃ a ∈ l, R a b := by
  induction h with
  | nil => cases hb
  | @cons a b' l l' hab _ ih =>
    obtain rfl | hb := List.mem_cons.1 hb
    · exact ⟨a, List.mem_cons_self .., hab⟩
    · obtain ⟨a', ha', hR⟩ := ih hb
      exact ⟨a', List.mem_cons_of_mem _ ha', hR⟩

theorem forall₂_mem_right (h : List.Forall₂ R l l') :
    List.Forall₂ (fun a b => b ∈ l' ∧ R a b) l l' :=
  ((List.forall₂_and_left l' l).2 ⟨fun _ hb => hb, h.flip⟩).flip

theorem map_eq_map_iff_forall₂ {f : α → γ} {g : β → γ} :
    l.map f = l'.map g ↔ List.Forall₂ (fun a b => f a = g b) l l' := by
  rw [← List.forall₂_eq_eq_eq, List.forall₂_map_left_iff, List.forall₂_map_right_iff]

theorem map_of_forall₂ {g : α → β} (h : List.Forall₂ (fun a b => g a = b) l l') :
    l.map g = l' := by
  rwa [← List.forall₂_eq_eq_eq, List.forall₂_map_left_iff]

theorem filterMap_of_forall₂ {g : α → Option β}
    (h : List.Forall₂ (fun a b => g a = some b) l l') : l.filterMap g = l' := by
  induction h with
  | nil => rfl
  | cons hab _ ih => rw [List.filterMap_cons_some hab, ih]

end lists

/-! ## Recursion along a relation without cycles -/

/-- What holds at a depth where it holds of all that comes next at the depth before, holds at every
depth beyond the number of things that something comes after, if nothing comes after itself. -/
theorem depth_induction {α : Type} {R : α → α → Prop} {S : Finset α} (hS : ∀ a b, R a b → a ∈ S)
    {P : Nat → α → Prop} (hstep : ∀ n a, (∀ b, R a b → P n b) → P (n + 1) a) {a : α}
    (ha : ∀ b, ReflTransGen R a b → ¬ TransGen R b b) {n : Nat} (hn : S.card < n) : P n a := by
  classical
  -- what is still to come gets less with every step
  have hless : ∀ n a, (∀ b, ReflTransGen R a b → ¬ TransGen R b b) →
      (S.filter fun b => ReflTransGen R a b).card < n → P n a := by
    intro n
    induction n with
    | zero => exact fun a _ h => absurd h (Nat.not_lt_zero _)
    | succ n ih =>
      intro a ha hcard
      refine hstep n a fun b hab => ih b (fun d hd => ha d (.head hab hd)) ?_
      refine Nat.lt_of_lt_of_le (Finset.card_lt_card ?_) (Nat.le_of_lt_succ hcard)
      refine Finset.ssubset_iff_subset_ne.2 ⟨?_, fun heq => ?_⟩
      · intro d hd
        obtain ⟨hdS, hbd⟩ := Finset.mem_filter.1 hd
        exact Finset.mem_filter.2 ⟨hdS, .head hab hbd⟩
      · have hmem : a ∈ S.filter fun d => ReflTransGen R b d :=
          heq ▸ Finset.mem_filter.2 ⟨hS a b hab, .refl⟩
        exact ha a .refl (.head' hab (Finset.mem_filter.1 hmem).2)
  exact hless n a ha (Nat.lt_of_le_of_lt (Finset.card_filter_le ..) hn)

end Introspect
