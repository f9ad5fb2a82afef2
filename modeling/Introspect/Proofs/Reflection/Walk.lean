import Introspect.Proofs.Relation
import Introspect.Reflection.Basic

/-! What is known of a walk from its parts, whenever it does not fail. -/
namespace Introspect.Reflection

/-- Started from `p`, the walk fails or its result and the progress after it satisfy `Q`. -/
def Yields {α : Type} (m : Walk α) (p : Progress) (Q : α → Progress → Prop) : Prop :=
  ∀ a p', m.run p = .ok a p' → Q a p'

section rules
variable {α β : Type} {p : Progress}

theorem Yields.mono {m : Walk α} {Q R : α → Progress → Prop} (hm : Yields m p Q)
    (h : ∀ a p', Q a p' → R a p') : Yields m p R :=
  fun a p' hrun => h a p' (hm a p' hrun)

theorem Yields.and {m : Walk α} {Q R : α → Progress → Prop} (hm : Yields m p Q)
    (hm' : Yields m p R) : Yields m p fun a q => Q a q ∧ R a q :=
  fun a p' hrun => ⟨hm a p' hrun, hm' a p' hrun⟩

theorem yields_pure {a : α} {Q : α → Progress → Prop} (h : Q a p) : Yields (pure a) p Q := by
  intro b p' hrun
  cases hrun
  exact h

theorem yields_throw {e : Failure} {Q : α → Progress → Prop} : Yields (throw e) p Q := by
  intro b p' hrun
  cases hrun

theorem yields_bind {m : Walk α} {f : α → Walk β} {R : α → Progress → Prop}
    {Q : β → Progress → Prop} (hm : Yields m p R) (hf : ∀ a p', R a p' → Yields (f a) p' Q) :
    Yields (m >>= f) p Q := by
  intro b p' hrun
  rw [EStateM.run_bind] at hrun
  cases ha : m.run p with
  | error e q =>
    rw [ha] at hrun
    cases hrun
  | ok a q =>
    rw [ha] at hrun
    exact hf a q (hm a q ha) b p' hrun

/-- What holds after the rest wherever it starts from, holds after the whole. -/
theorem yields_bind_any {m : Walk α} {f : α → Walk β} {Q : β → Progress → Prop}
    (hf : ∀ a p', Yields (f a) p' Q) : Yields (m >>= f) p Q :=
  yields_bind (R := fun _ _ => True) (fun _ _ _ => trivial) fun a p' _ => hf a p'

/-- A choice of the first part of a chain. -/
theorem yields_bind_ite {b : Prop} [Decidable b] {m m' : Walk α} {f : α → Walk β}
    {R : α → Progress → Prop} {Q : β → Progress → Prop} (hm : Yields (if b then m else m') p R)
    (hf : ∀ a p', R a p' → Yields (f a) p' Q) : Yields (if b then m >>= f else m' >>= f) p Q := by
  split at hm
  · next hb =>
    rw [if_pos hb]
    exact yields_bind hm hf
  · next hb =>
    rw [if_neg hb]
    exact yields_bind hm hf

theorem yields_get {Q : Progress → Progress → Prop} (h : Q p p) : Yields get p Q := by
  intro b p' hrun
  cases hrun
  exact h

theorem yields_modify {f : Progress → Progress} {Q : PUnit → Progress → Prop} (h : Q ⟨⟩ (f p)) :
    Yields (modify f) p Q := by
  intro b p' hrun
  cases hrun
  exact h

theorem yields_report {e : Event} {Q : Unit → Progress → Prop}
    (h : Q () { p with events := p.events ++ [e] }) : Yields (Walk.report e) p Q :=
  yields_modify h

theorem yields_registry {Q : Registry → Progress → Prop} (h : Q p.registry p) :
    Yields Walk.registry p Q := by
  intro b p' hrun
  cases hrun
  exact h

theorem yields_update {f : Registry → Except Failure Registry} {Q : Unit → Progress → Prop}
    (h : ∀ r, f p.registry = .ok r → Q () { p with registry := r }) :
    Yields (Walk.update f) p Q := by
  intro b p' hrun
  simp only [Walk.update, EStateM.run_bind, EStateM.run_get] at hrun
  cases hf : f p.registry with
  | error e =>
    rw [hf] at hrun
    cases hrun
  | ok r =>
    rw [hf] at hrun
    cases hrun
    exact h r hf

/-- Results that are related to the items they came from stay so, if the relation is kept by
whatever the later steps do. -/
theorem yields_mapM {S : Progress → Progress → Prop} (hrefl : ∀ p, S p p)
    (htrans : ∀ {p q r}, S p q → S q r → S p r) {R : Progress → α → β → Prop}
    (hstable : ∀ {p q a b}, S p q → R p a b → R q a b) {f : α → Walk β} {l : List α}
    (hf : ∀ a ∈ l, ∀ q, S p q → Yields (f a) q fun b q' => S q q' ∧ R q' a b) :
    Yields (l.mapM f) p fun bs q => S p q ∧ List.Forall₂ (R q) l bs := by
  induction l generalizing p with
  | nil =>
    rw [List.mapM_nil]
    exact yields_pure ⟨hrefl p, .nil⟩
  | cons a l ih =>
    rw [List.mapM_cons]
    refine yields_bind (hf a (by simp) p (hrefl p)) ?_
    rintro b q ⟨hpq, hb⟩
    have hrest := ih fun a ha q' hq' => hf a (by simp [ha]) q' (htrans hpq hq')
    refine yields_bind hrest ?_
    rintro bs r ⟨hqr, hbs⟩
    exact yields_pure ⟨htrans hpq hqr, .cons (hstable hqr hb) hbs⟩

/-- What holds of the items done so far and of what was made of them holds of all in the end. -/
theorem yields_foldlM {I : List α → β → Progress → Prop} {f : β → α → Walk β} {l : List α}
    (hf : ∀ done, ∀ a ∈ l, ∀ b q, I done b q → Yields (f b a) q (I (done ++ [a]))) {b : β}
    (hb : I [] b p) : Yields (l.foldlM f b) p (I l) := by
  have hgen : ∀ todo done b p, (∀ a ∈ todo, a ∈ l) → I done b p →
      Yields (todo.foldlM f b) p (I (done ++ todo)) := by
    intro todo
    induction todo with
    | nil =>
      intro done b p _ hb
      rw [List.foldlM_nil, List.append_nil]
      exact yields_pure hb
    | cons a todo ih =>
      intro done b p hmem hb
      rw [List.foldlM_cons]
      refine yields_bind (hf done a (hmem a (by simp)) b p hb) ?_
      intro b q hq
      have hrest := ih (done ++ [a]) b q (fun a ha => hmem a (by simp [ha])) hq
      rwa [List.append_assoc, List.singleton_append] at hrest
  exact hgen l [] b p (fun _ ha => ha) hb

/-- Items that come with others are done with those that belong to them. -/
theorem yields_foldlM_along {γ : Type} {R : γ → α → Prop} {I : List γ → β → Progress → Prop}
    {f : β → α → Walk β} {xs : List γ} {l : List α} (hl : List.Forall₂ R xs l)
    (hf : ∀ done x rest, xs = done ++ x :: rest → ∀ a, R x a → ∀ b q, I done b q →
      Yields (f b a) q (I (done ++ [x]))) {b : β} (hb : I [] b p) :
    Yields (l.foldlM f b) p (I xs) := by
  have hgen : ∀ todo l done b p, List.Forall₂ R todo l → xs = done ++ todo → I done b p →
      Yields (l.foldlM f b) p (I xs) := by
    intro todo l done b p h
    induction h generalizing done b p with
    | nil =>
      intro hxs hb
      rw [hxs, List.append_nil, List.foldlM_nil]
      exact yields_pure hb
    | @cons x a todo l hxa _ ih =>
      intro hxs hb
      rw [List.foldlM_cons]
      refine yields_bind (hf done x todo hxs a hxa b p hb) ?_
      intro b q hq
      exact ih (done ++ [x]) b q (by simp [hxs]) hq
  exact hgen xs l [] b p hl rfl hb

theorem yields_forM {I : Progress → Prop} {f : α → Walk PUnit} {l : List α}
    (hf : ∀ a ∈ l, ∀ q, I q → Yields (f a) q fun _ q' => I q') (hp : I p) :
    Yields (l.forM f) p fun _ q => I q := by
  induction l generalizing p with
  | nil => exact yields_pure hp
  | cons a l ih =>
    refine yields_bind (hf a (by simp) p hp) ?_
    intro _ q hq
    exact ih (fun a ha => hf a (by simp [ha])) hq

end rules
end Introspect.Reflection
