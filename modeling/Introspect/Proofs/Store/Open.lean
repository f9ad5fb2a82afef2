import Introspect.Proofs.Workspace
import Introspect.Store.Basic

/-! Opening files with patience, and reading the registries in them. -/
namespace Introspect.Store
open Job

variable {path : Path} {patience : Patience} {w v : Workspace} {hash : NameHash} {r : Registry}

theorem tryFrom_ok {α : Type} {path : Path} {patience : Patience}
    {outcome : Except SystemFault α} {a : α} {opens left : Nat} {last : Option SystemFault}
    (h : (tryFrom path patience (fun _ => outcome) opens last left).result = .ok a) :
    outcome = .ok a := by
  induction left generalizing opens last with
  | zero => cases h
  | succ left ih =>
    unfold tryFrom at h
    cases outcome with
    | ok b =>
      cases h
      rfl
    | error fault =>
      dsimp only at h
      split at h
      · cases h
      · split at h
        · exact ih h
        · exact ih h

/-- What opens at the first try is there without waiting. -/
theorem run_opened {α : Type} (hp : 0 < patience.attempts) (hnull : path.hasNull = false) (a : α) :
    (opened path patience (.ok a)).run w = .ok a w := by
  have hknown : (Job.requireKnown path).run w = .ok () w :=
    run_requireKnown_ok_iff.2 ⟨hnull, rfl⟩
  have htrial : tryOpen path patience (fun _ => Except.ok (ε := SystemFault) a) =
      ⟨1, [], .ok a⟩ := by
    obtain ⟨k, hk⟩ : ∃ k, patience.attempts.toNat = k + 1 :=
      ⟨patience.attempts.toNat - 1, by omega⟩
    rw [tryOpen, hk]
    rfl
  rw [opened, if_pos hp, run_bind_of_ok hknown, htrial,
    run_bind_of_ok (run_report []), List.append_nil]
  rfl

/-- With the same outcome at every try, what opens is what the first try leads to. -/
theorem run_opened_ok_iff {α : Type} {outcome : Except SystemFault α} {a : α} :
    (opened path patience outcome).run w = .ok a v ↔
      0 < patience.attempts ∧ path.hasNull = false ∧ outcome = .ok a ∧ v = w := by
  constructor
  · intro h
    unfold opened at h
    by_cases hattempts : 0 < patience.attempts
    · rw [if_pos hattempts] at h
      obtain ⟨_, w₁, hknown, hrest⟩ := run_bind_ok_iff.1 h
      obtain ⟨hnull, rfl⟩ := run_requireKnown_ok_iff.1 hknown
      obtain rfl : outcome = .ok a := by
        rw [run_bind_of_ok (run_report _), run_ofExcept_ok_iff] at hrest
        exact tryFrom_ok hrest.1
      have hopened := run_opened (w := w₁) hattempts hnull a
      unfold opened at hopened
      rw [if_pos hattempts] at hopened
      cases h.symm.trans hopened
      exact ⟨hattempts, hnull, rfl, rfl⟩
    · rw [if_neg hattempts, run_bind_of_ok (run_report _), run_ofExcept_ok_iff] at h
      have hnone : patience.attempts.toNat = 0 := by omega
      have hresult := h.1
      rw [tryOpen, hnone] at hresult
      cases hresult
  · rintro ⟨hattempts, hnull, rfl, rfl⟩
    exact run_opened hattempts hnull a

theorem run_readText_ok_iff {lines : String} : (readText path patience).run w = .ok lines v ↔
    0 < patience.attempts ∧ path.hasNull = false ∧ v = w ∧ ∃ text,
      w.tree.read w.site.cwd path = .ok text ∧
        lines = String.ofList (Text.unifyNewlines text.toList) := by
  rw [readText, run_bind_of_ok run_get]
  constructor
  · intro h
    obtain ⟨text, w₁, hopened, hpure⟩ := run_bind_ok_iff.1 h
    obtain ⟨hattempts, hnull, hread, rfl⟩ := run_opened_ok_iff.1 hopened
    cases hpure
    exact ⟨hattempts, hnull, rfl, text, hread, rfl⟩
  · rintro ⟨hattempts, hnull, rfl, text, hread, rfl⟩
    rw [hread, run_bind_of_ok (run_opened hattempts hnull text)]
    rfl

/-- A registry is read from a file that holds its text, and nothing else happens. -/
theorem run_read_ok_iff : (read path hash patience).run w = .ok r v ↔
    0 < patience.attempts ∧ path.hasNull = false ∧ v = w ∧ ∃ text,
      w.tree.read w.site.cwd path = .ok text ∧
        Document.ofText hash (String.ofList (Text.unifyNewlines text.toList)) = .ok r := by
  constructor
  · intro h
    obtain ⟨lines, w₁, htext, hrest⟩ := run_bind_ok_iff.1 h
    obtain ⟨hattempts, hnull, rfl, text, hread, rfl⟩ := run_readText_ok_iff.1 htext
    split at hrest
    · next s hs =>
      cases hrest
      exact ⟨hattempts, hnull, rfl, text, hread, hs⟩
    · cases hrest
  · rintro ⟨hattempts, hnull, rfl, text, hread, hof⟩
    rw [read, run_bind_of_ok (run_readText_ok_iff.2 ⟨hattempts, hnull, rfl, text, hread, rfl⟩), hof]
    rfl

theorem still_opened {α : Type} (path : Path) (patience : Patience)
    (outcome : Except SystemFault α) : Still (opened path patience outcome) := by
  have hrest : Still (do
      let trial := tryOpen path patience fun _ => outcome
      Job.report trial.events
      Job.ofExcept trial.result : Job α) := (still_report _).bind fun _ => still_ofExcept _
  unfold opened
  split
  · exact (still_requireKnown path).bind fun _ => hrest
  · exact hrest

theorem still_read (path : Path) (hash : NameHash) (patience : Patience) :
    Still (read path hash patience) := by
  have htext : Still (readText path patience) :=
    still_get.bind fun w => (still_opened path patience _).bind fun _ => still_pure _
  refine htext.bind fun text => ?_
  split
  · exact still_pure _
  · exact still_throw _

end Introspect.Store
