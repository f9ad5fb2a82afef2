import Mathlib.Data.List.Basic
import Introspect.Diagnostic

/-! Which complaints a check reports, and when one that is over the threshold is missed. -/
namespace Introspect

/-- Whether a complaint is over the threshold: a fatal one always is, errors and warnings are where
the policy raises them. -/
def DiagnosticPolicy.Exceeds (p : DiagnosticPolicy) (d : Diagnostic) : Prop :=
  d.severity = .fatal ∨ d.severity = .error ∧ p.raiseErrors ∨
    d.severity = .warning ∧ p.raiseWarnings

instance (p : DiagnosticPolicy) (d : Diagnostic) : Decidable (p.Exceeds d) :=
  inferInstanceAs (Decidable (_ ∨ _ ∧ _ ∨ _ ∧ _))

theorem DiagnosticPolicy.stops_eq (p : DiagnosticPolicy) :
    p.stops = fun d => decide (p.Exceeds d) := by
  funext d
  cases h : d.severity <;> simp [stops, Exceeds, h]

/-- A check misses nothing: it fails exactly when a complaint is over the threshold, and then with
the first ones that are, up to the limit. -/
structure MissesNone (p : DiagnosticPolicy) (ds : List Diagnostic)
    (result : Except Failure Unit) : Prop where
  fails : (∃ e, result = .error e) ↔ ∃ d ∈ ds, p.Exceeds d
  messages : ∀ e, result = .error e → e =
    .diagnostics (((ds.filter fun d => p.Exceeds d).take diagnosticLimit).map Diagnostic.text)

section cut
variable {α : Type} {n : Nat} {l : List α} {P : α → Bool}

/-- A list may be cut before it is filtered if everything before the cut, or nothing behind it,
passes. -/
private theorem filter_take_eq (h : (∀ a ∈ l.take n, P a) ∨ ∀ a ∈ l.drop n, ¬P a) :
    (l.take n).filter P = (l.filter P).take n := by
  have hsplit : l.filter P = (l.take n).filter P ++ (l.drop n).filter P := by
    rw [← List.filter_append, List.take_append_drop]
  rcases h with h | h
  · rw [hsplit, List.filter_eq_self.2 h]
    rcases Nat.le_total n l.length with hn | hn
    · rw [List.take_append_of_le_length (by simp [hn]), List.take_take, Nat.min_self]
    · simp [List.drop_eq_nil_of_le hn, List.take_of_length_le hn]
  · have hshort : ((l.take n).filter P).length ≤ n :=
      Nat.le_trans (List.length_filter_le _ _) (List.length_take_le _ _)
    rw [hsplit, List.filter_eq_nil_iff.2 h, List.append_nil, List.take_of_length_le hshort]

/-- Only then: something is lost before the cut and something is left behind it otherwise, and the
filtered list has more to give. -/
private theorem of_length_filter_take
    (h : ((l.take n).filter P).length = ((l.filter P).take n).length) :
    (∀ a ∈ l.take n, P a) ∨ ∀ a ∈ l.drop n, ¬P a := by
  rw [← List.length_filter_eq_length_iff, ← List.filter_eq_nil_iff, ← List.length_eq_zero_iff]
  have hsplit : (l.filter P).length =
      ((l.take n).filter P).length + ((l.drop n).filter P).length := by
    rw [← List.length_append, ← List.filter_append, List.take_append_drop]
  have hfew : ((l.drop n).filter P).length ≤ (l.drop n).length := List.length_filter_le _ _
  simp only [List.length_take, List.length_drop] at h hfew ⊢
  omega

end cut

/-- A check fails with what is over the threshold among the complaints within the limit. -/
theorem checkDiagnostics_eq_error_iff (p : DiagnosticPolicy) (ds : List Diagnostic) (e : Failure) :
    checkDiagnostics p ds = .error e ↔ (∃ d ∈ ds.take diagnosticLimit, p.Exceeds d) ∧
      e = .diagnostics
        (((ds.take diagnosticLimit).filter fun d => p.Exceeds d).map Diagnostic.text) := by
  have hempty : (((ds.take diagnosticLimit).filter p.stops).map Diagnostic.text).isEmpty ↔
      ¬∃ d ∈ ds.take diagnosticLimit, p.Exceeds d := by
    simp [p.stops_eq]
  unfold checkDiagnostics
  rw [← p.stops_eq]
  dsimp only
  split
  · next h => simp only [hempty.1 h, false_and, reduceCtorEq]
  · next h =>
    have hsome : ∃ d ∈ ds.take diagnosticLimit, p.Exceeds d :=
      not_not.1 fun hnone => h (hempty.2 hnone)
    simp only [hsome, true_and, Except.error.injEq, eq_comm]

/-- A check misses nothing exactly when everything within the limit is over the threshold, or
nothing behind it is. -/
theorem checkDiagnostics_missesNone_iff (p : DiagnosticPolicy) (ds : List Diagnostic) :
    MissesNone p ds (checkDiagnostics p ds) ↔
      (∀ d ∈ ds.take diagnosticLimit, p.Exceeds d) ∨
        ∀ d ∈ ds.drop diagnosticLimit, ¬p.Exceeds d := by
  have hlimit : ∀ d ∈ ds.take diagnosticLimit, d ∈ ds := fun d => List.mem_of_mem_take
  constructor
  · intro h
    by_cases hany : ∃ d ∈ ds, p.Exceeds d
    · obtain ⟨e, he⟩ := h.fails.2 hany
      -- the texts are as many as the complaints, so the two failures agree in number
      have hsame := ((checkDiagnostics_eq_error_iff p ds e).1 he).2.symm.trans (h.messages e he)
      have hlength := congrArg List.length (Failure.diagnostics.inj hsame)
      simp only [List.length_map] at hlength
      simpa using of_length_filter_take hlength
    · exact .inr fun d hd hexceeds => hany ⟨d, List.mem_of_mem_drop hd, hexceeds⟩
  · intro h
    have hcut := filter_take_eq (P := fun d => p.Exceeds d) (by simpa using h)
    refine ⟨?_, fun e he => ?_⟩
    · simp only [checkDiagnostics_eq_error_iff, exists_and_left, exists_eq, and_true]
      refine ⟨fun ⟨d, hd, hexceeds⟩ => ⟨d, hlimit d hd, hexceeds⟩, fun ⟨d, hd, hexceeds⟩ => ?_⟩
      have hfirst : (ds.filter fun d => p.Exceeds d).take diagnosticLimit ≠ [] := fun hnil => by
        rcases List.take_eq_nil_iff.1 hnil with hzero | hnil
        · exact absurd hzero (by decide)
        · exact List.filter_eq_nil_iff.1 hnil d hd (by simpa using hexceeds)
      obtain ⟨d', hd'⟩ := List.exists_mem_of_ne_nil _ hfirst
      rw [← hcut] at hd'
      exact ⟨d', by simpa using List.mem_filter.1 hd'⟩
    · rw [((checkDiagnostics_eq_error_iff p ds e).1 he).2, hcut]

/-- A fatal complaint behind a hundred notes. -/
def fatalBehindNotes : List Diagnostic :=
  List.replicate 100 ⟨.note, "note", some (.absolute ["module", "a.h"]), 1⟩ ++
    [⟨.fatal, "too many errors", some (.absolute ["module", "a.h"]), 100⟩]

/-- The fatal complaint is missed: the check passes. -/
theorem not_missesNone_fatalBehindNotes :
    checkDiagnostics ⟨true, true⟩ fatalBehindNotes = .ok () ∧
      ¬MissesNone ⟨true, true⟩ fatalBehindNotes
        (checkDiagnostics ⟨true, true⟩ fatalBehindNotes) := by
  have hpasses : checkDiagnostics ⟨true, true⟩ fatalBehindNotes = .ok () := by decide +kernel
  have hexceeds : ∃ d ∈ fatalBehindNotes, DiagnosticPolicy.Exceeds ⟨true, true⟩ d :=
    ⟨⟨.fatal, "too many errors", some (.absolute ["module", "a.h"]), 100⟩,
      List.mem_append_right _ (List.mem_singleton_self _), .inl rfl⟩
  refine ⟨hpasses, fun h => ?_⟩
  obtain ⟨failure, hfails⟩ := h.fails.2 hexceeds
  simp [hpasses] at hfails

end Introspect
