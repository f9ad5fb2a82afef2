import Mathlib.Data.Nat.Find
import Introspect.Store.Attempt

/-! Trying again to open a file: how often it is tried, what is reported in between, and which of
the outcomes counts. -/
namespace Introspect.Store

/-- An outcome after which waiting is of no use: the file is open, or it is not there. -/
def IsFinal {α : Type} : Except SystemFault α → Prop
  | .ok _ => True
  | .error fault => isAbsence fault = true

/-- The try is the first one with a final outcome. -/
structure IsFirst {α : Type} (outcome : Nat → Except SystemFault α) (k : Nat) : Prop where
  pos : 0 < k
  final : IsFinal (outcome k)
  before : ∀ i, 0 < i → i < k → ¬ IsFinal (outcome i)

/-- What is reported of so many tries that came to nothing, numbered from `start` on. -/
def retries (path : Path) (patience : Patience) (start count : Nat) : List Event :=
  (List.range' start count).map fun (i : Nat) =>
    .openRetry path i patience.attempts patience.delay

section
variable {α : Type} {path : Path} {patience : Patience} {outcome : Nat → Except SystemFault α}
  {opens left : Nat} {last : Option SystemFault} {fault : SystemFault}

/-! ## One try -/

theorem exists_fault (h : ¬ IsFinal (outcome opens)) :
    ∃ fault, outcome opens = .error fault ∧ isAbsence fault = false := by
  cases ho : outcome opens with
  | ok a =>
    rw [ho] at h
    exact absurd trivial h
  | error fault =>
    rw [ho] at h
    exact ⟨fault, rfl, Bool.eq_false_iff.2 h⟩

/-- A final outcome is the result. -/
theorem tryFrom_of_final (h : IsFinal (outcome (opens + 1))) :
    tryFrom path patience outcome opens last (left + 1) =
      ⟨opens + 1, [], (outcome (opens + 1)).mapError .system⟩ := by
  rw [tryFrom]
  cases ho : outcome (opens + 1) with
  | ok a => rfl
  | error fault =>
    have habsent : isAbsence fault = true := by
      rw [ho] at h
      exact h
    dsimp only
    rw [if_pos habsent]
    rfl

/-- Any other outcome is reported when there are more tries to come. -/
theorem tryFrom_of_fault (ho : outcome (opens + 1) = .error fault) (hf : isAbsence fault = false) :
    tryFrom path patience outcome opens last (left + 1 + 1) =
      { tryFrom path patience outcome (opens + 1) (some fault) (left + 1) with
        events := retries path patience (opens + 1) 1 ++
          (tryFrom path patience outcome (opens + 1) (some fault) (left + 1)).events } := by
  rw [tryFrom, ho]
  dsimp only
  rw [if_neg (by simp [hf]), if_neg (Nat.succ_ne_zero left)]
  rfl

/-- The last try is not followed by a report. -/
theorem tryFrom_of_last (ho : outcome (opens + 1) = .error fault) (hf : isAbsence fault = false) :
    tryFrom path patience outcome opens last 1 = ⟨opens + 1, [],
      .error (.registryFile (.openFailed path patience.attempts (some fault)))⟩ := by
  rw [tryFrom, ho]
  dsimp only
  rw [if_neg (by simp [hf]), if_pos rfl]
  rfl

/-! ## All tries -/

theorem retries_append (path : Path) (patience : Patience) (start m n : Nat) :
    retries path patience start m ++ retries path patience (start + m) n =
      retries path patience start (m + n) := by
  rw [retries, retries, retries, ← List.map_append, List.range'_append_1]

/-- Tries that come to nothing leave their reports, and the tries behind them decide. -/
theorem tryFrom_of_passes (path : Path) (patience : Patience) (last : Option SystemFault)
    (opens n left : Nat) (h : ∀ i, opens < i → i ≤ opens + n → ¬ IsFinal (outcome i)) :
    ∃ last', tryFrom path patience outcome opens last (n + (left + 1)) =
      { tryFrom path patience outcome (opens + n) last' (left + 1) with
        events := retries path patience (opens + 1) n ++
          (tryFrom path patience outcome (opens + n) last' (left + 1)).events } := by
  induction n generalizing opens last with
  | zero =>
    refine ⟨last, ?_⟩
    rw [Nat.zero_add]
    rfl
  | succ n ih =>
    obtain ⟨fault, ho, hf⟩ := exists_fault (h (opens + 1) (by omega) (by omega))
    obtain ⟨last', hrest⟩ := ih (some fault) (opens + 1) fun i hi hle =>
      h i (by omega) (by omega)
    have hleft : n + 1 + (left + 1) = n + left + 1 + 1 := by omega
    have hopens : opens + (n + 1) = opens + 1 + n := by omega
    have hreports : retries path patience (opens + 1) (n + 1) =
        retries path patience (opens + 1) 1 ++ retries path patience (opens + 1 + 1) n := by
      rw [retries_append, Nat.add_comm n 1]
    refine ⟨last', ?_⟩
    rw [hleft, tryFrom_of_fault ho hf, Nat.add_assoc n left 1, hrest, hopens, hreports,
      List.append_assoc]

/-- Where no try up to some number is the first with a final outcome, none of them has one. -/
theorem not_isFinal_of_le {n : Nat} (h : ∀ k, IsFirst outcome k → n < k) {i : Nat} (hi : 0 < i)
    (hn : i ≤ n) : ¬ IsFinal (outcome i) := by
  classical
  intro hfinal
  have hex : ∃ k, 0 < k ∧ IsFinal (outcome k) := ⟨i, hi, hfinal⟩
  have hfirst : IsFirst outcome (Nat.find hex) :=
    ⟨(Nat.find_spec hex).1, (Nat.find_spec hex).2, fun k hk hlt hf => Nat.find_min hex hlt ⟨hk, hf⟩⟩
  have hle : Nat.find hex ≤ i := Nat.find_min' hex ⟨hi, hfinal⟩
  have hlt := h _ hfirst
  omega

/-- Opening with patience ends with the first try that has a final outcome, if patience lasts so
long, and gives that outcome. Otherwise it is tried as often as patience allows, and the failure
names the path, the number of tries and the fault of the last one. Between two tries stands one
report, with the number of the try that came to nothing. -/
theorem tryOpen_bounded (path : Path) (patience : Patience)
    (outcome : Nat → Except SystemFault α) {n : Nat} (hn : patience.attempts = n) (hpos : 1 ≤ n) :
    (∀ k, IsFirst outcome k → k ≤ n →
      tryOpen path patience outcome =
        ⟨k, retries path patience 1 (k - 1), (outcome k).mapError .system⟩) ∧
    ((∀ k, IsFirst outcome k → n < k) → ∃ fault, outcome n = .error fault ∧
      tryOpen path patience outcome =
        ⟨n, retries path patience 1 (n - 1),
          .error (.registryFile (.openFailed path n (some fault)))⟩ ∧
      (Failure.registryFile (.openFailed path n (some fault))).message =
        "Failed to open '" ++ path.toString ++ "' after " ++ toString (n : Int) ++ " attempts: " ++
          fault.message) := by
  have hattempts : patience.attempts.toNat = n := by omega
  constructor
  · intro k hk hle
    obtain ⟨m, rfl⟩ : ∃ m, k = 0 + m + 1 := ⟨k - 1, by have := hk.pos; omega⟩
    obtain ⟨left, rfl⟩ : ∃ left, n = m + (left + 1) := ⟨n - (m + 1), by omega⟩
    obtain ⟨last, hrun⟩ := tryFrom_of_passes path patience none 0 m left fun i hi hle =>
      hk.before i hi (by omega)
    rw [tryOpen, hattempts, hrun, tryFrom_of_final hk.final]
    simp
  · intro hnone
    obtain ⟨m, rfl⟩ : ∃ m, n = 0 + m + 1 := ⟨n - 1, by omega⟩
    have hpasses : ∀ i, 0 < i → i ≤ 0 + m + 1 → ¬ IsFinal (outcome i) := fun i =>
      not_isFinal_of_le hnone
    obtain ⟨last, hrun⟩ := tryFrom_of_passes path patience none 0 m 0 fun i hi hle =>
      hpasses i hi (by omega)
    obtain ⟨fault, ho, hf⟩ := exists_fault (hpasses (0 + m + 1) (by omega) (by omega))
    refine ⟨fault, ho, ?_, rfl⟩
    have hlength : 0 + m + 1 = m + (0 + 1) := by omega
    rw [tryOpen, hattempts, hlength, hrun, Nat.zero_add 1, tryFrom_of_last ho hf, hn]
    simp

end

/-- A file that opens at the third try. -/
def busy : Nat → Except SystemFault String
  | 1 => .error (.isDirectory (.ofString "a"))
  | 2 => .error (.nameTooLong (.ofString "a"))
  | _ => .ok "held"

theorem isFirst_busy : IsFirst busy 3 where
  pos := by decide
  final := trivial
  before := by
    intro i hi hlt
    obtain rfl | rfl : i = 1 ∨ i = 2 := by omega
    · exact Bool.false_ne_true
    · exact Bool.false_ne_true

/-- Three tries are enough for it, and two are not. -/
theorem tryOpen_bounded_busy : 1 ≤ 3 ∧ 1 ≤ 2 ∧
    tryOpen (.ofString "a") ⟨3, .whole 0⟩ busy =
      ⟨3, retries (.ofString "a") ⟨3, .whole 0⟩ 1 2, .ok "held"⟩ ∧
    ∃ fault, busy 2 = .error fault ∧
      tryOpen (.ofString "a") ⟨2, .whole 0⟩ busy =
        ⟨2, retries (.ofString "a") ⟨2, .whole 0⟩ 1 1,
          .error (.registryFile (.openFailed (.ofString "a") 2 (some fault)))⟩ := by
  have hopens := (tryOpen_bounded (.ofString "a") ⟨3, .whole 0⟩ busy rfl (by decide)).1
    3 isFirst_busy le_rfl
  have hlate : ∀ k, IsFirst busy k → 2 < k := by
    intro k hk
    by_contra hle
    have hbefore : ¬ IsFinal (busy k) := isFirst_busy.before k hk.pos (by omega)
    exact hbefore hk.final
  obtain ⟨fault, ho, hfails, -⟩ :=
    (tryOpen_bounded (.ofString "a") ⟨2, .whole 0⟩ busy rfl (by decide)).2 hlate
  exact ⟨by decide, by decide, hopens, fault, ho, hfails⟩

end Introspect.Store
