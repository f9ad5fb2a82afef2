import Mathlib.Data.List.Perm.Subperm
import Introspect.Proofs.Catalog
import Introspect.Record

/-! Equality as data. The tests by which a strict merge compares types and records look through
the form in which values were given, and through the order of attributes. They are equalities all
the same: reflexive, symmetric and transitive. -/
namespace Introspect

/-- A test that behaves like an equality. -/
structure Agreement {α : Type} (r : α → α → Bool) : Prop where
  refl (a : α) : r a a
  symm {a b : α} : r a b → r b a
  trans {a b c : α} : r a b → r b c → r a c

namespace Agreement
variable {α β κ : Type} {r s : α → α → Bool}

theorem beq [BEq α] [LawfulBEq α] : Agreement (α := α) (· == ·) where
  refl := by simp
  symm := by
    simp only [beq_iff_eq]
    exact Eq.symm
  trans := by
    simp only [beq_iff_eq]
    exact Eq.trans

/-- Values compared by a part of theirs. -/
theorem on (h : Agreement r) (part : β → α) : Agreement fun a b => r (part a) (part b) where
  refl a := h.refl (part a)
  symm := h.symm
  trans := h.trans

/-- Values compared in two ways. -/
theorem and (hr : Agreement r) (hs : Agreement s) : Agreement fun a b => r a b && s a b where
  refl a := by simp [hr.refl a, hs.refl a]
  symm := by
    simp only [Bool.and_eq_true]
    exact fun hab => ⟨hr.symm hab.1, hs.symm hab.2⟩
  trans := by
    simp only [Bool.and_eq_true]
    exact fun hab hbc => ⟨hr.trans hab.1 hbc.1, hs.trans hab.2 hbc.2⟩

/-- Lists compared item by item. -/
theorem isEqv (h : Agreement r) : Agreement fun as bs : List α => as.isEqv bs r where
  refl as := by
    induction as with
    | nil => rfl
    | cons a as ih => exact Bool.and_eq_true_iff.2 ⟨h.refl a, ih⟩
  symm := by
    intro as
    induction as with
    | nil =>
      intro bs hab
      cases bs with
      | nil => rfl
      | cons b bs => simp at hab
    | cons a as ih =>
      intro bs hab
      cases bs with
      | nil => simp at hab
      | cons b bs =>
        simp only [List.isEqv_cons_cons, Bool.and_eq_true] at hab ⊢
        exact ⟨h.symm hab.1, ih hab.2⟩
  trans := by
    intro as
    induction as with
    | nil =>
      intro bs cs hab hbc
      cases bs with
      | nil => exact hbc
      | cons b bs => simp at hab
    | cons a as ih =>
      intro bs cs hab hbc
      cases bs with
      | nil => simp at hab
      | cons b bs =>
        cases cs with
        | nil => simp at hbc
        | cons c cs =>
          simp only [List.isEqv_cons_cons, Bool.and_eq_true] at hab hbc ⊢
          exact ⟨h.trans hab.1 hbc.1, ih hab.2 hbc.2⟩

/-- Values that may be missing, compared where they are there. -/
theorem rel_symm (h : Agreement r) {a b : Option α} (hab : Option.Rel (r · ·) a b) :
    Option.Rel (r · ·) b a := by
  cases hab with
  | some hab => exact .some (h.symm hab)
  | none => exact .none

theorem rel_trans (h : Agreement r) {a b c : Option α} (hab : Option.Rel (r · ·) a b)
    (hbc : Option.Rel (r · ·) b c) : Option.Rel (r · ·) a c := by
  cases hab with
  | some hab =>
    cases hbc with
    | some hbc => exact .some (h.trans hab hbc)
  | none => exact hbc

theorem rel_refl (h : Agreement r) (a : Option α) : Option.Rel (r · ·) a a := by
  cases a with
  | some a => exact .some (h.refl a)
  | none => exact .none

end Agreement

section
variable {α κ : Type} [DecidableEq κ] {r : α → α → Bool}

/-- Tables match when every key finds related values in both, or none in either: with as many
bindings on both sides, no key of the second can be missing in the first. -/
theorem Table.matches_iff {a b : Table κ α} :
    a.Matches r b ↔ ∀ k, Option.Rel (r · ·) (a.find? k) (b.find? k) := by
  simp only [Matches, Bool.and_eq_true, beq_iff_eq, List.all_eq_true, Prod.forall,
    ← Table.find?_eq_some_iff]
  constructor
  · rintro ⟨hsize, hall⟩ k
    have hfound : ∀ {k v}, a.find? k = some v → ∃ w, b.find? k = some w ∧ r v w = true := by
      intro k v hv
      simpa [Option.any_eq_true] using hall k v hv
    cases hv : a.find? k with
    | some v =>
      obtain ⟨w, hw, hvw⟩ := hfound hv
      rw [hw]
      exact .some hvw
    | none =>
      have hsub : a.keys ⊆ b.keys := by
        intro j hj
        obtain ⟨v, hv⟩ := Table.mem_keys_iff_exists.1 hj
        obtain ⟨w, hw, -⟩ := hfound hv
        exact Table.mem_keys_iff_exists.2 ⟨w, hw⟩
      have hlength : b.keys.length ≤ a.keys.length := by
        simpa [Table.keys, Catalog.keys, Table.size, Catalog.size] using Nat.le_of_eq hsize.symm
      have hperm := (List.subperm_of_subset a.nodup_keys hsub).perm_of_length_le hlength
      cases hw : b.find? k with
      | none => exact .none
      | some w =>
        have hk : k ∈ a.keys := hperm.mem_iff.2 (Table.mem_keys_iff_exists.2 ⟨w, hw⟩)
        obtain ⟨v, hv'⟩ := Table.mem_keys_iff_exists.1 hk
        simp [hv] at hv'
  · intro hrel
    constructor
    · have hperm : a.keys.Perm b.keys := by
        refine (List.perm_ext_iff_of_nodup a.nodup_keys b.nodup_keys).2 fun k => ?_
        have hk := hrel k
        rw [Table.mem_keys_iff_exists, Table.mem_keys_iff_exists]
        generalize a.find? k = v, b.find? k = w at hk
        cases hk <;> simp
      simpa [Table.keys, Catalog.keys, Table.size, Catalog.size] using hperm.length_eq
    · intro k v hv
      have hk := hrel k
      rw [hv] at hk
      cases hw : b.find? k with
      | none =>
        rw [hw] at hk
        cases hk
      | some w =>
        rw [hw] at hk
        cases hk with
        | some hvw => simpa using hvw

/-- Tables compared key by key. -/
theorem Agreement.tables (h : Agreement r) :
    Agreement fun a b : Table κ α => a.Matches r b where
  refl _ := Table.matches_iff.2 fun _ => h.rel_refl _
  symm hab := Table.matches_iff.2 fun k => h.rel_symm (Table.matches_iff.1 hab k)
  trans hab hbc := Table.matches_iff.2 fun k =>
    h.rel_trans (Table.matches_iff.1 hab k) (Table.matches_iff.1 hbc k)

end

/-! ## Types -/

theorem Given.agreement {α : Type} [Datum α] : Agreement (α := Given α) Given.agrees :=
  Agreement.beq.on fun g : Given α => g.toJson.canonical

theorem QualifiedName.agreement : Agreement QualifiedName.agrees :=
  (Given.agreement.on givenName).and (Given.agreement.on givenScope)

namespace CppType

mutual
private theorem agrees_refl : ∀ t : CppType, t.agrees t
  | .plain i k => by simp [agrees, QualifiedName.agreement.refl i]
  | .templated i k g a as => by
    simp [agrees, QualifiedName.agreement.refl i, agrees_refl a, agreesAll_refl as]
private theorem agreesAll_refl : ∀ ts : List CppType, agreesAll ts ts
  | [] => by simp [agreesAll]
  | t :: ts => by simp [agreesAll, agrees_refl t, agreesAll_refl ts]
end

mutual
private theorem agrees_symm : ∀ t u : CppType, t.agrees u → u.agrees t
  | .plain i k, .plain j l => by
    simp only [agrees, Bool.and_eq_true, beq_iff_eq]
    exact fun h => ⟨QualifiedName.agreement.symm h.1, h.2.symm⟩
  | .templated i k g a as, .templated j l u b bs => by
    simp only [agrees, Bool.and_eq_true, beq_iff_eq]
    rintro ⟨⟨⟨⟨hid, hkind⟩, htemplate⟩, hfirst⟩, hrest⟩
    exact ⟨⟨⟨⟨QualifiedName.agreement.symm hid, hkind.symm⟩, htemplate.symm⟩,
      agrees_symm a b hfirst⟩, agreesAll_symm as bs hrest⟩
  | .plain .., .templated .. => by simp [agrees]
  | .templated .., .plain .. => by simp [agrees]
private theorem agreesAll_symm : ∀ ts us : List CppType, agreesAll ts us → agreesAll us ts
  | [], [] => by simp [agreesAll]
  | t :: ts, u :: us => by
    simp only [agreesAll, Bool.and_eq_true]
    exact fun h => ⟨agrees_symm t u h.1, agreesAll_symm ts us h.2⟩
  | [], _ :: _ => by simp [agreesAll]
  | _ :: _, [] => by simp [agreesAll]
end

mutual
private theorem agrees_trans : ∀ t u v : CppType, t.agrees u → u.agrees v → t.agrees v
  | .plain i k, .plain j l, .plain m n => by
    simp only [agrees, Bool.and_eq_true, beq_iff_eq]
    exact fun h h' => ⟨QualifiedName.agreement.trans h.1 h'.1, h.2.trans h'.2⟩
  | .templated i k g a as, .templated j l u b bs, .templated m n v c cs => by
    simp only [agrees, Bool.and_eq_true, beq_iff_eq]
    rintro ⟨⟨⟨⟨hid, hkind⟩, htemplate⟩, hfirst⟩, hrest⟩
    rintro ⟨⟨⟨⟨hid', hkind'⟩, htemplate'⟩, hfirst'⟩, hrest'⟩
    exact ⟨⟨⟨⟨QualifiedName.agreement.trans hid hid', hkind.trans hkind'⟩,
      htemplate.trans htemplate'⟩, agrees_trans a b c hfirst hfirst'⟩,
      agreesAll_trans as bs cs hrest hrest'⟩
  | .plain .., .templated .., _ => by simp [agrees]
  | .templated .., .plain .., _ => by simp [agrees]
  | .plain .., .plain .., .templated .. => by simp [agrees]
  | .templated .., .templated .., .plain .. => by simp [agrees]
private theorem agreesAll_trans :
    ∀ ts us vs : List CppType, agreesAll ts us → agreesAll us vs → agreesAll ts vs
  | [], [], _ => by simp
  | t :: ts, u :: us, v :: vs => by
    simp only [agreesAll, Bool.and_eq_true]
    exact fun h h' => ⟨agrees_trans t u v h.1 h'.1, agreesAll_trans ts us vs h.2 h'.2⟩
  | [], _ :: _, _ => by simp [agreesAll]
  | _ :: _, [], _ => by simp [agreesAll]
  | _ :: _, _ :: _, [] => by simp [agreesAll]
end

theorem agreement : Agreement agrees where
  refl := agrees_refl
  symm := agrees_symm _ _
  trans := agrees_trans _ _ _

end CppType

theorem TypeUse.agreement : Agreement TypeUse.agrees :=
  (CppType.agreement.on type).and (Given.agreement.on constness)

/-! ## Records -/

theorem Note.agreement : Agreement Note.agrees :=
  (Given.agreement.on value).and (Agreement.beq.on lifetime)

theorem Metadata.agreement : Agreement Metadata.agrees :=
  (((((Agreement.beq.on file).and (Given.agreement.on line)).and
    (Given.agreement.on reflected)).and (Note.agreement.isEqv.on tags)).and
    (Note.agreement.tables.on attributes)).and (Given.agreement.on comment)

theorem Field.agreement : Agreement Field.agrees :=
  ((Agreement.beq.on name).and (TypeUse.agreement.on use)).and (Metadata.agreement.on metadata)

theorem Method.agreement : Agreement Method.agrees :=
  (((Agreement.beq.on name).and (TypeUse.agreement.on result)).and
    (TypeUse.agreement.isEqv.on arguments)).and (Metadata.agreement.on metadata)

theorem FunctionRecord.agreement : Agreement FunctionRecord.agrees :=
  (((QualifiedName.agreement.on id).and (TypeUse.agreement.on result)).and
    (TypeUse.agreement.isEqv.on arguments)).and (Metadata.agreement.on metadata)

theorem ClassRecord.agreement : Agreement ClassRecord.agrees :=
  (((((((CppType.agreement.on type).and (Metadata.agreement.on metadata)).and
    (Agreement.beq.on key)).and (Given.agreement.on abstractness)).and
    (Field.agreement.isEqv.on fields)).and (Method.agreement.isEqv.on methods)).and
    (Given.agreement.isEqv.on bases)).and (Given.agreement.on bodyLine)

theorem Enumerator.agreement : Agreement Enumerator.agrees :=
  ((Given.agreement.on name).and (Given.agreement.on value)).and (Metadata.agreement.on metadata)

theorem EnumRecord.agreement : Agreement EnumRecord.agrees :=
  (((CppType.agreement.on type).and (Metadata.agreement.on metadata)).and
    (Enumerator.agreement.isEqv.on values)).and (Given.agreement.on bodyLine)

theorem AliasRecord.agreement : Agreement AliasRecord.agrees :=
  ((((CppType.agreement.on type).and (CppType.agreement.on target)).and
    (Metadata.agreement.on metadata)).and (Given.agreement.on targetClass)).and
    (Given.agreement.on targetEnum)

end Introspect
