import Mathlib.Logic.Basic
import Introspect.QualifiedName

/-! Names put together with scope marks, and what comes back when they are cut. -/
namespace Introspect
namespace Text

/-- A name that one declaration can have: something, without scope marks and argument lists. -/
structure IsName (s : String) : Prop where
  nonempty : s ≠ ""
  scope : ':' ∉ s.toList
  bracket : '<' ∉ s.toList

theorem scopes_of_not_mem {a : List Char} (h : ':' ∉ a) : scopes a = [a] := by
  induction a with
  | nil => rfl
  | cons c a ih =>
    obtain ⟨hc, ha⟩ := not_or.1 (List.mem_cons.not.1 h)
    rw [scopes, ih ha]
    rintro r hr -
    exact hc hr.symm

theorem scopes_append {a r : List Char} (h : ':' ∉ a) :
    scopes (a ++ ':' :: ':' :: r) = a :: scopes r := by
  induction a with
  | nil => rfl
  | cons c a ih =>
    obtain ⟨hc, ha⟩ := not_or.1 (List.mem_cons.not.1 h)
    rw [List.cons_append, scopes, ih ha]
    rintro r hr -
    exact hc hr.symm

theorem scopes_intercalate {names : List (List Char)} (hnames : names ≠ [])
    (h : ∀ n ∈ names, ':' ∉ n) : scopes ([':', ':'].intercalate names) = names := by
  induction names with
  | nil => exact absurd rfl hnames
  | cons n names ih =>
    have hn := h n (List.mem_cons_self ..)
    cases names with
    | nil => rw [List.intercalate_singleton, scopes_of_not_mem hn]
    | cons m names =>
      have hrest := ih (by simp) fun n hn => h n (List.mem_cons_of_mem _ hn)
      rw [List.intercalate_cons_cons, List.append_assoc]
      exact (scopes_append hn).trans (congrArg _ hrest)

/-- Names that are put together come back between the scope marks. -/
theorem scopesOf_intercalate {names : List String} (hnames : names ≠ [])
    (h : ∀ n ∈ names, ':' ∉ n.toList) : scopesOf ("::".intercalate names) = names := by
  have hlists : scopes ([':', ':'].intercalate (names.map String.toList)) =
      names.map String.toList := scopes_intercalate (by simpa using hnames) (by simpa using h)
  rw [scopesOf, String.toList_intercalate, show "::".toList = [':', ':'] from rfl, hlists]
  simp

/-- No two lists of names are put together to one name. -/
theorem intercalate_inj {names names' : List String} (hnames : names ≠ []) (hnames' : names' ≠ [])
    (h : ∀ n ∈ names, ':' ∉ n.toList) (h' : ∀ n ∈ names', ':' ∉ n.toList) :
    "::".intercalate names = "::".intercalate names' ↔ names = names' := by
  constructor
  · intro heq
    rw [← scopesOf_intercalate hnames h, heq, scopesOf_intercalate hnames' h']
  · rintro rfl
    rfl

theorem not_mem_intercalate {c : Char} (hc : c ≠ ':') {names : List String}
    (h : ∀ n ∈ names, c ∉ n.toList) : c ∉ ("::".intercalate names).toList := by
  induction names with
  | nil => simp
  | cons n names ih =>
    have hn := h n (List.mem_cons_self ..)
    cases names with
    | nil => simpa using hn
    | cons m names =>
      have hrest := ih fun n hn => h n (List.mem_cons_of_mem _ hn)
      rw [String.intercalate_cons_cons, String.toList_append, String.toList_append]
      simp only [List.mem_append, not_or]
      exact ⟨⟨hn, by simp [hc]⟩, hrest⟩

/-- What stands behind a name stays behind it when the name is the last of several. -/
theorem intercalate_append_cons (names : List String) (n a : String) (rest : List String) :
    ∃ behind, "::".intercalate (names ++ (n ++ a) :: rest) =
      "::".intercalate (names ++ [n]) ++ a ++ behind := by
  have hlast : ∃ behind, "::".intercalate ((n ++ a) :: rest) = n ++ a ++ behind := by
    cases rest with
    | nil => exact ⟨"", by simp⟩
    | cons m rest => exact ⟨"::" ++ "::".intercalate (m :: rest), by simp [String.append_assoc]⟩
  obtain ⟨behind, hbehind⟩ := hlast
  refine ⟨behind, ?_⟩
  by_cases hnames : names = []
  · simpa [hnames] using hbehind
  · rw [String.intercalate_append_of_ne_nil hnames (by simp),
      String.intercalate_append_of_ne_nil hnames (by simp), hbehind, String.intercalate_singleton]
    simp only [String.append_assoc]

/-- Names that are put together end where the first argument list starts. -/
theorem before_intercalate {names : List String} {n a : String} {rest : List String}
    (hnames : ∀ n ∈ names, '<' ∉ n.toList) (hn : '<' ∉ n.toList) (ha : startsWith "<" a) :
    before '<' ("::".intercalate (names ++ (n ++ a) :: rest)) =
      "::".intercalate (names ++ [n]) := by
  obtain ⟨behind, hbehind⟩ := intercalate_append_cons names n a rest
  obtain ⟨r, hr⟩ := Option.isSome_iff_exists.1 ha
  obtain rfl := afterPrefix?_eq_some_iff.1 hr
  have hfree : '<' ∉ ("::".intercalate (names ++ [n])).toList := by
    apply not_mem_intercalate (by decide)
    simpa [or_imp, forall_and, hn] using hnames
  have hlist : ("::".intercalate (names ++ [n]) ++ ("<" ++ r) ++ behind).toList =
      ("::".intercalate (names ++ [n])).toList ++ '<' :: (r.toList ++ behind.toList) := by
    simp only [String.toList_append, List.append_assoc]
    rfl
  rw [before, hbehind, hlist, cutAt_append hfree, String.ofList_toList]

theorem intercalate_ne_empty {names : List String} (hnames : names ≠ []) (h : ∀ n ∈ names, n ≠ "") :
    "::".intercalate names ≠ "" := by
  cases names with
  | nil => exact absurd rfl hnames
  | cons n names =>
    intro heq
    obtain ⟨behind, hbehind⟩ := intercalate_append_cons [] "" n names
    have hempty : n ++ behind = "" := by simpa [heq] using hbehind.symm
    exact h n (List.mem_cons_self ..) (String.append_eq_empty_iff.1 hempty).1

end Text

namespace QualifiedName
variable {namespaces : List String}

/-- A name in namespaces is the last of the names. -/
theorem text_mk {name : String} (h : ∀ n ∈ namespaces, n ≠ "") :
    (mk name ("::".intercalate namespaces)).text = "::".intercalate (namespaces ++ [name]) := by
  cases namespaces with
  | nil => simp [text, isGlobal]
  | cons n namespaces =>
    have hscope : "::".intercalate (n :: namespaces) ≠ "" :=
      Text.intercalate_ne_empty (by simp) h
    rw [String.intercalate_append_of_ne_nil (by simp) (by simp), String.intercalate_singleton]
    simp [text, isGlobal, hscope]

/-- Names are cut behind those of the namespaces, whatever comes after these. -/
theorem split_intercalate {names : List String} (h : ∀ n ∈ namespaces, n ≠ "") (hnames : names ≠ []) :
    split ("::".intercalate (namespaces ++ names)) ("::".intercalate namespaces) =
      ⟨"::".intercalate names, "::".intercalate namespaces⟩ := by
  by_cases hnone : namespaces = []
  · subst hnone
    rfl
  · have hscope : ("::".intercalate namespaces).isEmpty = false := by
      simpa using Text.intercalate_ne_empty hnone h
    have hcut : Text.afterPrefix? ("::".intercalate namespaces ++ "::")
        ("::".intercalate namespaces ++ "::" ++ "::".intercalate names) =
          some ("::".intercalate names) := Text.afterPrefix?_eq_some_iff.2 rfl
    rw [String.intercalate_append_of_ne_nil hnone hnames, split, hscope, hcut]
    rfl

/-- The namespaces around a name are told apart again. -/
theorem namespaces_mk {name : String} (h : ∀ n ∈ namespaces, Text.IsName n) :
    (mk name ("::".intercalate namespaces)).namespaces = namespaces := by
  by_cases hnone : namespaces = []
  · subst hnone
    rfl
  · have hscope : "::".intercalate namespaces ≠ "" :=
      Text.intercalate_ne_empty hnone fun n hn => (h n hn).nonempty
    have hscopes := Text.scopesOf_intercalate hnone fun n hn => (h n hn).scope
    simp [QualifiedName.namespaces, isGlobal, hscope, hscopes]

end QualifiedName
end Introspect
