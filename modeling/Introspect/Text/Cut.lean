/-! Prefixes, suffixes and separators of texts held as lists of characters. -/
namespace Introspect.Text

/-- What follows `p` at the front of a text, when the text starts with `p`. -/
def dropPrefix? : List Char → List Char → Option (List Char)
  | [], s => some s
  | _ :: _, [] => none
  | p :: ps, c :: cs => if p = c then dropPrefix? ps cs else none

theorem dropPrefix?_eq_some_iff {p s r : List Char} :
    dropPrefix? p s = some r ↔ s = p ++ r := by
  induction p generalizing s with
  | nil => simp [dropPrefix?]
  | cons a p ih =>
    cases s with
    | nil => simp [dropPrefix?]
    | cons c s =>
      by_cases h : a = c
      · subst h
        simp [dropPrefix?, ih]
      · simp [dropPrefix?, h, Ne.symm h]

/-- What stands before `p` at the end of a text, when the text ends with `p`. -/
def dropSuffix? (p s : List Char) : Option (List Char) :=
  (dropPrefix? p.reverse s.reverse).map List.reverse

theorem dropSuffix?_eq_some_iff {p s r : List Char} :
    dropSuffix? p s = some r ↔ s = r ++ p := by
  simp only [dropSuffix?, Option.map_eq_some_iff, dropPrefix?_eq_some_iff]
  constructor
  · rintro ⟨t, ht, rfl⟩
    have := congrArg List.reverse ht
    simpa using this
  · rintro rfl
    exact ⟨r.reverse, by simp, by simp⟩

/-- The text before the first `sep` and, when there is one, the text behind it. -/
def cutAt (sep : Char) : List Char → List Char × Option (List Char)
  | [] => ([], none)
  | c :: r =>
    if c = sep then ([], some r)
    else
      let p := cutAt sep r
      (c :: p.1, p.2)

theorem cutAt_append {sep : Char} {a b : List Char} (h : sep ∉ a) :
    cutAt sep (a ++ sep :: b) = (a, some b) := by
  induction a with
  | nil => simp [cutAt]
  | cons c a ih =>
    simp only [List.mem_cons, not_or] at h
    simp [cutAt, Ne.symm h.1, ih h.2]

theorem cutAt_of_not_mem {sep : Char} {a : List Char} (h : sep ∉ a) : cutAt sep a = (a, none) := by
  induction a with
  | nil => rfl
  | cons c a ih =>
    simp only [List.mem_cons, not_or] at h
    simp [cutAt, Ne.symm h.1, ih h.2]

/-- The pieces of a text between the scope marks `::`, taken from the left. -/
def scopes : List Char → List (List Char)
  | [] => [[]]
  | ':' :: ':' :: r => [] :: scopes r
  | c :: r =>
    match scopes r with
    | [] => [[c]]
    | s :: ss => (c :: s) :: ss

/-- What follows `p` at the front of a string, when the string starts with `p`. -/
def afterPrefix? (p s : String) : Option String :=
  (dropPrefix? p.toList s.toList).map String.ofList

/-- What stands before `p` at the end of a string, when the string ends with `p`. -/
def beforeSuffix? (p s : String) : Option String :=
  (dropSuffix? p.toList s.toList).map String.ofList

theorem afterPrefix?_eq_some_iff {p s r : String} : afterPrefix? p s = some r ↔ s = p ++ r := by
  simp only [afterPrefix?, Option.map_eq_some_iff, dropPrefix?_eq_some_iff]
  constructor
  · rintro ⟨t, ht, rfl⟩
    exact String.toList_inj.1 (by simp [ht])
  · rintro rfl
    exact ⟨r.toList, by simp, by simp⟩

theorem beforeSuffix?_eq_some_iff {p s r : String} : beforeSuffix? p s = some r ↔ s = r ++ p := by
  simp only [beforeSuffix?, Option.map_eq_some_iff, dropSuffix?_eq_some_iff]
  constructor
  · rintro ⟨t, ht, rfl⟩
    exact String.toList_inj.1 (by simp [ht])
  · rintro rfl
    exact ⟨r.toList, by simp, by simp⟩

def startsWith (p s : String) : Bool :=
  (afterPrefix? p s).isSome

def endsWith (p s : String) : Bool :=
  (beforeSuffix? p s).isSome

/-- The part of a string before the first `sep`; all of it when there is none. -/
def before (sep : Char) (s : String) : String :=
  String.ofList (cutAt sep s.toList).1

/-- The pieces of a string between single separators; empty pieces are kept. -/
def pieces (sep : Char) (s : String) : List String :=
  (s.toList.splitOn sep).map String.ofList

/-- The pieces of a string between the scope marks `::`. -/
def scopesOf (s : String) : List String :=
  (scopes s.toList).map String.ofList

end Introspect.Text
