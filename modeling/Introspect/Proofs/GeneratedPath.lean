import Introspect.GeneratedPath
import Introspect.Proofs.FileTree.WellFormed
import Introspect.Proofs.Path

/-! The places of generated files. -/
namespace Introspect

namespace Path
variable {p q : Path} {cwd : List String}

/-- The path that goes on from another one through the given components. -/
def onward (p : Path) (rest : List String) : Path := { p with parts := p.parts ++ rest }

theorem fold_onward (cwd : List String) (p : Path) {name : String} (h : name ≠ "..") :
    (p.onward [name]).fold cwd = p.fold cwd ++ [name] := by
  have hanchor : (p.onward [name]).isAbsolute = p.isAbsolute := rfl
  rw [fold, hanchor, onward, List.foldl_append]
  exact if_neg h

private theorem foldl_descend_down {above parts : List String} (h : ".." ∉ parts) :
    parts.foldl descend above = above ++ parts := by
  induction parts generalizing above with
  | nil => simp
  | cons a r ih =>
    simp only [List.mem_cons, not_or] at h
    simp [descend, Ne.symm h.1, ih h.2]

theorem fold_join_down (cwd : List String) (p : Path) {place : List String} (h : ".." ∉ place) :
    (p.join ⟨.relative, place⟩).fold cwd = p.fold cwd ++ place := by
  have hjoin : p.join ⟨.relative, place⟩ = { p with parts := p.parts ++ place } := rfl
  have hanchor : ({ p with parts := p.parts ++ place } : Path).isAbsolute = p.isAbsolute := rfl
  rw [hjoin, fold, hanchor, List.foldl_append, foldl_descend_down h]
  rfl

private theorem dropShared_append (as bs : List String) :
    dropShared as (as ++ bs) = ([], bs) := by
  induction as with
  | nil => cases bs <;> rfl
  | cons a as ih => simp [dropShared, ih]

/-- To what lies below a directory the way only goes down. -/
theorem relativeTo_below {start : Path} {place : List String}
    (h : p.fold cwd = start.fold cwd ++ place) : p.relativeTo cwd start = ⟨.relative, place⟩ := by
  simp [relativeTo, h, dropShared_append]

/-- Every component is a name or leads back up. -/
def Clean (p : Path) : Prop := ∀ s ∈ p.parts, s = ".." ∨ IsName s

theorem Normal.clean (h : p.Normal) : p.Clean := by
  intro s hs
  obtain ⟨hne, hdot, hslash⟩ := h s hs
  by_cases hup : s = ".."
  · exact .inl hup
  · exact .inr ⟨hne, hdot, hup, hslash⟩

theorem Straight.clean (h : p.Straight) : p.Clean := fun s hs => .inr (h.names s hs)

theorem clean_ofString (s : String) : (ofString s).Clean := (normal_ofString s).clean

theorem isName_of_length {s : String} (hlong : 2 < s.toList.length) (hslash : '/' ∉ s.toList) :
    IsName s := by
  refine ⟨?_, ?_, ?_, hslash⟩ <;>
    · rintro rfl
      simp at hlong

/-- A stem with a suffix behind it is a name. -/
theorem IsName.stem_append {name e : String} (h : IsName name) (he : IsSuffix e) :
    IsName (stemOf name ++ e) := by
  have hstem : (stemOf name).toList ≠ [] := fun hs =>
    stemOf_ne_empty h.nonempty (String.toList_inj.1 hs)
  obtain ⟨x, hx, hne, -, hslash⟩ := he
  apply isName_of_length
  · have hpos := List.length_pos_iff.2 hstem
    have hpos' := List.length_pos_iff.2 hne
    rw [String.toList_append, hx, List.length_append, List.length_cons]
    omega
  · rw [String.toList_append, List.mem_append, not_or, hx]
    exact ⟨slash_stemOf h.single, by simp [hslash]⟩

/-- A name is read as a path of one component. -/
theorem ofString_name {name : String} (h : IsName name) : ofString name = ⟨.relative, [name]⟩ := by
  have htext : toString ⟨.relative, [name]⟩ = name := by
    simp [toString, Anchor.text]
  have hnormal : Normal ⟨.relative, [name]⟩ := by
    intro s hs
    obtain rfl := List.mem_singleton.1 hs
    exact ⟨h.nonempty, h.here, h.single⟩
  conv_lhs => rw [← htext]
  exact ofString_toString hnormal

theorem Clean.join (hp : p.Clean) (hq : q.Clean) : (p.join q).Clean := by
  unfold Path.join
  split
  · exact hq
  · intro s hs
    exact (List.mem_append.1 hs).elim (hp s) (hq s)

theorem Clean.straight (hp : p.Clean) (hcwd : ∀ s ∈ cwd, IsName s) : (p.resolve cwd).Straight :=
  straight_resolve hcwd hp

private theorem mem_dropShared {as bs : List String} {s : String} (h : s ∈ (dropShared as bs).2) :
    s ∈ bs := by
  fun_induction dropShared as bs with
  | case1 a as bs ih => exact List.mem_cons_of_mem _ (ih h)
  | case2 a as b bs hne => exact h
  | case3 as bs hne => exact h

theorem mem_relativeTo {start : Path} {s : String} (h : s ∈ (p.relativeTo cwd start).parts) :
    s = ".." ∨ s ∈ p.fold cwd := by
  rcases List.mem_append.1 h with hup | hdown
  · obtain ⟨-, -, rfl⟩ := List.mem_map.1 hup
    exact .inl rfl
  · exact .inr (mem_dropShared hdown)

theorem clean_relativeTo (hp : p.Straight) (start : Path) : (p.relativeTo cwd start).Clean := by
  intro s hs
  refine (mem_relativeTo hs).imp_right fun hs => ?_
  rw [hp.fold] at hs
  exact hp.names s hs

end Path

namespace GeneratedPath
variable {cwd : List String} {source moduleDirectory output : Path} {extension : String}

/-- Wherever its source lies, a generated file has a straight path. -/
theorem straight_ofSource (hcwd : ∀ s ∈ cwd, Path.IsName s) (houtput : output.Straight)
    (hsource : source.Clean) :
    (ofSource cwd source moduleDirectory output extension).Straight := by
  have hplace : ((source.resolve cwd).parent.relativeTo cwd moduleDirectory).Clean :=
    Path.clean_relativeTo (hsource.straight hcwd).parent _
  exact ((houtput.clean.join hplace).join (Path.clean_ofString _)).straight hcwd

/-- A source may be given by any path to it. -/
theorem ofSource_resolve (hcwd : ".." ∉ cwd) :
    ofSource cwd (source.resolve cwd) moduleDirectory output extension =
      ofSource cwd source moduleDirectory output extension := by
  simp only [ofSource, Path.resolve_resolve cwd source hcwd]

/-- A text is a name with an extension behind it that has more than two characters. -/
theorem isName_append {stem : String} (hstem : '/' ∉ stem.toList) (hslash : '/' ∉ extension.toList)
    (hlength : 2 < extension.toList.length) : Path.IsName (stem ++ extension) := by
  apply Path.isName_of_length
  · rw [String.toList_append, List.length_append]
    omega
  · simp [hstem, hslash]

/-- The name of a source without a slash. -/
private theorem slash_name (hcwd : ∀ s ∈ cwd, Path.IsName s) (hsource : source.Clean) :
    '/' ∉ (source.resolve cwd).name.toList := by
  rw [Path.name]
  cases hlast : (source.resolve cwd).parts.getLast? with
  | none => simp
  | some name =>
    exact ((hsource.straight hcwd).names name (List.mem_of_getLast? hlast)).single

/-- The name of a generated file comes from its source; its place does not depend on the name. -/
theorem parts_ofSource (hcwd : ∀ s ∈ cwd, Path.IsName s)
    (hsource : source.Clean) (hslash : '/' ∉ extension.toList)
    (hlength : 2 < extension.toList.length) :
    (ofSource cwd source moduleDirectory output extension).parts =
      (output.join ((source.resolve cwd).parent.relativeTo cwd moduleDirectory)).fold cwd ++
        [Path.stemOf (source.resolve cwd).name ++ extension] := by
  have hname := isName_append (Path.slash_stemOf (slash_name hcwd hsource)) hslash hlength
  rw [ofSource, Path.stem, Path.child, Path.ofString_name hname]
  exact Path.fold_onward cwd _ hname.up

/-- The system knows the path of what is generated if it knows all that comes in. -/
theorem hasNull_ofSource (hcwd : ∀ s ∈ cwd, Path.IsName s ∧ '\x00' ∉ s.toList)
    (houtput : output.hasNull = false) (hsource : source.Clean)
    (hknown : source.hasNull = false) (hslash : '/' ∉ extension.toList)
    (hlength : 2 < extension.toList.length) (hnull : '\x00' ∉ extension.toList) :
    (ofSource cwd source moduleDirectory output extension).hasNull = false := by
  have hfold : ∀ s ∈ source.fold cwd, '\x00' ∉ s.toList :=
    Path.hasNull_eq_false_iff.1 (Path.hasNull_resolve (fun s hs => (hcwd s hs).2) hknown)
  have hstraight := hsource.straight fun s hs => (hcwd s hs).1
  have hplace : ∀ s ∈ ((source.resolve cwd).parent.relativeTo cwd moduleDirectory).parts,
      '\x00' ∉ s.toList := by
    intro s hs
    rcases Path.mem_relativeTo hs with rfl | hs
    · decide
    · rw [hstraight.parent.fold] at hs
      exact hfold s (List.dropLast_subset _ hs)
  have hname : '\x00' ∉ (Path.stemOf (source.resolve cwd).name ++ extension).toList := by
    rw [String.toList_append, List.mem_append, not_or]
    refine ⟨fun h => ?_, hnull⟩
    have hmem := (Path.stemOf_prefix_name _).subset h
    rw [Path.name] at hmem
    cases hlast : (source.resolve cwd).parts.getLast? with
    | none => simp [hlast] at hmem
    | some name =>
      rw [hlast] at hmem
      exact hfold name (List.mem_of_getLast? hlast) hmem
  rw [Path.hasNull_eq_false_iff,
    parts_ofSource (fun s hs => (hcwd s hs).1) hsource hslash hlength]
  intro s hs
  rcases List.mem_append.1 hs with hs | hs
  · rcases Path.mem_fold hs with hs | ⟨hs, -⟩
    · exact (hcwd s hs).2
    · exact (List.mem_append.1 hs).elim (Path.hasNull_eq_false_iff.1 houtput s) (hplace s)
  · rwa [List.mem_singleton.1 hs]

/-- The path of what lies at the end of a way down. -/
private theorem parent_resolve {p : Path} {front place : List String} {name : String}
    (h : p.fold cwd = front ++ (place ++ [name])) :
    (p.resolve cwd).parent = .absolute (front ++ place) ∧ (p.resolve cwd).name = name := by
  rw [Path.resolve, h, ← List.append_assoc]
  exact ⟨by simp [Path.parent, Path.absolute], by simp [Path.name, Path.absolute]⟩

/-- The way from a directory to the directory of what lies below it. -/
private theorem relativeTo_parent {p start : Path} {place : List String} {name : String}
    (hdown : ".." ∉ start.fold cwd) (h : p.fold cwd = start.fold cwd ++ (place ++ [name]))
    (hplace : ".." ∉ place) :
    (p.resolve cwd).parent.relativeTo cwd start = ⟨.relative, place⟩ := by
  apply Path.relativeTo_below
  rw [(parent_resolve h).1]
  exact Path.fold_absolute cwd _ (by simp [hdown, hplace])

/-- What is generated for a file of the module lies under the output directory just as the file
lies under the module directory. -/
theorem ofSource_below (hdown : ".." ∉ moduleDirectory.fold cwd) {place : List String}
    {name : String} (hsource : source.fold cwd = moduleDirectory.fold cwd ++ (place ++ [name]))
    (hnames : ∀ s ∈ place ++ [name], Path.IsName s)
    (hslash : '/' ∉ extension.toList) (hlength : 2 < extension.toList.length) :
    ofSource cwd source moduleDirectory output extension =
      .absolute (output.fold cwd ++ (place ++ [Path.stemOf name ++ extension])) := by
  have hplace : ".." ∉ place := fun hm => (hnames _ (by simp [hm])).up rfl
  have hname := isName_append (Path.slash_stemOf (hnames name (by simp)).single) hslash hlength
  rw [ofSource, Path.stem, relativeTo_parent hdown hsource hplace, (parent_resolve hsource).2,
    Path.child, Path.ofString_name hname, Path.resolve,
    Path.fold_join_down cwd _ (by simpa using hname.up.symm), Path.fold_join_down cwd _ hplace,
    List.append_assoc]

/-! ## Back to the source -/

/-- The file under the module directory that one extension gives a generated file. -/
def candidate (cwd : List String) (moduleDirectory : Path) (place : List String)
    (stem extension : String) : Path :=
  ((moduleDirectory.join ⟨.relative, place⟩).child (stem ++ extension)).resolve cwd

theorem stemOf?_append {stem : String} (h : extension ≠ "") :
    stemOf? (stem ++ extension) extension = some stem := by
  rw [stemOf?, if_neg (by simpa using h), Text.beforeSuffix?_eq_some_iff]

/-- A generated file may belong to any of the files at its place under the module directory whose
names begin with its stem and go on with one of the extensions. -/
theorem candidates_below {generated : Path} {place : List String} {stem : String}
    {extensions : List String} (hdown : ".." ∉ output.fold cwd) (hplace : ".." ∉ place)
    (hgenerated : generated.fold cwd = output.fold cwd ++ (place ++ [stem ++ extension]))
    (hne : extension ≠ "") :
    candidates cwd generated moduleDirectory output extension extensions =
      extensions.map (candidate cwd moduleDirectory place stem) := by
  rw [candidates, (parent_resolve hgenerated).2, stemOf?_append hne]
  dsimp only
  rw [relativeTo_parent hdown hgenerated hplace]
  rfl

/-- An extension that only adds to the name gives a file in the directory itself. -/
theorem candidate_of_name {place : List String} {stem : String} (hplace : ".." ∉ place)
    (hname : Path.IsName (stem ++ extension)) :
    candidate cwd moduleDirectory place stem extension =
      .absolute (moduleDirectory.fold cwd ++ (place ++ [stem ++ extension])) := by
  rw [candidate, Path.child, Path.ofString_name hname, Path.resolve,
    Path.fold_join_down cwd _ (by simpa using hname.up.symm), Path.fold_join_down cwd _ hplace,
    List.append_assoc]

end GeneratedPath
end Introspect
