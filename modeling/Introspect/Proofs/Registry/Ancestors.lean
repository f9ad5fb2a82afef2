import Mathlib.Algebra.Order.BigOperators.Group.List
import Mathlib.Algebra.Order.Ring.Nat
import Mathlib.Data.List.Nodup
import Mathlib.Logic.Relation
import Introspect.Proofs.Catalog
import Introspect.Registry.Query

/-! The ancestors of a class. The search with a stack ends on every registry, and it finds what the
recursive search through the bases finds, in the same order: whatever is above the class. -/
namespace Introspect.Registry
open Relation (ReflTransGen TransGen)
variable {r : Registry} {c b x : ClassRecord} {n : String} {seen seen' names : List String}
  {stack found : List ClassRecord}

/-- A class names a registered class among its bases. -/
def Derives (r : Registry) (c b : ClassRecord) : Prop := b ∈ r.directBases c

theorem derives_iff : r.Derives c b ↔ b ∈ r.classes.items ∧ b.qualifiedName ∈ c.baseNames := by
  rw [Derives, directBases, List.mem_filterMap]
  constructor
  · rintro ⟨n, hn, hfind⟩
    obtain ⟨hb, rfl⟩ := Catalog.find?_eq_some_iff.1 hfind
    exact ⟨hb, hn⟩
  · rintro ⟨hb, hn⟩
    exact ⟨_, hn, Catalog.find?_of_mem hb⟩

/-! ## The recursive search -/

/-- The number of registered classes that were not seen. -/
def unseen (r : Registry) (seen : List String) : Nat := (r.classes.keys.filter (· ∉ seen)).length

theorem unseen_lt (hn : n ∈ r.classes.keys) (hnew : n ∉ seen) (hseen : n :: seen ⊆ seen') :
    r.unseen seen' < r.unseen seen := by
  have hfewer : r.classes.keys.filter (· ∉ seen') =
      (r.classes.keys.filter (· ∉ seen)).filter (· ∉ seen') := by
    rw [List.filter_filter]
    refine List.filter_congr fun m _ => ?_
    have hmore : m ∉ seen' → m ∉ seen := fun h hm => h (hseen (List.mem_cons_of_mem _ hm))
    by_cases hm : m ∈ seen' <;> simp_all
  rw [unseen, unseen, hfewer, List.length_filter_lt_length_iff_exists]
  exact ⟨n, List.mem_filter.2 ⟨hn, by simpa using hnew⟩,
    by simpa using hseen (List.mem_cons_self ..)⟩

/-- The classes of some names with everything above them, apart from those seen, in the order in
which a recursive search comes to them. It goes from a class that was not seen through its bases
before it turns to the next name, and what it has seen it never goes through again. -/
def depthFirst (r : Registry) (seen : List String) (names : List String) : List ClassRecord :=
  match names with
  | [] => []
  | n :: rest =>
    match _hfind : r.classes.find? n with
    | none => r.depthFirst seen rest
    | some c =>
      if _hseen : n ∈ seen then r.depthFirst seen rest
      else
        let above := r.depthFirst (n :: seen) c.baseNames
        c :: above ++ r.depthFirst ((above.map ClassRecord.qualifiedName).reverse ++ n :: seen) rest
termination_by (r.unseen seen, names.length)
decreasing_by
  · exact .right _ (by simp)
  · exact .right _ (by simp)
  · exact .left _ _ (unseen_lt (Catalog.mem_keys_of_find? _hfind) _hseen (List.Subset.refl _))
  · exact .left _ _ (unseen_lt (Catalog.mem_keys_of_find? _hfind) _hseen (List.subset_append_right ..))

/-- Where a class that the search finds is: registered, new, and above one of the names. -/
theorem mem_depthFirst (h : x ∈ r.depthFirst seen names) :
    x ∈ r.classes.items ∧ x.qualifiedName ∉ seen ∧
      ∃ n ∈ names, ∃ b, r.classes.find? n = some b ∧ ReflTransGen r.Derives b x := by
  fun_induction depthFirst r seen names with
  | case1 => simp at h
  | case2 seen n rest hfind ih =>
    obtain ⟨hx, hnew, m, hm, hpath⟩ := ih h
    exact ⟨hx, hnew, m, List.mem_cons_of_mem _ hm, hpath⟩
  | case3 seen n rest c hfind hseen ih =>
    obtain ⟨hx, hnew, m, hm, hpath⟩ := ih h
    exact ⟨hx, hnew, m, List.mem_cons_of_mem _ hm, hpath⟩
  | case4 seen n rest c hfind hseen above ihabove ihrest =>
    obtain ⟨hc, hname⟩ := Catalog.find?_eq_some_iff.1 hfind
    rw [List.cons_append, List.mem_cons, List.mem_append] at h
    obtain rfl | h | h := h
    · exact ⟨hc, hname ▸ hseen, n, List.mem_cons_self .., x, hfind, .refl⟩
    · obtain ⟨hx, hnew, m, hm, b, hb, hpath⟩ := ihabove h
      have hbase : r.Derives c b := List.mem_filterMap.2 ⟨m, hm, hb⟩
      exact ⟨hx, fun hx => hnew (List.mem_cons_of_mem _ hx), n, List.mem_cons_self .., c, hfind,
        .head hbase hpath⟩
    · obtain ⟨hx, hnew, m, hm, hpath⟩ := ihrest h
      refine ⟨hx, fun hx => hnew ?_, m, List.mem_cons_of_mem _ hm, hpath⟩
      exact List.mem_append_right _ (List.mem_cons_of_mem _ hx)

/-- No class is found twice. -/
theorem nodup_depthFirst (r : Registry) (seen names : List String) :
    ((r.depthFirst seen names).map ClassRecord.qualifiedName).Nodup := by
  fun_induction depthFirst r seen names with
  | case1 => exact .nil
  | case2 seen n rest hfind ih => exact ih
  | case3 seen n rest c hfind hseen ih => exact ih
  | case4 seen n rest c hfind hseen above ihabove ihrest =>
    obtain ⟨-, hname⟩ := Catalog.find?_eq_some_iff.1 hfind
    have hnew : ∀ m ∈ above.map ClassRecord.qualifiedName, m ∉ n :: seen := by
      rintro m hm
      obtain ⟨x, hx, rfl⟩ := List.mem_map.1 hm
      exact (mem_depthFirst hx).2.1
    rw [List.cons_append, List.map_cons, List.map_append, List.nodup_cons, hname]
    refine ⟨fun hmem => ?_, List.Nodup.append ihabove ihrest fun m hm hrest => ?_⟩
    · obtain hm | hm := List.mem_append.1 hmem
      · exact hnew n hm (List.mem_cons_self ..)
      · obtain ⟨x, hx, hxn⟩ := List.mem_map.1 hm
        exact (mem_depthFirst hx).2.1 (by simp [hxn])
    · obtain ⟨x, hx, rfl⟩ := List.mem_map.1 hrest
      exact (mem_depthFirst hx).2.1 (List.mem_append_left _ (List.mem_reverse.2 hm))

/-- Of some names, those that a class is registered under are all met. -/
def Meets (r : Registry) (met names : List String) : Prop :=
  ∀ n ∈ names, n ∈ r.classes.keys → n ∈ met

theorem Meets.mono {met met' : List String} (h : r.Meets met names) (hmet : met ⊆ met') :
    r.Meets met' names :=
  fun n hn hkey => hmet (h n hn hkey)

/-- A search meets the registered names that it is given and those of the bases of whatever it
finds. -/
theorem meets_depthFirst (r : Registry) (seen names : List String) :
    r.Meets ((r.depthFirst seen names).map ClassRecord.qualifiedName ++ seen) names ∧
      ∀ x ∈ r.depthFirst seen names,
        r.Meets ((r.depthFirst seen names).map ClassRecord.qualifiedName ++ seen) x.baseNames := by
  fun_induction depthFirst r seen names with
  | case1 => simp [Meets]
  | case2 seen n rest hfind ih =>
    refine ⟨fun m hm hkey => ?_, ih.2⟩
    obtain rfl | hm := List.mem_cons.1 hm
    · exact absurd hkey (Catalog.find?_eq_none_iff.1 hfind)
    · exact ih.1 m hm hkey
  | case3 seen n rest c hfind hseen ih =>
    refine ⟨fun m hm hkey => ?_, ih.2⟩
    obtain rfl | hm := List.mem_cons.1 hm
    · exact List.mem_append_right _ hseen
    · exact ih.1 m hm hkey
  | case4 seen n rest c hfind hseen above ihabove ihrest =>
    obtain ⟨-, hname⟩ := Catalog.find?_eq_some_iff.1 hfind
    let others := r.depthFirst ((above.map ClassRecord.qualifiedName).reverse ++ n :: seen) rest
    let met := (c :: above ++ others).map ClassRecord.qualifiedName ++ seen
    have hn : n ∈ met := by simp [met, hname]
    have habove : above.map ClassRecord.qualifiedName ++ n :: seen ⊆ met := by
      intro m hm
      simp only [met, List.cons_append, List.map_cons, List.map_append, hname, List.mem_append,
        List.mem_cons] at hm ⊢
      tauto
    have hothers : others.map ClassRecord.qualifiedName ++
        ((above.map ClassRecord.qualifiedName).reverse ++ n :: seen) ⊆ met := by
      intro m hm
      simp only [met, List.cons_append, List.map_cons, List.map_append, hname, List.mem_append,
        List.mem_cons, List.mem_reverse] at hm ⊢
      tauto
    refine ⟨fun m hm hkey => ?_, fun x hx => ?_⟩
    · obtain rfl | hm := List.mem_cons.1 hm
      · exact hn
      · exact ihrest.1.mono hothers m hm hkey
    · rw [List.cons_append, List.mem_cons, List.mem_append] at hx
      obtain rfl | hx | hx := hx
      · exact ihabove.1.mono habove
      · exact (ihabove.2 x hx).mono habove
      · exact (ihrest.2 x hx).mono hothers

/-- The recursive search from the bases of a registered class finds what is above the class. -/
theorem mem_depthFirst_iff (hc : c ∈ r.classes.items) :
    x ∈ r.depthFirst [c.qualifiedName] c.baseNames ↔ x ≠ c ∧ TransGen r.Derives c x := by
  constructor
  · intro hx
    obtain ⟨-, hnew, n, hn, b, hfind, hpath⟩ := mem_depthFirst hx
    have hbase : r.Derives c b := List.mem_filterMap.2 ⟨n, hn, hfind⟩
    refine ⟨?_, .head' hbase hpath⟩
    rintro rfl
    exact hnew (List.mem_singleton_self _)
  · rintro ⟨hne, hpath⟩
    obtain ⟨hbases, hfound⟩ := meets_depthFirst r [c.qualifiedName] c.baseNames
    have hmeets : ∀ y, y = c ∨ y ∈ r.depthFirst [c.qualifiedName] c.baseNames →
        ∀ z, r.Derives y z → z = c ∨ z ∈ r.depthFirst [c.qualifiedName] c.baseNames := by
      intro y hy z hyz
      obtain ⟨hz, hname⟩ := derives_iff.1 hyz
      have hmet := (hy.elim (fun h => h ▸ hbases) (hfound y)) _ hname (Catalog.key_mem_keys hz)
      obtain hmet | hmet := List.mem_append.1 hmet
      · obtain ⟨w, hw, hwz⟩ := List.mem_map.1 hmet
        rw [← Catalog.eq_of_key_eq (mem_depthFirst hw).1 hz hwz]
        exact .inr hw
      · exact .inl (Catalog.eq_of_key_eq hz hc (List.mem_singleton.1 hmet))
    have habove : ∀ y, TransGen r.Derives c y →
        y = c ∨ y ∈ r.depthFirst [c.qualifiedName] c.baseNames := by
      intro y hy
      induction hy with
      | single h => exact hmeets c (.inl rfl) _ h
      | tail _ h ih => exact hmeets _ ih _ h
    exact (habove x hpath).resolve_left hne

/-! ## The search with a stack -/

/-- Where the search with a stack stands: the names it has seen, the classes it has yet to come to,
and those it has found. -/
structure Climb where
  seen : List String
  stack : List ClassRecord
  found : List ClassRecord

/-- Before the first turn the class itself counts as seen and its bases are on the stack. -/
def Climb.start (r : Registry) (c : ClassRecord) : Climb := ⟨[c.qualifiedName], r.directBases c, []⟩

/-- One turn of the search takes the class on top of the stack. It passes over a class that was
seen, and otherwise puts the bases of the class on the stack. -/
inductive Turn (r : Registry) : Climb → Climb → Prop
  | pass {seen : List String} {c : ClassRecord} {stack found : List ClassRecord}
      (hseen : c.qualifiedName ∈ seen) : Turn r ⟨seen, c :: stack, found⟩ ⟨seen, stack, found⟩
  | visit {seen : List String} {c : ClassRecord} {stack found : List ClassRecord}
      (hnew : c.qualifiedName ∉ seen) : Turn r ⟨seen, c :: stack, found⟩
        ⟨c.qualifiedName :: seen, r.directBases c ++ stack, found ++ [c]⟩

theorem Turn.rightUnique (r : Registry) : Relator.RightUnique r.Turn := by
  rintro s t u (hseen | hnew) (hseen' | hnew')
  · rfl
  · exact absurd hseen hnew'
  · exact absurd hseen' hnew
  · rfl

/-- With an empty stack the search is over. -/
theorem Climb.eq_of_turns {s t : Climb} (hs : s.stack = []) (h : ReflTransGen r.Turn s t) :
    s = t := by
  induction h using ReflTransGen.head_induction_on with
  | refl => rfl
  | head h _ _ => cases h <;> cases hs

/-- While it has nothing else to do, the search goes through names and what is above them just as
the recursive one does. -/
theorem turns_depthFirst (r : Registry) (seen names : List String)
    (stack found : List ClassRecord) :
    ReflTransGen r.Turn ⟨seen, names.filterMap r.classes.find? ++ stack, found⟩
      ⟨((r.depthFirst seen names).map ClassRecord.qualifiedName).reverse ++ seen, stack,
        found ++ r.depthFirst seen names⟩ := by
  fun_induction depthFirst r seen names generalizing stack found with
  | case1 seen => simpa using ReflTransGen.refl
  | case2 seen n rest hfind ih =>
    rw [List.filterMap_cons_none hfind]
    exact ih stack found
  | case3 seen n rest c hfind hseen ih =>
    obtain ⟨-, rfl⟩ := Catalog.find?_eq_some_iff.1 hfind
    rw [List.filterMap_cons_some hfind]
    exact .head (.pass hseen) (ih stack found)
  | case4 seen n rest c hfind hseen above ihabove ihrest =>
    obtain ⟨-, rfl⟩ := Catalog.find?_eq_some_iff.1 hfind
    rw [List.filterMap_cons_some hfind]
    have habove := ihabove (rest.filterMap r.classes.find? ++ stack) (found ++ [c])
    have hrest := ihrest stack (found ++ [c] ++ above)
    have hturns := (habove.trans hrest).head (.visit hseen)
    simpa using hturns

/-- The turns that are still to come: one for each class on the stack and for each base of a
registered class that was not seen. -/
def turnsLeft (r : Registry) (s : Climb) : Nat :=
  s.stack.length + ((r.classes.items.filter fun x => x.qualifiedName ∉ s.seen).map fun x =>
    (r.directBases x).length).sum

private theorem sum_bases_visit (hc : c ∈ r.classes.items) (hnew : c.qualifiedName ∉ seen) :
    ((r.classes.items.filter fun x => x.qualifiedName ∉ c.qualifiedName :: seen).map fun x =>
        (r.directBases x).length).sum + (r.directBases c).length =
      ((r.classes.items.filter fun x => x.qualifiedName ∉ seen).map fun x =>
        (r.directBases x).length).sum := by
  have hmem : c ∈ r.classes.items.filter fun x => x.qualifiedName ∉ seen :=
    List.mem_filter.2 ⟨hc, by simpa using hnew⟩
  have hnodup : (r.classes.items.filter fun x => x.qualifiedName ∉ seen).Nodup :=
    (List.Nodup.of_map _ r.classes.nodup).filter _
  have herase : (r.classes.items.filter fun x => x.qualifiedName ∉ c.qualifiedName :: seen) =
      (r.classes.items.filter fun x => x.qualifiedName ∉ seen).erase c := by
    rw [hnodup.erase_eq_filter, List.filter_filter]
    refine List.filter_congr fun x hx => ?_
    have hkey : x.qualifiedName = c.qualifiedName ↔ x = c :=
      ⟨Catalog.eq_of_key_eq hx hc, fun h => h ▸ rfl⟩
    by_cases h : x = c <;> simp [hkey, h]
  rw [herase, Nat.add_comm]
  exact List.sum_map_erase (fun x => (r.directBases x).length) hmem

/-- Each turn is one of those that were to come, and all classes on the stack stay registered. -/
theorem Turn.left {s t : Climb} (h : r.Turn s t) (hs : s.stack ⊆ r.classes.items) :
    r.turnsLeft t + 1 = r.turnsLeft s ∧ t.stack ⊆ r.classes.items := by
  cases h with
  | @pass seen c stack found hseen =>
    refine ⟨?_, fun x hx => hs (List.mem_cons_of_mem _ hx)⟩
    simp only [turnsLeft, List.length_cons]
    omega
  | @visit seen c stack found hnew =>
    have hc : c ∈ r.classes.items := hs (List.mem_cons_self ..)
    refine ⟨?_, fun x hx => ?_⟩
    · have hsum := sum_bases_visit hc hnew
      simp only [turnsLeft, List.length_cons, List.length_append]
      omega
    · obtain hx | hx := List.mem_append.1 hx
      · exact (derives_iff.1 hx).1
      · exact hs (List.mem_cons_of_mem _ hx)

/-- With as many turns as are to come the search is over. -/
theorem turns_ancestorsFrom {k : Nat} (hstack : stack ⊆ r.classes.items)
    (hk : r.turnsLeft ⟨seen, stack, found⟩ ≤ k) :
    ∃ seen', ReflTransGen r.Turn ⟨seen, stack, found⟩
      ⟨seen', [], found ++ r.ancestorsFrom k seen stack⟩ := by
  induction k generalizing seen stack found with
  | zero =>
    have hnil : stack = [] := by
      simp only [turnsLeft, Nat.le_zero, Nat.add_eq_zero_iff, List.length_eq_zero_iff] at hk
      exact hk.1
    subst hnil
    exact ⟨seen, by simpa [ancestorsFrom] using ReflTransGen.refl⟩
  | succ k ih =>
    cases stack with
    | nil => exact ⟨seen, by simpa [ancestorsFrom] using ReflTransGen.refl⟩
    | cons c stack =>
      by_cases hc : c.qualifiedName ∈ seen
      · have hturn : r.Turn ⟨seen, c :: stack, found⟩ ⟨seen, stack, found⟩ := .pass hc
        obtain ⟨hleft, hrest⟩ := hturn.left hstack
        have hk' : r.turnsLeft ⟨seen, stack, found⟩ ≤ k := by omega
        obtain ⟨seen', hturns⟩ := ih hrest hk'
        rw [ancestorsFrom, if_pos hc]
        exact ⟨seen', hturns.head hturn⟩
      · have hturn : r.Turn ⟨seen, c :: stack, found⟩
            ⟨c.qualifiedName :: seen, r.directBases c ++ stack, found ++ [c]⟩ := .visit hc
        obtain ⟨hleft, hrest⟩ := hturn.left hstack
        have hk' : r.turnsLeft ⟨c.qualifiedName :: seen, r.directBases c ++ stack, found ++ [c]⟩ ≤
            k := by omega
        obtain ⟨seen', hturns⟩ := ih hrest hk'
        rw [ancestorsFrom, if_neg hc]
        exact ⟨seen', by simpa using hturns.head hturn⟩

private theorem linkCount_eq (r : Registry) :
    r.linkCount = (r.classes.items.map fun x => x.baseNames.length).sum := by
  rw [linkCount, List.sum_eq_foldl, List.foldl_map]

/-- No more turns are to come at the start than there are base links. -/
theorem turnsLeft_start (r : Registry) (c : ClassRecord) :
    r.turnsLeft (.start r c) ≤ r.linkCount + c.baseNames.length := by
  have hlength : ∀ x : ClassRecord, (r.directBases x).length ≤ x.baseNames.length := fun x =>
    List.length_filterMap_le _ _
  have hsum : ((r.classes.items.filter fun x => x.qualifiedName ∉ [c.qualifiedName]).map fun x =>
      (r.directBases x).length).sum ≤ r.linkCount := by
    rw [linkCount_eq]
    refine (List.sum_le_sum fun x _ => hlength x).trans ?_
    exact (List.filter_sublist.map _).sum_le_sum (by simp)
  calc r.turnsLeft (.start r c) ≤ c.baseNames.length + r.linkCount :=
        Nat.add_le_add (hlength c) hsum
    _ = r.linkCount + c.baseNames.length := Nat.add_comm ..

/-- The search with a stack comes to an end, with the ancestors of the class. -/
theorem turns_ancestors (r : Registry) (c : ClassRecord) :
    ∃ seen, ReflTransGen r.Turn (.start r c) ⟨seen, [], r.ancestors c⟩ := by
  have hstack : r.directBases c ⊆ r.classes.items := fun x hx => (derives_iff.1 hx).1
  exact turns_ancestorsFrom hstack ((turnsLeft_start r c).trans (Nat.le_succ _))

/-- The ancestors are what the recursive search finds, as it finds them. -/
theorem ancestors_eq (r : Registry) (c : ClassRecord) :
    r.ancestors c = r.depthFirst [c.qualifiedName] c.baseNames := by
  obtain ⟨seen, hstack⟩ := turns_ancestors r c
  have hrecursive := turns_depthFirst r [c.qualifiedName] c.baseNames [] []
  rw [List.append_nil, List.nil_append] at hrecursive
  obtain h | h := ReflTransGen.total_of_right_unique (Turn.rightUnique r) hstack hrecursive
  · exact congrArg Climb.found (Climb.eq_of_turns rfl h)
  · exact (congrArg Climb.found (Climb.eq_of_turns rfl h)).symm

/-- Whatever the bases are, the question for all ancestors of a registered class is answered. The
search ends, from wherever it is; it finds what the recursive search through the bases finds, in the
same order; and that is each class above the asked one once, and nothing else. -/
theorem askBases_recursive (hc : c ∈ r.classes.items) (hkeys : ∀ x ∈ r.classes.items, hasKeys x) :
    ∃ above seen, r.askBases c true = .ok above ∧
      (∀ s, ReflTransGen r.Turn (.start r c) s → ReflTransGen r.Turn s ⟨seen, [], above⟩) ∧
      above = r.depthFirst [c.qualifiedName] c.baseNames ∧
      (above.map ClassRecord.qualifiedName).Nodup ∧
      ∀ x, x ∈ above ↔ x ≠ c ∧ x ∈ r.classes.items ∧ TransGen r.Derives c x := by
  obtain ⟨seen, hend⟩ := turns_ancestors r c
  have hfound : ∀ x, x ∈ r.ancestors c ↔ x ≠ c ∧ x ∈ r.classes.items ∧ TransGen r.Derives c x := by
    intro x
    rw [ancestors_eq, mem_depthFirst_iff hc]
    refine ⟨fun ⟨hne, habove⟩ => ⟨hne, ?_, habove⟩, fun ⟨hne, _, habove⟩ => ⟨hne, habove⟩⟩
    obtain ⟨_, -, hlast⟩ := TransGen.tail'_iff.1 habove
    exact (derives_iff.1 hlast).1
  refine ⟨r.ancestors c, seen, ?_, fun s hs => ?_, ancestors_eq r c, ?_, hfound⟩
  · have hall : (c :: r.ancestors c).all hasKeys = true := by
      rw [List.all_eq_true]
      rintro x hx
      obtain rfl | hx := List.mem_cons.1 hx
      · exact hkeys x hc
      · exact hkeys x ((hfound x).1 hx).2.1
    exact if_pos hall
  · obtain h | h := ReflTransGen.total_of_right_unique (Turn.rightUnique r) hs hend
    · exact h
    · rw [Climb.eq_of_turns rfl h]
  · rw [ancestors_eq]
    exact nodup_depthFirst r _ _

/-- A class with the given bases. -/
def derived (name : String) (bases : List String) : ClassRecord :=
  ⟨.plain ⟨name, ""⟩ .record, .bare (.ofString "/module/tiers.h") 1, .structKey, false, [], [],
    bases.map .proper, .proper none⟩

/-- A diamond with a base named twice, a base that is not registered, and a way back from the top. -/
def tiers : Registry :=
  { empty NameHash.crc32 with
    classes := .ofList [derived "Top" ["Bottom"], derived "Left" ["Top"],
      derived "Right" ["Top", "Elsewhere"], derived "Bottom" ["Left", "Right", "Left"]] }

/-- In a diamond that comes round to itself each class above another is found once. -/
theorem askBases_recursive_tiers :
    let bottom := derived "Bottom" ["Left", "Right", "Left"]
    bottom ∈ tiers.classes.items ∧ (∀ x ∈ tiers.classes.items, hasKeys x) ∧
      ∃ above, tiers.askBases bottom true = .ok above ∧
        above = [derived "Left" ["Top"], derived "Top" ["Bottom"],
          derived "Right" ["Top", "Elsewhere"]] := by
  intro bottom
  have hbottom : bottom ∈ tiers.classes.items := by decide +kernel
  have hkeys : ∀ x ∈ tiers.classes.items, hasKeys x := by decide +kernel
  obtain ⟨above, seen, hasked, -, -, -, -⟩ := askBases_recursive hbottom hkeys
  refine ⟨hbottom, hkeys, above, hasked, ?_⟩
  have hanswer : (tiers.askBases bottom true).toOption = some [derived "Left" ["Top"],
      derived "Top" ["Bottom"], derived "Right" ["Top", "Elsewhere"]] := by decide +kernel
  rw [hasked] at hanswer
  exact Option.some.inj hanswer

end Introspect.Registry
