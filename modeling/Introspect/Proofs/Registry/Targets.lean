import Mathlib.Data.List.Chain
import Mathlib.Data.List.Nodup
import Mathlib.Data.List.Perm.Subperm
import Introspect.Proofs.Catalog
import Introspect.Registry.Query

/-! What an alias stands for, registered or not. The aliases that it leads to make one chain, which
ends at the first name that has no alias or was there before. The search for a class or an enum finds
that of the first alias in the chain that has one, in no more turns than the chain is long. -/
namespace Introspect.Registry
variable {α : Type}

/-- The alias that is registered under the name of what an alias stands for. -/
def next? (r : Registry) (a : AliasRecord) : Option AliasRecord :=
  r.aliases.find? a.target.qualifiedName

/-- Aliases from one onwards, each the next of the one before it, with no name twice. -/
structure IsPath (r : Registry) (a : AliasRecord) (path : List AliasRecord) : Prop where
  starts : path.head? = some a
  links : path.IsChain fun b c => r.next? b = some c
  names : (path.map AliasRecord.qualifiedName).Nodup

/-- The chain of an alias: a path whose last alias has no next, or one of a name that occurred. -/
structure IsChain (r : Registry) (a : AliasRecord) (chain : List AliasRecord) : Prop
    extends r.IsPath a chain where
  ends : ∀ b ∈ chain.getLast?, ∀ c, r.next? b = some c →
    c.qualifiedName ∈ chain.map AliasRecord.qualifiedName

/-- The search from an alias, or from none, with the names met before it, ends after a number of
turns with a result. Every turn is at an alias whose name was not met. -/
inductive Ends (r : Registry) (answer : AliasRecord → Option α) :
    List String → Option AliasRecord → Nat → Option α → Prop
  | nowhere {seen} : Ends r answer seen none 0 none
  | again {seen a} : a.qualifiedName ∈ seen → Ends r answer seen (some a) 0 none
  | answered {seen a x} : a.qualifiedName ∉ seen → answer a = some x →
      Ends r answer seen (some a) 1 (some x)
  | onward {seen a k o} : a.qualifiedName ∉ seen → answer a = none →
      Ends r answer (a.qualifiedName :: seen) (r.next? a) k o → Ends r answer seen (some a) (k + 1) o

variable {r : Registry} {answer : AliasRecord → Option α} {a b : AliasRecord} {o : Option α}
  {path chain passed rest : List AliasRecord} {seen : List String} {k n : Nat}

/-! ## The chain of an alias -/

theorem isPath_singleton (r : Registry) (a : AliasRecord) : r.IsPath a [a] :=
  ⟨rfl, List.isChain_singleton a, List.nodup_singleton _⟩

/-- All aliases of a path but the first are registered. -/
theorem IsPath.registered (h : r.IsPath a (a :: rest)) : ∀ b ∈ rest, b ∈ r.aliases.items := by
  intro b hb
  obtain ⟨i, hi, rfl⟩ := List.getElem_of_mem hb
  have hlink := List.isChain_iff_getElem.1 h.links i (by simpa using hi)
  exact Catalog.mem_of_find? hlink

theorem IsPath.length_le (h : r.IsPath a path) : path.length ≤ r.aliases.size + 1 := by
  obtain ⟨rest, rfl⟩ := List.head?_eq_some_iff.1 h.starts
  have hkeys : rest.map AliasRecord.qualifiedName ⊆ r.aliases.keys :=
    List.map_subset _ h.registered
  have hnodup := (List.nodup_cons.1 h.names).2
  have hle := (List.subperm_of_subset hnodup hkeys).length_le
  simpa [Catalog.keys, Catalog.size] using hle

theorem IsPath.concat {c : AliasRecord} (h : r.IsPath a (passed ++ [b])) (hnext : r.next? b = some c)
    (hnew : c.qualifiedName ∉ (passed ++ [b]).map AliasRecord.qualifiedName) :
    r.IsPath a (passed ++ [b] ++ [c]) where
  starts := by
    rw [List.head?_append_of_ne_nil _ (by simp)]
    exact h.starts
  links := by
    refine List.IsChain.append h.links (List.isChain_singleton c) ?_
    simp [hnext]
  names := by
    rw [List.map_append, List.nodup_append]
    refine ⟨h.names, List.nodup_singleton _, ?_⟩
    rintro n hn m hm rfl
    exact hnew (List.mem_singleton.1 hm ▸ hn)

/-- A path that is no chain goes on. -/
theorem IsPath.exists_concat (h : r.IsPath a path) (hopen : ¬ r.IsChain a path) :
    ∃ c, r.IsPath a (path ++ [c]) := by
  obtain rfl | ⟨passed, b, rfl⟩ := path.eq_nil_or_concat
  · cases h.starts
  · rw [List.concat_eq_append] at *
    by_contra hend
    refine hopen ⟨h, fun b' hb c hnext => ?_⟩
    obtain rfl : b = b' := by simpa using hb
    by_contra hnew
    exact hend ⟨c, h.concat hnext hnew⟩

/-- Every alias has a chain: no path is longer than the registered aliases are many, but for the
first alias. -/
theorem exists_chain (r : Registry) (a : AliasRecord) : ∃ chain, r.IsChain a chain := by
  by_contra hnone
  have hpaths : ∀ n, ∃ path, r.IsPath a path ∧ path.length = n + 1 := by
    intro n
    induction n with
    | zero => exact ⟨[a], isPath_singleton r a, rfl⟩
    | succ n ih =>
      obtain ⟨path, h, hlength⟩ := ih
      obtain ⟨c, hc⟩ := h.exists_concat fun hchain => hnone ⟨path, hchain⟩
      exact ⟨path ++ [c], hc, by simp [hlength]⟩
  obtain ⟨path, h, hlength⟩ := hpaths (r.aliases.size + 1)
  have hle := h.length_le
  omega

theorem IsPath.next?_eq {c : AliasRecord} (h : r.IsPath a (passed ++ b :: c :: rest)) :
    r.next? b = some c :=
  (List.isChain_append_cons_cons.1 h.links).2.1

theorem IsPath.not_mem {c : AliasRecord} (h : r.IsPath a (passed ++ b :: c :: rest)) :
    c.qualifiedName ∉ (passed ++ [b]).map AliasRecord.qualifiedName := by
  have hnames := h.names
  rw [List.append_cons, List.map_append, List.map_cons, List.nodup_append] at hnames
  exact fun hmem => hnames.2.2 _ hmem _ (List.mem_cons_self ..) rfl

/-- Where a chain ends no path goes on. -/
theorem IsChain.not_isPath {c : AliasRecord} (h : r.IsChain a (passed ++ [b])) :
    ¬ r.IsPath a (passed ++ b :: c :: rest) :=
  fun h' => h'.not_mem (h.ends b (by simp) c h'.next?_eq)

/-- The chain of a registered alias has the next of each of its aliases. -/
theorem IsChain.closed (h : r.IsChain a chain) (ha : a ∈ r.aliases.items) :
    ∀ b ∈ chain, ∀ c, r.next? b = some c → c ∈ chain := by
  intro b hb c hnext
  have hregistered : ∀ d ∈ chain, d ∈ r.aliases.items := by
    obtain ⟨rest, rfl⟩ := List.head?_eq_some_iff.1 h.starts
    exact List.forall_mem_cons.2 ⟨ha, h.registered⟩
  obtain ⟨passed, rest, rfl⟩ := List.append_of_mem hb
  cases rest with
  | nil =>
    obtain ⟨d, hd, hname⟩ := List.mem_map.1 (h.ends b (by simp) c hnext)
    obtain rfl := Catalog.eq_of_key_eq (hregistered d hd) (Catalog.mem_of_find? hnext) hname
    exact hd
  | cons d rest =>
    obtain rfl := Option.some.inj (h.next?_eq.symm.trans hnext)
    simp

private theorem IsChain.rest_unique {rest' : List AliasRecord}
    (h : r.IsChain a (passed ++ b :: rest)) (h' : r.IsChain a (passed ++ b :: rest')) :
    rest' = rest := by
  induction rest generalizing passed b rest' with
  | nil =>
    cases rest' with
    | nil => rfl
    | cons c rest' => exact absurd h'.toIsPath h.not_isPath
  | cons c rest ih =>
    cases rest' with
    | nil => exact absurd h.toIsPath h'.not_isPath
    | cons c' rest' =>
      obtain rfl : c = c' := Option.some.inj (h.next?_eq.symm.trans h'.next?_eq)
      rw [List.append_cons] at h h'
      rw [ih h h']

theorem IsChain.unique {chain' : List AliasRecord} (h : r.IsChain a chain)
    (h' : r.IsChain a chain') : chain' = chain := by
  obtain ⟨rest, rfl⟩ := List.head?_eq_some_iff.1 h.starts
  obtain ⟨rest', rfl⟩ := List.head?_eq_some_iff.1 h'.starts
  rw [IsChain.rest_unique (show r.IsChain a ([] ++ a :: rest) from h) h']

/-! ## The search along the chain -/

/-- From where it is in a chain the search turns to the rest of it, and ends at the first alias with
an answer or behind the last. -/
theorem IsChain.ends_findSome? (h : r.IsChain a (passed ++ b :: rest)) :
    ∃ k ≤ rest.length + 1, r.Ends answer (passed.map AliasRecord.qualifiedName).reverse (some b) k
      ((b :: rest).findSome? answer) := by
  have hnew : b.qualifiedName ∉ (passed.map AliasRecord.qualifiedName).reverse := by
    have hnames := h.names
    rw [List.map_append, List.map_cons, List.nodup_append] at hnames
    exact fun hmem => hnames.2.2 _ (List.mem_reverse.1 hmem) _ (List.mem_cons_self ..) rfl
  have hseen : b.qualifiedName :: (passed.map AliasRecord.qualifiedName).reverse =
      ((passed ++ [b]).map AliasRecord.qualifiedName).reverse := by simp
  induction rest generalizing passed b with
  | nil =>
    cases hx : answer b with
    | some x => exact ⟨1, by simp, by simpa [hx] using .answered hnew hx⟩
    | none =>
      have hlast : r.Ends answer ((passed ++ [b]).map AliasRecord.qualifiedName).reverse (r.next? b) 0
          none := by
        cases hnext : r.next? b with
        | none => exact .nowhere
        | some c => exact .again (List.mem_reverse.2 (h.ends b (by simp) c hnext))
      exact ⟨1, by simp, by simpa [hx] using .onward hnew hx (hseen ▸ hlast)⟩
  | cons c rest ih =>
    cases hx : answer b with
    | some x => exact ⟨1, by omega, by simpa [hx] using .answered hnew hx⟩
    | none =>
      have hnext : r.next? b = some c := h.next?_eq
      have h' : r.IsChain a ((passed ++ [b]) ++ c :: rest) := by simpa using h
      obtain ⟨k, hk, hrest⟩ := ih h' (mt List.mem_reverse.1 h.not_mem) (by simp)
      refine ⟨k + 1, by simpa using hk, ?_⟩
      rw [List.findSome?_cons, hx]
      exact .onward hnew hx (hnext ▸ hseen ▸ hrest)

theorem followFrom_of_mem (hmem : a.qualifiedName ∈ seen) : r.followFrom answer n seen a = none := by
  cases n with
  | zero => rfl
  | succ n => rw [followFrom, if_pos hmem]

/-- With as many turns as it takes, or more, the search has the result that it ends with. -/
theorem Ends.followFrom_eq (h : r.Ends answer seen (some a) k o) (hk : k ≤ n) :
    r.followFrom answer n seen a = o := by
  induction k generalizing seen a n with
  | zero =>
    cases h with
    | again hmem => exact followFrom_of_mem hmem
  | succ k ih =>
    obtain ⟨n, rfl⟩ : ∃ m, n = m + 1 := ⟨n - 1, by omega⟩
    cases h with
    | answered hnew hx => rw [followFrom, if_neg hnew, hx]
    | onward hnew hnone hrest =>
      rw [followFrom, if_neg hnew, hnone]
      cases hnext : r.next? a with
      | none =>
        rw [hnext] at hrest
        cases hrest
        simp [show r.aliases.find? a.target.qualifiedName = none from hnext]
      | some b =>
        rw [hnext] at hrest
        simpa [show r.aliases.find? a.target.qualifiedName = some b from hnext] using
          ih hrest (by omega)

/-- The search ends at the first alias of the chain with an answer. It takes one turn for each
registered alias at most, and one for the alias that it starts from. -/
theorem IsChain.follow_eq (h : r.IsChain a chain) (answer : AliasRecord → Option α) :
    r.follow answer a = chain.findSome? answer ∧
      ∃ k ≤ r.aliases.size + 1, r.Ends answer [] (some a) k (r.follow answer a) := by
  obtain ⟨rest, rfl⟩ := List.head?_eq_some_iff.1 h.starts
  obtain ⟨k, hk, hends⟩ := ends_findSome? (show r.IsChain a ([] ++ a :: rest) from h)
  have hle : k ≤ r.aliases.size + 1 := hk.trans h.length_le
  have hfollow : r.follow answer a = (a :: rest).findSome? answer := hends.followFrom_eq hle
  exact ⟨hfollow, k, hle, hfollow ▸ hends⟩

/-- The search by a target that every alias of the chain has in a form that can be looked up. -/
theorem IsChain.askTarget_eq (h : r.IsChain a chain) {target : AliasRecord → Given (Option String)}
    (htarget : ∀ b ∈ chain, (target b).toJson.isKey) (find : String → Option α) :
    r.askTarget target find a = .ok (r.follow (fun b => (target b).proper?.join.bind find) a) := by
  have hanswers : chain.findSome? (fun b => if (target b).toJson.isKey then
        ((target b).proper?.join.bind find).map Except.ok else some (.error .wrongShape)) =
      (chain.findSome? fun b => (target b).proper?.join.bind find).map
        (Except.ok : α → Except Failure α) := by
    clear h
    induction chain with
    | nil => rfl
    | cons b rest ih =>
      have hb := htarget b (List.mem_cons_self ..)
      have hrest := ih fun c hc => htarget c (List.mem_cons_of_mem _ hc)
      rw [List.findSome?_cons, List.findSome?_cons, if_pos hb, hrest]
      cases (target b).proper?.join.bind find <;> rfl
  rw [askTarget, (h.follow_eq _).1, hanswers, (h.follow_eq _).1]
  cases chain.findSome? fun b => (target b).proper?.join.bind find <;> rfl

/-- What every alias stands for, registered or not and whatever circles the aliases have: it has one
chain, and the class and the enum that it stands for are those of the first alias in the chain that has
one, if any has. Both searches end, after one turn for each registered alias and one more at most. They
are answered when the targets on the way can be looked up. -/
theorem underlying_of_chain (r : Registry) (a : AliasRecord) :
    ∃ chain, r.IsChain a chain ∧ (∀ chain', r.IsChain a chain' → chain' = chain) ∧
      (r.underlyingClass a = chain.findSome? fun b => b.className?.bind r.classes.find?) ∧
      (r.underlyingEnum a = chain.findSome? fun b => b.enumName?.bind r.enums.find?) ∧
      (∃ k ≤ r.aliases.size + 1, r.Ends (fun b => b.className?.bind r.classes.find?) [] (some a) k
        (r.underlyingClass a)) ∧
      (∃ k ≤ r.aliases.size + 1, r.Ends (fun b => b.enumName?.bind r.enums.find?) [] (some a) k
        (r.underlyingEnum a)) ∧
      ((∀ b ∈ chain, b.targetClass.toJson.isKey) →
        r.askTarget (·.targetClass) r.classes.find? a = .ok (r.underlyingClass a)) ∧
      ((∀ b ∈ chain, b.targetEnum.toJson.isKey) →
        r.askTarget (·.targetEnum) r.enums.find? a = .ok (r.underlyingEnum a)) := by
  obtain ⟨chain, h⟩ := exists_chain r a
  obtain ⟨hclass, hclassEnds⟩ := h.follow_eq fun b => b.className?.bind r.classes.find?
  obtain ⟨henum, henumEnds⟩ := h.follow_eq fun b => b.enumName?.bind r.enums.find?
  exact ⟨chain, h, fun _ => h.unique, hclass, henum, hclassEnds, henumEnds,
    fun hkeys => h.askTarget_eq hkeys _, fun hkeys => h.askTarget_eq hkeys _⟩

/-- An alias of a name for a name, with the name of its class. -/
def renamed (name target : String) (className : Option String) : AliasRecord :=
  ⟨.plain ⟨name, ""⟩ .invalid, .plain ⟨target, ""⟩ .invalid, .bare (.ofString "/module/tour.h") 1,
    .proper className, .proper none⟩

/-- A class, and two aliases that stand for each other. One names a class that is not there. -/
def tour : Registry :=
  { empty NameHash.crc32 with
    classes := .ofList [⟨.plain ⟨"Deck", ""⟩ .record, .bare (.ofString "/module/tour.h") 1, .structKey,
      false, [], [], [], .proper none⟩]
    aliases := .ofList [renamed "Round" "Trip" (some "Gone"), renamed "Trip" "Round" (some "Deck")] }

/-- An alias that is not registered leads into the circle. Its chain comes to the class behind the one
that is not there, and ends without an enum. -/
theorem underlying_of_chain_tour :
    let way := renamed "Way" "Round" none
    let chain := [way, renamed "Round" "Trip" (some "Gone"), renamed "Trip" "Round" (some "Deck")]
    tour.IsChain way chain ∧
      (∀ b ∈ chain, b.targetClass.toJson.isKey) ∧ (∀ b ∈ chain, b.targetEnum.toJson.isKey) ∧
      tour.askTarget (·.targetClass) tour.classes.find? way = .ok (tour.underlyingClass way) ∧
      tour.askTarget (·.targetEnum) tour.enums.find? way = .ok (tour.underlyingEnum way) ∧
      (tour.underlyingClass way).map ClassRecord.qualifiedName = some "Deck" ∧
      tour.underlyingEnum way = none := by
  intro way chain
  have hchain : tour.IsChain way chain := by
    refine ⟨⟨rfl, by decide +kernel, by decide +kernel⟩, ?_⟩
    intro b hb c hc
    obtain rfl : renamed "Trip" "Round" (some "Deck") = b := by simpa [chain] using hb
    have hround : tour.next? (renamed "Trip" "Round" (some "Deck")) =
        some (renamed "Round" "Trip" (some "Gone")) := by decide +kernel
    obtain rfl := Option.some.inj (hround.symm.trans hc)
    decide +kernel
  have hclassKeys : ∀ b ∈ chain, b.targetClass.toJson.isKey := by decide +kernel
  have henumKeys : ∀ b ∈ chain, b.targetEnum.toJson.isKey := by decide +kernel
  obtain ⟨chain', -, hunique, hclass, henum, -, -, hask, hask'⟩ := underlying_of_chain tour way
  obtain rfl := hunique chain hchain
  refine ⟨hchain, hclassKeys, henumKeys, hask hclassKeys, hask' henumKeys, ?_, ?_⟩
  · rw [hclass]
    decide +kernel
  · rw [henum]
    decide +kernel

end Introspect.Registry

/-! ## Where a chain of aliases leads

The search that follows it ends at the first alias with an answer, and is never cut short: the names
that it has seen and the number of its steps end only chains that have no answer. -/
namespace Introspect.Registry
variable {α : Type}

section chains
variable (r : Registry) (answer : AliasRecord → Option α)

/-- From alias to alias by the name of what each stands for, up to the first that has an answer. -/
inductive Leads : AliasRecord → α → Prop
  | here {a x} : answer a = some x → Leads a x
  | next {a b x} : answer a = none → r.aliases.find? a.target.qualifiedName = some b →
      Leads b x → Leads a x

end chains

variable {r : Registry} {answer : AliasRecord → Option α} {a : AliasRecord} {x y : α} {n : Nat}
  {seen : List String}

theorem Leads.unique (h : Leads r answer a x) (h' : Leads r answer a y) : x = y := by
  induction h with
  | here hx =>
    cases h' with
    | here hy => exact Option.some.inj (hx.symm.trans hy)
    | next hnone _ _ => simp [hx] at hnone
  | next hnone hb _ ih =>
    cases h' with
    | here hy => simp [hnone] at hy
    | next _ hb' hrest =>
      obtain rfl := Option.some.inj (hb.symm.trans hb')
      exact ih hrest

/-- Among aliases without an answer, none of which stands for another one, nothing leads to one. -/
theorem Leads.not_mem (h : Leads r answer a x) {l : List AliasRecord}
    (hnone : ∀ b ∈ l, answer b = none) (hclosed : ∀ b ∈ l, ∀ c, r.next? b = some c → c ∈ l) :
    a ∉ l := by
  induction h with
  | here hx => exact fun hmem => by simp [hnone _ hmem] at hx
  | next _ hb _ ih => exact fun hmem => ih (hclosed _ hmem _ hb)

private theorem leads_of_followFrom (h : r.followFrom answer n seen a = some x) :
    Leads r answer a x := by
  induction n generalizing seen a with
  | zero => cases h
  | succ n ih =>
    unfold followFrom at h
    split at h
    · cases h
    · split at h
      · next hx =>
        obtain rfl := Option.some.inj h
        exact .here hx
      · next hnone =>
        split at h
        · cases h
        · next hb => exact .next hnone hb (ih h)

/-- The search finds exactly what the chain leads to. -/
theorem follow_eq_some_iff (ha : a ∈ r.aliases.items) :
    r.follow answer a = some x ↔ Leads r answer a x := by
  constructor
  · exact leads_of_followFrom
  · intro h
    obtain ⟨chain, hchain⟩ := exists_chain r a
    have hfollow := (hchain.follow_eq answer).1
    cases hfirst : chain.findSome? answer with
    | none =>
      have hnone := List.findSome?_eq_none_iff.1 hfirst
      exact absurd (List.mem_of_mem_head? hchain.starts) (h.not_mem hnone (hchain.closed ha))
    | some y =>
      rw [hfollow, hfirst, h.unique (leads_of_followFrom (hfollow.trans hfirst))]

/-- A search by the names that aliases have. What an alias without a name leads to is what an alias
leads to that is called like its target. -/
theorem follow_bind_iff {name? : AliasRecord → Option String} {find : String → Option α} {n : String}
    {P : Prop} [Decidable P] (ha : a ∈ r.aliases.items)
    (hname : name? a = if P then some n else none) (hx : find n = some x) :
    r.follow (fun b => (name? b).bind find) a = some x ↔
      P ∨ ∃ b, r.aliases.find? a.target.qualifiedName = some b ∧
        r.Leads (fun b => (name? b).bind find) b x := by
  rw [follow_eq_some_iff ha]
  by_cases hP : P
  · have hhere : (name? a).bind find = some x := by simp [hname, hP, hx]
    exact iff_of_true (.here hhere) (.inl hP)
  · have hnone : (name? a).bind find = none := by simp [hname, hP]
    rw [or_iff_right hP]
    constructor
    · intro h
      cases h with
      | here hhere => simp [hnone] at hhere
      | next _ hb hrest => exact ⟨_, hb, hrest⟩
    · rintro ⟨b, hb, hrest⟩
      exact .next hnone hb hrest

end Introspect.Registry
