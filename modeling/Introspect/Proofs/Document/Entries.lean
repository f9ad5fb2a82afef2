import Introspect.Proofs.Document.Types
import Introspect.Proofs.Relation

/-! Tables of types in any document. Following names only adds to what was built, and each type
that was built can be read off its entry again when nothing is left to build. -/
namespace Introspect.Document
variable {α β : Type}

/-! ## Readings that go well, if at all -/

/-- Where the reading succeeds, what was built satisfies `inv` if it did before, and what was read
satisfies `post`. -/
def Reads (inv : Table Json CppType → Prop) (m : Decoding α) (post : α → Prop) : Prop :=
  ∀ s a s', inv s → m.run s = .ok (a, s') → inv s' ∧ post a

namespace Reads
variable {inv : Table Json CppType → Prop} {post : α → Prop}

theorem pure {a : α} (h : post a) : Reads inv (Pure.pure a) post := by
  rintro s _ _ hs ⟨⟩
  exact ⟨hs, h⟩

theorem lift {x : Except Failure α} (h : ∀ a, x = .ok a → post a) : Reads inv (liftM x) post := by
  intro s a s' hs hrun
  obtain ⟨hx, rfl⟩ := run_lift_ok_iff.1 hrun
  exact ⟨hs, h a hx⟩

theorem bind {m : Decoding α} {f : α → Decoding β} {post' : β → Prop} (hm : Reads inv m post)
    (hf : ∀ a, post a → Reads inv (f a) post') : Reads inv (m >>= f) post' := by
  intro s b s'' hs hrun
  obtain ⟨a, s', hfirst, hrest⟩ := run_bind_ok_iff.1 hrun
  obtain ⟨hs', ha⟩ := hm s a s' hs hfirst
  exact hf a ha s' b s'' hs' hrest

/-- A value that is read without looking at types leaves what was built alone. -/
theorem lift_bind {x : Except Failure α} {f : α → Decoding β} {post' : β → Prop}
    (hf : ∀ a, x = .ok a → Reads inv (f a) post') : Reads inv (liftM x >>= f) post' :=
  bind (lift fun _ h => h) hf

/-- Nothing is said of what was built or of what was read. -/
theorem any (m : Decoding α) : Reads (fun _ => True) m fun _ => True :=
  fun _ _ _ _ _ => ⟨trivial, trivial⟩

theorem mapM {read : β → Decoding α} {l : List β} (h : ∀ b ∈ l, Reads inv (read b) post) :
    Reads inv (l.mapM read) fun as => ∀ a ∈ as, post a := by
  induction l with
  | nil =>
    rw [List.mapM_nil]
    exact .pure (by simp)
  | cons b l ih =>
    rw [List.mapM_cons]
    refine (h b (by simp)).bind fun a ha => ?_
    refine (ih fun c hc => h c (by simp [hc])).bind fun as has => .pure ?_
    exact List.forall_mem_cons.2 ⟨ha, has⟩

theorem foldlM {step : α → β → Decoding α} {l : List β}
    (h : ∀ a b, post a → Reads inv (step a b) post) {a : α} (ha : post a) :
    Reads inv (l.foldlM step a) post := by
  induction l generalizing a with
  | nil => exact .pure ha
  | cons b l ih =>
    rw [List.foldlM_cons]
    exact (h a b ha).bind fun _ => ih

end Reads

/-- The name and the namespace that an entry gives its type. -/
def spelled (e : Json) : QualifiedName :=
  ⟨.ofJson (optional e "name" (.text "")), .ofJson (optional e "namespace" (.text ""))⟩

theorem member?_of_required {j v : Json} {name : String} (h : required j name = .ok v) :
    j.member? name = some v := by
  cases j with
  | object ms =>
    cases hm : (Json.object ms).member? name with
    | none =>
      rw [required, hm] at h
      cases h
    | some w =>
      rw [required_object hm] at h
      cases h
      rfl
  | _ => cases h

theorem optional_of_required {j v default : Json} {name : String}
    (h : required j name = .ok v) : optional j name default = v := by
  rw [optional, member?_of_required h]
  rfl

/-- A type has the name of its entry and arguments that were looked up. -/
theorem reads_typeOfEntry {inv : Table Json CppType → Prop} {look : Json → Decoding CppType}
    {post : CppType → Prop} (hlook : ∀ j, Reads inv (look j) post) (e : Json) :
    Reads inv (typeOfEntry look e) fun t => t.id = spelled e ∧ ∀ a ∈ t.arguments, post a := by
  have htemplate : Reads inv (templateOf look e) fun template =>
      ∀ found, template = some found → ∀ a ∈ found.2, post a := by
    rw [templateOf]
    dsimp only
    split
    · refine .pure fun found hfound => ?_
      cases hfound
    · refine .lift_bind fun kind _ => .lift_bind fun names _ => ?_
      refine (Reads.mapM fun j _ => hlook j).bind fun arguments harguments => ?_
      split
      · refine .lift_bind fun _ hfail => ?_
        cases hfail
      · refine .pure ?_
        rintro _ ⟨⟩
        exact harguments
  rw [typeOfEntry]
  refine htemplate.bind fun template harguments => ?_
  refine .lift_bind fun name hname => .lift_bind fun kind _ => ?_
  have hid : (⟨.ofJson name, .ofJson (optional e "namespace" (.text ""))⟩ : QualifiedName) =
      spelled e := by
    rw [spelled, optional_of_required hname]
  dsimp only
  rw [hid]
  cases template with
  | none => exact .pure ⟨rfl, by simp [CppType.arguments]⟩
  | some found =>
    refine .pure ⟨CppType.id_build .., ?_⟩
    rw [CppType.arguments_build]
    exact harguments found rfl

/-! ## Reading again -/

/-- What was built stays. -/
def Grows (s s' : Table Json CppType) : Prop := ∀ k t, s.find? k = some t → s'.find? k = some t

theorem Grows.refl (s : Table Json CppType) : Grows s s := fun _ _ => id

theorem Grows.trans {s s' s'' : Table Json CppType} (h : Grows s s') (h' : Grows s' s'') :
    Grows s s'' :=
  fun k t ht => h' k t (h k t ht)

/-- The reading leaves what was built, and what it gives can be read by `again` without building
anything, now and later. -/
def Settles (inv : Table Json CppType → Prop) (m again : Decoding α) : Prop :=
  ∀ s a s', inv s → m.run s = .ok (a, s') →
    Grows s s' ∧ inv s' ∧ ∀ s'', Grows s' s'' → again.run s'' = .ok (a, s'')

namespace Settles
variable {inv : Table Json CppType → Prop}

theorem pure (a : α) : Settles inv (Pure.pure a) (Pure.pure a) := by
  rintro s _ _ hs ⟨⟩
  exact ⟨.refl s, hs, fun _ _ => rfl⟩

theorem lift (x : Except Failure α) : Settles inv (liftM x) (liftM x) := by
  intro s a s' hs hrun
  obtain ⟨rfl, rfl⟩ := run_lift_ok_iff.1 hrun
  exact ⟨.refl s', hs, fun _ _ => rfl⟩

theorem bind {m m' : Decoding α} {f f' : α → Decoding β} (hm : Settles inv m m')
    (hf : ∀ a, Settles inv (f a) (f' a)) : Settles inv (m >>= f) (m' >>= f') := by
  intro s b s'' hs hrun
  obtain ⟨a, s', hfirst, hrest⟩ := run_bind_ok_iff.1 hrun
  obtain ⟨hgrows, hs', hagain⟩ := hm s a s' hs hfirst
  obtain ⟨hgrows', hs'', hagain'⟩ := hf a s' b s'' hs' hrest
  refine ⟨hgrows.trans hgrows', hs'', fun s₁ hs₁ => ?_⟩
  exact run_bind_ok_iff.2 ⟨a, s₁, hagain s₁ (hgrows'.trans hs₁), hagain' s₁ hs₁⟩

theorem mapM {read read' : β → Decoding α} (h : ∀ b, Settles inv (read b) (read' b))
    (l : List β) : Settles inv (l.mapM read) (l.mapM read') := by
  induction l with
  | nil =>
    rw [List.mapM_nil, List.mapM_nil]
    exact .pure []
  | cons b l ih =>
    rw [List.mapM_cons, List.mapM_cons]
    exact (h b).bind fun a => ih.bind fun as => .pure _

end Settles

theorem settles_typeOfEntry {inv : Table Json CppType → Prop}
    {look again : Json → Decoding CppType} (h : ∀ j, Settles inv (look j) (again j)) (e : Json) :
    Settles inv (typeOfEntry look e) (typeOfEntry again e) := by
  have htemplate : Settles inv (templateOf look e) (templateOf again e) := by
    rw [templateOf, templateOf]
    dsimp only
    split
    · exact .pure none
    · refine (Settles.lift _).bind fun kind => (Settles.lift _).bind fun names => ?_
      refine (Settles.mapM h names).bind fun arguments => ?_
      split
      · exact (Settles.lift _).bind fun _ => .pure _
      · exact .pure _
  rw [typeOfEntry, typeOfEntry]
  refine htemplate.bind fun template => ?_
  refine (Settles.lift _).bind fun name => (Settles.lift _).bind fun kind => ?_
  cases template with
  | none => exact .pure _
  | some found => exact .pure _

/-- A look-up that builds nothing: it finds what was built. -/
def known : Json → Decoding CppType := lookUp .empty 1

theorem run_known_ok_iff {s s' : Table Json CppType} {j : Json} {t : CppType} :
    (known j).run s = .ok (t, s') ↔ s' = s ∧ ∃ id, idOf j = .ok id ∧ s.find? id = some t := by
  rw [known, run_lookUp_ok_iff]
  constructor
  · rintro ⟨id, hid, ⟨hfind, rfl⟩ | ⟨-, e, s₁, he, -⟩⟩
    · exact ⟨rfl, id, hid, hfind⟩
    · cases he
  · rintro ⟨rfl, id, hid, hfind⟩
    exact ⟨id, hid, .inl ⟨hfind, rfl⟩⟩

/-- What was built for names is found under their ids. -/
theorem forall₂_of_mapM_known {s s' : Table Json CppType} {names : List Json} {ts : List CppType}
    (h : (names.mapM known).run s = .ok (ts, s')) :
    s' = s ∧ List.Forall₂ (fun j t => idOf j = .ok j.canonical ∧ s.find? j.canonical = some t)
      names ts := by
  induction names generalizing ts with
  | nil =>
    cases h
    exact ⟨rfl, .nil⟩
  | cons j names ih =>
    rw [List.mapM_cons] at h
    obtain ⟨t, s₁, hfirst, h⟩ := run_bind_ok_iff.1 h
    obtain ⟨us, s₂, hrest, hpure⟩ := run_bind_ok_iff.1 h
    cases hpure
    obtain ⟨rfl, k, hk, hfind⟩ := run_known_ok_iff.1 hfirst
    obtain ⟨rfl, hall⟩ := ih hrest
    obtain rfl := (idOf_ok_iff.1 hk).2
    exact ⟨rfl, .cons ⟨hk, hfind⟩ hall⟩

/-- Every type that was built can be read off its entry again, with what was built or with more. -/
def Settled (entries : Table Json Json) (s : Table Json CppType) : Prop :=
  ∀ k t, s.find? k = some t → ∃ e, entries.find? k = some e ∧
    ∀ s', Grows s s' → (typeOfEntry known e).run s' = .ok (t, s')

theorem settled_empty (entries : Table Json Json) : Settled entries .empty := by
  intro k t h
  simp at h

section table
variable {entries : Table Json Json} {s s' : Table Json CppType}

/-- A type that was read off its entry is built under the id of the entry. It may stand there
already, and then it is the same. -/
theorem Settled.insert (hs : Settled entries s) {k e : Json} {t : CppType}
    (he : entries.find? k = some e)
    (ht : ∀ s', Grows s s' → (typeOfEntry known e).run s' = .ok (t, s')) :
    Grows s (s.insert k t) ∧ Settled entries (s.insert k t) := by
  have hgrows : Grows s (s.insert k t) := by
    intro j u hu
    rw [Table.find?_insert]
    split
    · next hk =>
      -- What stands there was read off the same entry with no more than what was built by now.
      subst hk
      obtain ⟨e', he', hread⟩ := hs k u hu
      cases he.symm.trans he'
      cases (ht s (.refl s)).symm.trans (hread s (.refl s))
      rfl
    · exact hu
  refine ⟨hgrows, fun j u hu => ?_⟩
  rw [Table.find?_insert] at hu
  split at hu
  · next hk =>
    subst hk
    cases hu
    exact ⟨e, he, fun s' hs' => ht s' (hgrows.trans hs')⟩
  · obtain ⟨e', he', hread⟩ := hs j u hu
    exact ⟨e', he', fun s' hs' => hread s' (hgrows.trans hs')⟩

/-- However deep a look-up goes, what it finds is found again later. -/
theorem settles_lookUp (entries : Table Json Json) (n : Nat) (j : Json) :
    Settles (Settled entries) (lookUp entries n j) (known j) := by
  induction n generalizing j with
  | zero => nofun
  | succ n ih =>
    intro s t s' hs hrun
    obtain ⟨id, hid, hcases⟩ := run_lookUp_ok_iff.1 hrun
    have hknown : ∀ {s₂ : Table Json CppType}, s₂.find? id = some t → ∀ s'', Grows s₂ s'' →
        (known j).run s'' = .ok (t, s'') := fun hfind s'' hs'' =>
      run_known_ok_iff.2 ⟨rfl, id, hid, hs'' id t hfind⟩
    obtain ⟨hfind, rfl⟩ | ⟨-, e, s₁, he, hread, rfl⟩ := hcases
    · exact ⟨.refl _, hs, hknown hfind⟩
    · obtain ⟨hgrows, hs₁, hagain⟩ := settles_typeOfEntry ih e s t s₁ hs hread
      obtain ⟨hgrows', hs'⟩ := hs₁.insert he hagain
      exact ⟨hgrows.trans hgrows', hs', hknown (by simp [Table.find?_insert])⟩

/-- A type that was built has the name of its entry, and its arguments were built too. -/
theorem Settled.spelled (hs : Settled entries s) {k : Json} {t : CppType}
    (ht : s.find? k = some t) : ∃ e, entries.find? k = some e ∧ t.id = spelled e ∧
      ∀ a ∈ t.arguments, ∃ k', s.find? k' = some a := by
  obtain ⟨e, he, hread⟩ := hs k t ht
  have hknown : ∀ j, Reads (· = s) (known j) fun t => ∃ k', s.find? k' = some t := by
    rintro j _ u s' rfl hrun
    obtain ⟨hs', k', -, hfind⟩ := run_known_ok_iff.1 hrun
    exact ⟨hs', k', hfind⟩
  exact ⟨e, he, (reads_typeOfEntry hknown e s t s rfl (hread s (.refl s))).2⟩

/-! ## Tables whose ids are names -/

/-- All items of a list that may be missing. -/
def Each (P : Json → Prop) (j : Json) (name : String) : Prop :=
  ∀ items, itemsAt j name = .ok items → ∀ e ∈ items, P e

/-- Every entry of the type table has the qualified name of its name and its namespace as its id. -/
def SelfNamed (j : Json) : Prop :=
  Each (fun e => e.member? "id" = some (.text (spelled e).text)) j "types"

/-- What stands under an id is an item of the table with that id. -/
theorem exists_of_find?_typeEntries {j k e : Json} (h : typeEntries j = .ok entries)
    (hfind : entries.find? k = some e) :
    ∃ items, itemsAt j "types" = .ok items ∧ e ∈ items ∧ requiredAs idOf e "id" = .ok k := by
  rw [typeEntries, bind_eq_ok_iff] at h
  obtain ⟨named, hnamed, h⟩ := h
  cases h
  obtain ⟨items, hitems, hmap⟩ := bind_eq_ok_iff.1 hnamed
  obtain ⟨e', he', hread⟩ := (mem_mapM_ok hmap).1 (Table.mem_of_find?_ofList hfind)
  obtain ⟨k', hk, hpair⟩ := bind_eq_ok_iff.1 hread
  cases hpair
  exact ⟨items, hitems, he', hk⟩

/-- Under each id of the table stands an entry that spells it. -/
def Spelled (entries : Table Json Json) : Prop :=
  ∀ k e, entries.find? k = some e → k = .text (Document.spelled e).text

theorem SelfNamed.spelled {j : Json} (hj : SelfNamed j) (h : typeEntries j = .ok entries) :
    Spelled entries := by
  intro k e hfind
  obtain ⟨items, hitems, he, hk⟩ := exists_of_find?_typeEntries h hfind
  have hid : e.member? "id" = some (.text (Document.spelled e).text) := hj items hitems e he
  cases e with
  | object ms =>
    rw [requiredAs_object hid] at hk
    cases hk
    rfl
  | _ => cases hid

variable {types : List CppType} {t : CppType}

/-- Everything in the table was built, and it is these types in the order of the table. -/
structure Complete (entries : Table Json Json) (types : List CppType) (s : Table Json CppType) :
    Prop where
  settled : Settled entries s
  keys : entries.keys = types.map fun t => .text t.qualifiedName
  found : ∀ t ∈ types, s.find? (.text t.qualifiedName) = some t

private theorem known_of_mapM (hspelled : Spelled entries) (hs : Settled entries s)
    {ks : List Json} (hks : ∀ k ∈ ks, k ∈ entries.keys)
    (h : (ks.mapM known).run s = .ok (types, s')) :
    ks = types.map (fun t => .text t.qualifiedName) ∧
      ∀ t ∈ types, s.find? (.text t.qualifiedName) = some t := by
  have hall : List.Forall₂ (fun k t => k = .text t.qualifiedName ∧ s.find? k = some t) ks
      types := by
    refine ((List.forall₂_and_left _ _).2 ⟨hks, (forall₂_of_mapM_known h).2⟩).imp fun k t hkt => ?_
    obtain ⟨hk, -, hfind⟩ := hkt
    -- An id of the table is a text, and so it is its own form for comparison.
    obtain ⟨e, he⟩ := Table.mem_keys_iff_exists.1 hk
    obtain rfl := hspelled k e he
    obtain ⟨e', he', hname, -⟩ := hs.spelled hfind
    obtain rfl : e = e' := Option.some.inj (he.symm.trans he')
    exact ⟨by rw [CppType.qualifiedName, hname], hfind⟩
  refine ⟨(map_of_forall₂ (hall.flip.imp fun t k hkt => hkt.1.symm)).symm, fun t ht => ?_⟩
  obtain ⟨k, -, rfl, hfind⟩ := exists_of_forall₂ hall ht
  exact hfind

/-- The table is complete when each of its ids was looked up. -/
theorem complete_of_mapM (hspelled : Spelled entries)
    (h : (entries.keys.mapM (typeNamed entries)).run .empty = .ok (types, s)) :
    Complete entries types s := by
  obtain ⟨-, hs, hagain⟩ := Settles.mapM (settles_lookUp entries (entries.size + 1)) entries.keys
    .empty types s (settled_empty entries) h
  obtain ⟨hkeys, hfound⟩ := known_of_mapM hspelled hs (fun _ => id) (hagain s (.refl s))
  exact ⟨hs, hkeys, hfound⟩

namespace Complete
variable (hc : Complete entries types s)
include hc

/-- Whatever else is looked up is one of the types of the table. -/
theorem mem (hs' : Settled entries s') (hgrows : Grows s s') {k : Json}
    (hfind : s'.find? k = some t) : t ∈ types := by
  obtain ⟨e, he, -⟩ := hs'.spelled hfind
  have hk : k ∈ entries.keys := Table.mem_keys_iff_exists.2 ⟨e, he⟩
  rw [hc.keys] at hk
  obtain ⟨u, hu, rfl⟩ := List.mem_map.1 hk
  cases hfind.symm.trans (hgrows _ u (hc.found u hu))
  exact hu

theorem arguments_mem (ht : t ∈ types) : ∀ a ∈ t.arguments, a ∈ types := by
  intro a ha
  obtain ⟨e, -, -, harguments⟩ := hc.settled.spelled (hc.found t ht)
  obtain ⟨k, hk⟩ := harguments a ha
  exact hc.mem hc.settled (.refl s) hk

theorem nodup : (types.map CppType.qualifiedName).Nodup := by
  have hkeys := entries.nodup_keys
  rw [hc.keys] at hkeys
  exact List.pairwise_map.2
    ((List.pairwise_map.1 hkeys).imp fun hne h => hne (congrArg Json.text h))

/-- Later look-ups give types of the table. -/
theorem reads_typeNamed (j : Json) :
    Reads (fun s' => Settled entries s' ∧ Grows s s') (typeNamed entries j) (· ∈ types) := by
  rintro s₁ t s₂ ⟨hs₁, hgrows₁⟩ hrun
  obtain ⟨hgrows, hs₂, hagain⟩ := settles_lookUp entries _ j s₁ t s₂ hs₁ hrun
  obtain ⟨-, k, -, hfind⟩ := run_known_ok_iff.1 (hagain s₂ (.refl s₂))
  exact ⟨⟨hs₂, hgrows₁.trans hgrows⟩, hc.mem hs₂ (hgrows₁.trans hgrows) hfind⟩

end Complete

/-- A type that was looked up has the name of some entry. -/
theorem reads_lookUp (entries : Table Json Json) (n : Nat) (j : Json) :
    Reads (Settled entries) (lookUp entries n j) fun t =>
      ∃ k e, entries.find? k = some e ∧ t.id = Document.spelled e := by
  intro s t s' hs hrun
  obtain ⟨-, hs', hagain⟩ := settles_lookUp entries n j s t s' hs hrun
  obtain ⟨-, k, -, hfind⟩ := run_known_ok_iff.1 (hagain s' (.refl s'))
  obtain ⟨e, he, hid, -⟩ := hs'.spelled hfind
  exact ⟨hs', k, e, he, hid⟩

end table

end Introspect.Document
