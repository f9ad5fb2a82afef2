import Introspect.Document.Decode
import Introspect.Document.Encode
import Introspect.Proofs.Catalog
import Introspect.Proofs.CppType
import Introspect.Proofs.Except
import Introspect.Proofs.Path

/-! The parts of a document that name no types are read as they were written, and types are found
again by following names through the table of types. -/
namespace Introspect.Document

/-! ## Parts that name no types -/

section members
variable {ms : List (String × Json)} {name : String} {v : Json}

theorem required_object (h : (Json.object ms).member? name = some v) :
    required (.object ms) name = .ok v := by
  simp [required, h]

theorem requiredAs_object {α : Type} {read : Json → Except Failure α}
    (h : (Json.object ms).member? name = some v) :
    requiredAs read (.object ms) name = read v := by
  rw [requiredAs, required_object h]
  rfl

theorem optional_object {default : Json} (h : (Json.object ms).member? name = some v) :
    optional (.object ms) name default = v := by
  simp [optional, h]

theorem itemsAt_object {items : List Json} (h : (Json.object ms).member? name = some (.array items)) :
    itemsAt (.object ms) name = .ok items := by
  simp [itemsAt, optional_object h, itemsOf, Json.parts?]

end members

theorem listAt_object {α : Type} {read : Json → Except Failure α} {write : α → Json}
    {ms : List (String × Json)} {name : String} {l : List α}
    (h : (Json.object ms).member? name = some (.array (l.map write)))
    (hread : ∀ a ∈ l, read (write a) = .ok a) : listAt read (.object ms) name = .ok l := by
  rw [listAt, itemsAt_object h]
  exact mapM_written hread

theorem kindOf_label (k : TypeKind) : kindOf (.text k.label) = .ok k := by
  simp [kindOf, TypeKind.ofLabel?_label]

theorem templateKindOf_label (k : TemplateKind) : templateKindOf (.text k.label) = .ok k := by
  cases k <;> rfl

theorem classKeyOf_label (k : ClassKey) : classKeyOf (.text k.label) = .ok k := by
  cases k <;> rfl

theorem lifetimeOf_label (l : Lifetime) : lifetimeOf (.text l.label) = .ok l := by
  cases l <;> rfl

theorem noteOf_noteJson (n : Note) : noteOf (noteJson n) = .ok n := by
  rw [noteOf, noteJson, required_object rfl, requiredAs_object rfl]
  simp [lifetimeOf_label]

theorem attributesOf_written (t : Table String Note) :
    attributesOf (.object (t.entries.map fun e => (e.1, noteJson e.2))) = .ok t := by
  have hentries : (t.entries.map fun e => (e.1, noteJson e.2)).mapM
      (fun m => do return (m.1, ← noteOf m.2)) = Except.ok (ε := Failure) t.entries := by
    apply mapM_written
    intro e _
    simp [noteOf_noteJson]
  rw [attributesOf, hentries, ok_bind, Table.ofList_entries]
  rfl

/-- Metadata are read back when their file is a path in normal form. -/
theorem metadataOf_metadataJson {m : Metadata} (hm : m.file.Normal) :
    metadataOf (metadataJson m) = .ok m := by
  have htags : listAt noteOf (metadataJson m) "tags" = .ok m.tags :=
    listAt_object rfl fun n _ => noteOf_noteJson n
  rw [metadataOf, htags, metadataJson, requiredAs_object rfl, optional_object rfl,
    optional_object rfl, optional_object rfl, optional_object rfl, attributesOf_written]
  simp [textOf, Path.ofString_toString hm]

theorem nameOf_written {ms : List (String × Json)} {g : Given String}
    (h : (Json.object ms).member? "name" = some g.toJson) : nameOf (.object ms) = .ok g := by
  rw [nameOf, required_object h]
  exact congrArg _ (Given.ofJson_toJson g)

theorem enumeratorOf_enumeratorJson {v : Enumerator} (hv : v.metadata.file.Normal) :
    enumeratorOf (enumeratorJson v) = .ok v := by
  rw [enumeratorOf, enumeratorJson, nameOf_written rfl, required_object rfl, requiredAs_object rfl,
    metadataOf_metadataJson hv]
  simp

/-! ## Readings that went well -/

section
variable {α β : Type} {s s' s'' : Table Json CppType}

theorem run_bind_ok_iff {m : Decoding α} {f : α → Decoding β} {b : β} :
    (m >>= f).run s = .ok (b, s'') ↔
      ∃ a s', m.run s = .ok (a, s') ∧ (f a).run s' = .ok (b, s'') := by
  rw [StateT.run_bind, bind_eq_ok_iff, Prod.exists]

theorem exists_of_run' {m : Decoding α} {a : α} (h : m.run' s = .ok a) :
    ∃ s', m.run s = .ok (a, s') := by
  have hrun : (Prod.fst <$> m.run s) = .ok a := h
  cases hm : m.run s with
  | error e =>
    rw [hm] at hrun
    cases hrun
  | ok found =>
    rw [hm] at hrun
    cases hrun
    exact ⟨found.2, rfl⟩

theorem run_lift_ok_iff {x : Except Failure α} {a : α} :
    (liftM x : Decoding α).run s = .ok (a, s') ↔ x = .ok a ∧ s' = s := by
  cases x with
  | error e =>
    constructor
    · nofun
    · rintro ⟨⟨⟩, -⟩
  | ok b =>
    constructor
    · rintro ⟨⟩
      exact ⟨rfl, rfl⟩
    · rintro ⟨⟨⟩, rfl⟩
      rfl

/-- A fold of steps that look at no types leaves what was built alone. -/
theorem run_foldlM_lift_ok_iff {step : β → α → Except Failure β} {l : List α} {b b' : β} :
    (l.foldlM (fun b a => liftM (step b a)) b : Decoding β).run s = .ok (b', s') ↔
      l.foldlM step b = .ok b' ∧ s' = s := by
  induction l generalizing b with
  | nil => exact run_lift_ok_iff (x := .ok b)
  | cons a l ih =>
    rw [List.foldlM_cons, List.foldlM_cons, run_bind_ok_iff, bind_eq_ok_iff]
    constructor
    · rintro ⟨c, s₁, hstep, hrest⟩
      obtain ⟨hc, rfl⟩ := run_lift_ok_iff.1 hstep
      obtain ⟨hfold, rfl⟩ := ih.1 hrest
      exact ⟨⟨c, hc, hfold⟩, rfl⟩
    · rintro ⟨⟨c, hc, hfold⟩, rfl⟩
      exact ⟨c, s', run_lift_ok_iff.2 ⟨hc, rfl⟩, ih.2 ⟨hfold, rfl⟩⟩

end

/-! ## Readings that always go well -/

/-- Whatever was built before, as long as it satisfies `inv`, the reading succeeds with `a`, and
what is built afterwards satisfies `inv` too. -/
def Gives {α : Type} (inv : Table Json CppType → Prop) (m : Decoding α) (a : α) : Prop :=
  ∀ s, inv s → ∃ s', inv s' ∧ m.run s = .ok (a, s')

namespace Gives
variable {inv : Table Json CppType → Prop} {α β : Type}

theorem pure (a : α) : Gives inv (Pure.pure a) a :=
  fun s hs => ⟨s, hs, rfl⟩

theorem of_ok {x : Except Failure α} {a : α} (h : x = .ok a) : Gives inv (liftM x) a := by
  subst h
  exact fun s hs => ⟨s, hs, rfl⟩

theorem bind {m : Decoding α} {f : α → Decoding β} {a : α} {b : β} (hm : Gives inv m a)
    (hf : Gives inv (f a) b) : Gives inv (m >>= f) b := by
  intro s hs
  obtain ⟨s', hs', hrun⟩ := hm s hs
  obtain ⟨s'', hs'', hrun'⟩ := hf s' hs'
  exact ⟨s'', hs'', by rw [StateT.run_bind, hrun, ok_bind, hrun']⟩

theorem run' {m : Decoding α} {a : α} (hm : Gives inv m a) {s : Table Json CppType} (hs : inv s) :
    m.run' s = .ok a := by
  obtain ⟨s', -, hrun⟩ := hm s hs
  exact congrArg (Prod.fst <$> ·) hrun

theorem mapM {read : β → Decoding α} {write : α → β} {l : List α}
    (h : ∀ a ∈ l, Gives inv (read (write a)) a) : Gives inv ((l.map write).mapM read) l := by
  induction l with
  | nil =>
    rw [List.map_nil, List.mapM_nil]
    exact .pure []
  | cons a l ih =>
    rw [List.map_cons, List.mapM_cons]
    exact (h a (by simp)).bind ((ih fun b hb => h b (by simp [hb])).bind (.pure _))

theorem foldlM_of_ok {step : β → α → Except Failure β} {l : List α} {b b' : β}
    (h : l.foldlM step b = .ok b') :
    Gives inv (l.foldlM (fun b a => liftM (step b a)) b) b' :=
  fun s hs => ⟨s, hs, run_foldlM_lift_ok_iff.2 ⟨h, rfl⟩⟩

/-- A fold over what is read, of steps that are known to succeed. -/
theorem foldlM {read : Json → Decoding α} {write : α → Json} {step : β → α → Except Failure β}
    {l : List α} (h : ∀ a ∈ l, Gives inv (read (write a)) a) {b b' : β}
    (hstep : l.foldlM step b = .ok b') :
    Gives inv ((l.map write).foldlM (fun b j => do step b (← read j)) b) b' := by
  induction l generalizing b with
  | nil =>
    rw [List.foldlM_nil, pure_eq_ok, Except.ok.injEq] at hstep
    subst hstep
    rw [List.map_nil, List.foldlM_nil]
    exact .pure b
  | cons a l ih =>
    rw [List.foldlM_cons, bind_eq_ok_iff] at hstep
    obtain ⟨c, hc, hstep⟩ := hstep
    rw [List.map_cons, List.foldlM_cons]
    exact .bind (.bind (h a (by simp)) (.of_ok hc)) (ih (fun b hb => h b (by simp [hb])) hstep)

end Gives

/-! ## Entries of the table -/

/-- The reader finds the type of every name it knows. -/
def Finds (inv : Table Json CppType → Prop) (look : Json → Decoding CppType) (t : CppType) : Prop :=
  Gives inv (look (.text t.qualifiedName)) t

/-- The template of an entry is read by looking up its arguments. -/
theorem templateOf_templated (look : Json → Decoding CppType) (i : QualifiedName) (k : TypeKind)
    (g : TemplateKind) (a : CppType) (as : List CppType) :
    templateOf look (typeJson (.templated i k g a as)) = (do
      let arguments ← ((a :: as).map fun t => Json.text t.qualifiedName).mapM look
      if arguments.isEmpty then
        throw (.registryFile (.malformed .emptyTemplate))
      return some (g, arguments)) := by
  have hkind : requiredAs templateKindOf (.object [("kind", .text g.label),
      ("arguments", Json.texts ((a :: as).map CppType.qualifiedName))]) "kind" = .ok g := by
    rw [requiredAs_object rfl, templateKindOf_label]
  have hnames : requiredAs itemsOf (.object [("kind", .text g.label),
      ("arguments", Json.texts ((a :: as).map CppType.qualifiedName))]) "arguments" =
      .ok ((a :: as).map fun t => .text t.qualifiedName) := by
    rw [requiredAs_object rfl]
    simp [itemsOf, Json.texts, Json.parts?]
  rw [templateOf, typeJson, optional_object rfl]
  dsimp only [CppType.template?, CppType.arguments]
  rw [hkind, hnames]
  rfl

/-- Apart from its arguments an entry says all of a type. -/
theorem typeOfEntry_eq (look : Json → Decoding CppType) (t : CppType) :
    typeOfEntry look (typeJson t) = (do
      match ← templateOf look (typeJson t) with
      | none => return .plain t.id t.kind
      | some (g, arguments) => return .build t.id t.kind g arguments) := by
  have hname : required (typeJson t) "name" = .ok t.id.givenName.toJson := required_object rfl
  have hkind : requiredAs kindOf (typeJson t) "kind" = .ok t.kind := by
    rw [typeJson, requiredAs_object rfl, kindOf_label]
  have hscope : optional (typeJson t) "namespace" (.text "") = t.id.givenScope.toJson :=
    optional_object rfl
  rw [typeOfEntry, hname, hkind, hscope, Given.ofJson_toJson]
  refine bind_congr fun template => ?_
  cases template with
  | none =>
    change (pure (.plain ⟨.ofJson t.id.givenName.toJson, t.id.givenScope⟩ t.kind) :
      Decoding CppType) = _
    rw [Given.ofJson_toJson]
  | some found =>
    change (pure (.build ⟨.ofJson t.id.givenName.toJson, t.id.givenScope⟩ t.kind found.1
      found.2) : Decoding CppType) = _
    rw [Given.ofJson_toJson]

theorem templateOf_typeJson {inv : Table Json CppType → Prop} {look : Json → Decoding CppType}
    {t : CppType} (ht : ∀ a ∈ t.arguments, Finds inv look a) :
    Gives inv (templateOf look (typeJson t)) (t.template?.map fun g => (g, t.arguments)) := by
  cases t with
  | plain i k => exact .pure none
  | templated i k g a as =>
    rw [templateOf_templated]
    exact .bind (.mapM ht) (.pure _)

/-- An entry of the table is read back when its arguments are found. -/
theorem typeOfEntry_typeJson {inv : Table Json CppType → Prop} {look : Json → Decoding CppType}
    {t : CppType} (ht : ∀ a ∈ t.arguments, Finds inv look a) :
    Gives inv (typeOfEntry look (typeJson t)) t := by
  rw [typeOfEntry_eq]
  refine .bind (templateOf_typeJson ht) ?_
  cases t with
  | plain i k => exact .pure _
  | templated i k g a as => exact .pure _

/-! ## Looking up -/

theorem idOf_ok_iff {j k : Json} : idOf j = .ok k ↔ j.isKey ∧ k = j.canonical := by
  unfold idOf
  split
  · next h => simp [h, eq_comm]
  · next h =>
    constructor
    · nofun
    · exact fun hk => absurd hk.1 h

/-- A text is its own form for comparison. -/
theorem idOf_text (name : String) : idOf (.text name) = .ok (.text name) := rfl

/-- A look-up finds what was built, or else it builds what the entry says. -/
theorem run_lookUp_ok_iff {entries : Table Json Json} {n : Nat} {j : Json} {t : CppType}
    {s s' : Table Json CppType} : (lookUp entries (n + 1) j).run s = .ok (t, s') ↔
      ∃ k, idOf j = .ok k ∧ (s.find? k = some t ∧ s' = s ∨
        s.find? k = none ∧ ∃ e s₁, entries.find? k = some e ∧
          (typeOfEntry (lookUp entries n) e).run s = .ok (t, s₁) ∧ s' = s₁.insert k t) := by
  rw [lookUp, run_bind_ok_iff]
  constructor
  · rintro ⟨k, s₁, hlift, hrest⟩
    obtain ⟨hk, rfl⟩ := run_lift_ok_iff.1 hlift
    obtain ⟨_, _, ⟨⟩, hrest⟩ := run_bind_ok_iff.1 hrest
    refine ⟨k, hk, ?_⟩
    split at hrest
    · next u hfind =>
      cases hrest
      exact .inl ⟨hfind, rfl⟩
    · next hnone =>
      split at hrest
      · cases hrest
      · next e he =>
        obtain ⟨u, s₂, hread, hrest⟩ := run_bind_ok_iff.1 hrest
        cases hrest
        exact .inr ⟨hnone, e, s₂, he, hread, rfl⟩
  · rintro ⟨k, hk, ⟨hfind, rfl⟩ | ⟨hnone, e, s₁, he, hread, rfl⟩⟩
    · exact ⟨k, s', run_lift_ok_iff.2 ⟨hk, rfl⟩, by simp [hfind]⟩
    · exact ⟨k, s, run_lift_ok_iff.2 ⟨hk, rfl⟩, by simp [hnone, he, hread]⟩

section table
variable {types : Catalog CppType.qualifiedName} {entries : Table Json Json}

/-- What was built so far are registered types under their names. -/
def Built (types : Catalog CppType.qualifiedName) (s : Table Json CppType) : Prop :=
  ∀ t ∈ types.items, ∀ u, s.find? (.text t.qualifiedName) = some u → u = t

theorem built_empty : Built types .empty := by
  intro t _ u hu
  simp at hu

theorem Built.insert {s : Table Json CppType} (hs : Built types s) {t : CppType}
    (ht : t ∈ types.items) : Built types (s.insert (.text t.qualifiedName) t) := by
  intro v hv u hu
  rw [Table.find?_insert] at hu
  split at hu
  · next h =>
    have hname : t.qualifiedName = v.qualifiedName := by simpa using h
    cases hu
    exact Catalog.eq_of_key_eq ht hv hname
  · exact hs v hv u hu

/-- A look-up with `n` steps left succeeds below a chain `above` of types that each hold the next
one among their arguments: a chain has no type twice, so it is no longer than the table. -/
private theorem lookUp_gives
    (hclosed : ∀ t ∈ types.items, ∀ a ∈ t.arguments, a ∈ types.items)
    (hentries : ∀ t ∈ types.items, entries.find? (.text t.qualifiedName) = some (typeJson t))
    {n : Nat} {t : CppType} (above : List CppType) (ht : t ∈ types.items)
    (hnodup : above.Nodup) (habove : above ⊆ types.items)
    (hsize : ∀ u ∈ above, sizeOf t < sizeOf u) (hn : types.items.length < n + above.length) :
    Finds (Built types) (lookUp entries n) t := by
  have hnodup' : (t :: above).Nodup :=
    List.nodup_cons.2 ⟨fun h => Nat.lt_irrefl _ (hsize t h), hnodup⟩
  have habove' : t :: above ⊆ types.items := List.cons_subset.2 ⟨ht, habove⟩
  induction n generalizing t above with
  | zero =>
    have hlength := hnodup'.length_le_of_subset habove'
    simp only [List.length_cons] at hlength
    omega
  | succ n ih =>
    have harguments : ∀ a ∈ t.arguments, Finds (Built types) (lookUp entries n) a := by
      intro a ha
      have hlt := CppType.sizeOf_lt_of_mem_arguments ha
      have hsize' : ∀ u ∈ t :: above, sizeOf a < sizeOf u := by
        intro u hu
        obtain rfl | hu := List.mem_cons.1 hu
        · exact hlt
        · exact Nat.lt_trans hlt (hsize u hu)
      refine ih (t :: above) (hclosed t ht a ha) hnodup' habove' hsize' (by simp; omega) ?_ ?_
      · exact List.nodup_cons.2 ⟨fun h => Nat.lt_irrefl _ (hsize' a h), hnodup'⟩
      · exact List.cons_subset.2 ⟨hclosed t ht a ha, habove'⟩
    intro s hs
    cases hf : s.find? (.text t.qualifiedName) with
    | some u =>
      obtain rfl := hs t ht u hf
      exact ⟨s, hs, run_lookUp_ok_iff.2 ⟨_, idOf_text _, .inl ⟨hf, rfl⟩⟩⟩
    | none =>
      obtain ⟨s', hs', hrun⟩ := typeOfEntry_typeJson harguments s hs
      exact ⟨s'.insert (.text t.qualifiedName) t, hs'.insert ht,
        run_lookUp_ok_iff.2 ⟨_, idOf_text _, .inr ⟨hf, _, s', hentries t ht, hrun, rfl⟩⟩⟩

/-- Every registered type is found by its name. -/
theorem typeNamed_gives
    (hclosed : ∀ t ∈ types.items, ∀ a ∈ t.arguments, a ∈ types.items)
    (hentries : entries.entries = types.items.map fun t => (.text t.qualifiedName, typeJson t))
    {t : CppType} (ht : t ∈ types.items) : Finds (Built types) (typeNamed entries) t := by
  have hfind : ∀ u ∈ types.items, entries.find? (.text u.qualifiedName) = some (typeJson u) := by
    intro u hu
    rw [Table.find?_eq_some_iff, hentries]
    exact List.mem_map.2 ⟨u, hu, rfl⟩
  have hlength : entries.size = types.items.length := by
    change entries.entries.length = _
    rw [hentries, List.length_map]
  exact lookUp_gives hclosed hfind [] ht (by simp) (by simp) (by simp)
    (by rw [hlength]; simp)

end table

end Introspect.Document
