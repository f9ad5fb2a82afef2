import Introspect.Proofs.Document.Alike
import Introspect.Proofs.Document.RoundTrip
import Introspect.Proofs.Registry.Accumulation

/-! What is read from the text of any registry. Types are built along the names in the table, so
that a type which was out of date where it was mentioned comes back as it stands in the table. -/
namespace Introspect.Document

/-! ## Readings whose outcome is known -/

section chains
variable {α β : Type} {s s' : Table Json CppType}

theorem Gives.of_run {inv : Table Json CppType → Prop} {m : Decoding α} {a b : α}
    (h : Gives inv m a) (hs : inv s) (hrun : m.run s = .ok (b, s')) : b = a ∧ inv s' := by
  obtain ⟨s₁, hs₁, hrun₁⟩ := h s hs
  rw [hrun₁] at hrun
  cases hrun
  exact ⟨rfl, hs₁⟩

/-- A fold over what is read, where it is known what that is, takes the steps that it says. -/
theorem foldlM_of_run {inv : Table Json CppType → Prop} {read : Json → Decoding α}
    {write : α → Json} {step : β → α → Except Failure β} {l : List α} {b b' : β}
    (hread : ∀ a ∈ l, Gives inv (read (write a)) a) (hs : inv s)
    (h : ((l.map write).foldlM (fun b j => do step b (← read j)) b).run s = .ok (b', s')) :
    l.foldlM step b = .ok b' := by
  induction l generalizing b s with
  | nil =>
    cases h
    rfl
  | cons a l ih =>
    rw [List.map_cons, List.foldlM_cons, run_bind_ok_iff] at h
    obtain ⟨c, s₁, hfirst, hrest⟩ := h
    obtain ⟨a', s₂, ha, hstep⟩ := run_bind_ok_iff.1 hfirst
    obtain ⟨rfl, hs₂⟩ := (hread a (List.mem_cons_self ..)).of_run hs ha
    obtain ⟨hok, rfl⟩ := run_lift_ok_iff.1 hstep
    rw [List.foldlM_cons, hok, ok_bind]
    exact ih (fun b hb => hread b (List.mem_cons_of_mem _ hb)) hs₂ hrest

end chains

/-! ## Types that were built -/

variable {types : Catalog CppType.qualifiedName} {entries : Table Json Json}
  {s s' s₁ : Table Json CppType} {t u : CppType} {ts us : List CppType} {name : String}

/-- What a name stands for among the types that were built; a type of another name is left alone. -/
def standIn (s : Table Json CppType) (t : CppType) : CppType :=
  (s.find? (.text t.qualifiedName)).getD t

/-- Every type that was built is one of the table with what was built under their names in the
places of its arguments. -/
def Rebuilt (types : Catalog CppType.qualifiedName) (s : Table Json CppType) : Prop :=
  ∀ name t, s.find? (.text name) = some t → ∃ u ∈ types.items, u.qualifiedName = name ∧
    t = u.mapArguments (standIn s) ∧ ∀ a ∈ u.arguments, s.find? (.text a.qualifiedName) ≠ none

/-- What was built stays. -/
def Keeps (s s' : Table Json CppType) : Prop :=
  ∀ name t, s.find? (.text name) = some t → s'.find? (.text name) = some t

/-- The reading leaves behind what was built, and more types that are rebuilt, among them those of
some names. -/
structure Builds (types : Catalog CppType.qualifiedName) (s s' : Table Json CppType)
    (names : List String) : Prop where
  keeps : Keeps s s'
  rebuilt : Rebuilt types s'
  found : ∀ n ∈ names, s'.find? (.text n) ≠ none

theorem Keeps.trans (h : Keeps s s') (h' : Keeps s' s₁) : Keeps s s₁ :=
  fun name t ht => h' name t (h name t ht)

theorem Keeps.found (h : Keeps s s') (hn : s.find? (.text name) ≠ none) :
    s'.find? (.text name) ≠ none := by
  obtain ⟨t, ht⟩ := Option.ne_none_iff_exists'.1 hn
  simp [h name t ht]

theorem Keeps.standIn (h : Keeps s s') (ht : s.find? (.text t.qualifiedName) ≠ none) :
    standIn s' t = standIn s t := by
  obtain ⟨u, hu⟩ := Option.ne_none_iff_exists'.1 ht
  rw [Document.standIn, Document.standIn, hu, h _ u hu]

theorem keepsNames_standIn (hs : Rebuilt types s) : CppType.KeepsNames (standIn s) := by
  intro t
  rw [standIn]
  cases h : s.find? (.text t.qualifiedName) with
  | none => rfl
  | some v =>
    obtain ⟨u, -, hname, rfl, -⟩ := hs _ v h
    simpa using hname

/-- What was built under the name of a type is that type with what was built for its arguments. -/
theorem Rebuilt.find? (hs : Rebuilt types s) (ht : t ∈ types.items)
    (hfound : s.find? (.text t.qualifiedName) ≠ none) :
    s.find? (.text t.qualifiedName) = some (t.mapArguments (standIn s)) := by
  obtain ⟨b, hb⟩ := Option.ne_none_iff_exists'.1 hfound
  obtain ⟨u, hu, hname, rfl, -⟩ := hs _ b hb
  rw [hb, Catalog.eq_of_key_eq hu ht hname]

theorem rebuilt_empty : Rebuilt types .empty := by
  intro name t h
  simp at h

/-- The reader finds what stands under a name afterwards, and all it builds is rebuilt. -/
def Resolves (types : Catalog CppType.qualifiedName) (look : Json → Decoding CppType) : Prop :=
  ∀ {name s t s'}, Rebuilt types s → (look (.text name)).run s = .ok (t, s') →
    Builds types s s' [name] ∧ s'.find? (.text name) = some t

section reading
variable {look : Json → Decoding CppType} (hlook : Resolves types look)
include hlook

theorem builds_of_mapM (hs : Rebuilt types s)
    (h : ((us.map fun a => Json.text a.qualifiedName).mapM look).run s = .ok (ts, s')) :
    Builds types s s' (us.map CppType.qualifiedName) ∧ ts = us.map (standIn s') := by
  induction us generalizing s ts with
  | nil =>
    cases h
    exact ⟨⟨fun _ _ => id, hs, nofun⟩, rfl⟩
  | cons a us ih =>
    rw [List.map_cons, List.mapM_cons, run_bind_ok_iff] at h
    obtain ⟨t, s₁, hfirst, h⟩ := h
    obtain ⟨ts, s₂, hrest, hpure⟩ := run_bind_ok_iff.1 h
    cases hpure
    obtain ⟨hone, ht⟩ := hlook hs hfirst
    obtain ⟨hmore, rfl⟩ := ih hone.rebuilt hrest
    refine ⟨⟨hone.keeps.trans hmore.keeps, hmore.rebuilt, ?_⟩, ?_⟩
    · rw [List.map_cons, List.forall_mem_cons]
      exact ⟨hmore.keeps.found (by simp [ht]), hmore.found⟩
    · rw [List.map_cons, standIn, hmore.keeps _ t ht, Option.getD_some]

/-- A type is built from its entry with what stands under the names of its arguments. -/
theorem builds_of_typeOfEntry (hs : Rebuilt types s)
    (h : (typeOfEntry look (typeJson u)).run s = .ok (t, s')) :
    Builds types s s' (u.arguments.map CppType.qualifiedName) ∧
      t = u.mapArguments (standIn s') := by
  rw [typeOfEntry_eq, run_bind_ok_iff] at h
  obtain ⟨template, s₁, htemplate, hrest⟩ := h
  cases u with
  | plain i k =>
    cases htemplate
    cases hrest
    exact ⟨⟨fun _ _ => id, hs, nofun⟩, rfl⟩
  | templated i k g a as =>
    rw [templateOf_templated, run_bind_ok_iff] at htemplate
    obtain ⟨arguments, s₂, harguments, hsome⟩ := htemplate
    obtain ⟨hbuilds, rfl⟩ := builds_of_mapM hlook hs harguments
    cases hsome
    cases hrest
    exact ⟨hbuilds, rfl⟩

end reading

theorem Rebuilt.insert (hs : Rebuilt types s) (hu : u ∈ types.items)
    (harguments : ∀ a ∈ u.arguments, s.find? (.text a.qualifiedName) ≠ none) :
    Builds types s (s.insert (.text u.qualifiedName) (u.mapArguments (standIn s)))
      [u.qualifiedName] := by
  have hkeeps : Keeps s (s.insert (.text u.qualifiedName) (u.mapArguments (standIn s))) := by
    intro name t ht
    rw [Table.find?_insert]
    split
    · next he =>
      -- What stands there already was built of the same entry.
      obtain ⟨v, hv, hname, rfl, -⟩ := hs name t ht
      have hsame : u.qualifiedName = v.qualifiedName := (Json.text.inj he).trans hname.symm
      rw [Catalog.eq_of_key_eq hu hv hsame]
    · exact ht
  have hentry : ∀ v ∈ types.items, (∀ a ∈ v.arguments, s.find? (.text a.qualifiedName) ≠ none) →
      v.mapArguments (standIn s) = v.mapArguments (standIn
        (s.insert (.text u.qualifiedName) (u.mapArguments (standIn s)))) := fun v _ hv =>
    CppType.mapArguments_congr fun a ha => (hkeeps.standIn (hv a ha)).symm
  refine ⟨hkeeps, fun name t ht => ?_, by simp [Table.find?_insert]⟩
  rw [Table.find?_insert] at ht
  split at ht
  · next he =>
    cases ht
    exact ⟨u, hu, Json.text.inj he, hentry u hu harguments, fun a ha =>
      hkeeps.found (harguments a ha)⟩
  · obtain ⟨v, hv, hname, rfl, hfound⟩ := hs name t ht
    exact ⟨v, hv, hname, hentry v hv hfound, fun a ha => hkeeps.found (hfound a ha)⟩

/-- However deep a look-up goes, what it finds is rebuilt. -/
theorem resolves_lookUp (hentries : entries.entries =
      types.items.map fun t => (.text t.qualifiedName, typeJson t)) (n : Nat) :
    Resolves types (lookUp entries n) := by
  induction n with
  | zero =>
    intro name s t s' _ h
    cases h
  | succ n ih =>
    intro name s t s' hs h
    obtain ⟨k, hk, hcases⟩ := run_lookUp_ok_iff.1 h
    cases (idOf_text name).symm.trans hk
    obtain ⟨hbuilt, rfl⟩ | ⟨-, entry, s₁, hentry, hread, rfl⟩ := hcases
    · exact ⟨⟨fun _ _ => id, hs, by simp [hbuilt]⟩, hbuilt⟩
    · rw [Table.find?_eq_some_iff, hentries, List.mem_map] at hentry
      obtain ⟨u, hu, he⟩ := hentry
      cases he
      obtain ⟨hbuilds, rfl⟩ := builds_of_typeOfEntry ih hs hread
      have hinsert := hbuilds.rebuilt.insert hu (by simpa using hbuilds.found)
      exact ⟨⟨hbuilds.keeps.trans hinsert.keeps, hinsert.rebuilt, hinsert.found⟩,
        by simp [Table.find?_insert]⟩

/-! ## The registry that is read -/

variable {v r : Registry} {hash : NameHash} {j : Json} {indent : Option String}

/-- The registry with all types of its document, to be read with a hash. -/
def withTable (hash : NameHash) (v : Registry) : Registry := { v with hash, types := typeTable v }

theorem named_withTable : (withTable hash v).Named := by
  rintro t ⟨u, hu, ht⟩
  exact name_mem_typeTable hu ht

theorem encode_withTable : encode (withTable hash v) = encode v := by
  have htable : typeTable (withTable hash v) = typeTable v :=
    typeTable_of_named named_withTable
  rw [encode, htable]
  rfl

/-- The registry with the types that were built in the places of those that it mentions. -/
def rebuilt (hash : NameHash) (v : Registry) (s : Table Json CppType)
    (hs : Rebuilt (typeTable v) s) : Registry :=
  (withTable hash v).relink (standIn s) (keepsNames_standIn hs)

section rebuilt
variable (hb : Builds (typeTable v) .empty s (typeTable v).keys)

include hb in
theorem standIn_of_mem (ht : t ∈ (typeTable v).items) :
    standIn s t = t.mapArguments (standIn s) := by
  rw [standIn, hb.rebuilt.find? ht (hb.found _ (Catalog.key_mem_keys ht))]
  rfl

theorem keys_types_rebuilt : (rebuilt hash v s hb.rebuilt).types.keys = (typeTable v).keys :=
  Catalog.keys_mapValues _ (Category.types.key_mapTypes (keepsNames_standIn hb.rebuilt)) _

theorem keys_functions_rebuilt : (rebuilt hash v s hb.rebuilt).functions.keys = v.functions.keys :=
  Catalog.keys_mapValues _ (Category.functions.key_mapTypes (keepsNames_standIn hb.rebuilt)) _

theorem items_types_rebuilt :
    (typeTable v).items.map (standIn s) = (rebuilt hash v s hb.rebuilt).types.items :=
  List.map_congr_left fun _ => standIn_of_mem hb

/-- What was built are the types that are registered afterwards. -/
theorem built_rebuilt : Built (rebuilt hash v s hb.rebuilt).types s := by
  intro t ht u hu
  rw [← items_types_rebuilt hb] at ht
  obtain ⟨a, -, rfl⟩ := List.mem_map.1 ht
  rw [keepsNames_standIn hb.rebuilt a] at hu
  rw [standIn, hu, Option.getD_some]

theorem coherent_rebuilt : (rebuilt hash v s hb.rebuilt).Coherent := by
  rw [Registry.coherent_iff]
  intro c d hd t ht
  rw [rebuilt, Registry.records_relink] at hd
  obtain ⟨e, he, rfl⟩ := List.mem_map.1 hd
  rw [Category.mentioned_mapTypes] at ht
  obtain ⟨a, ha, rfl⟩ := List.mem_map.1 ht
  have hname := named_withTable _ (.of_mentioned he ha)
  obtain ⟨b, hfind⟩ := Option.ne_none_iff_exists'.1 (hb.found _ hname)
  obtain ⟨u, hu, -, rfl, -⟩ := hb.rebuilt _ b hfind
  rw [standIn, hfind]
  exact List.mem_map.2 ⟨u, hu, rfl⟩

theorem encode_rebuilt : encode (rebuilt hash v s hb.rebuilt) = encode v :=
  ((Registry.Alike.relink _ _ (withTable hash v)).encode_eq
    (typeTable_of_coherent (coherent_rebuilt hb))
    (typeTable_of_named named_withTable)).trans encode_withTable

theorem wellFormed_rebuilt {numbers : Int → Prop} (hv : v.WellFormed numbers)
    (hnames : ∀ t ∈ (typeTable v).items, t.id.WellFormed) :
    (rebuilt hash v s hb.rebuilt).WellFormed numbers := by
  have htable : (withTable hash v).WellFormed numbers :=
    ⟨hnames, hv.classes, hv.enums, hv.aliases, hv.functions⟩
  rw [Registry.wellFormed_iff] at htable ⊢
  intro c d hd
  rw [rebuilt, Registry.records_relink] at hd
  obtain ⟨e, he, rfl⟩ := List.mem_map.1 hd
  exact (htable c e he).mapTypes

end rebuilt

/-- Classes that came in one after another have members that can be told apart. -/
theorem separates_of_foldlM_addClass {l : List ClassRecord} {r r' : Registry}
    (h : (l.map fun c => (classJson c, c)).foldlM addClass r = .ok r') :
    ∀ c ∈ l, r.hash.Separates (c.fields.map (·.name)) ∧
      r.hash.Separates (c.methods.map (·.name)) := by
  induction l generalizing r with
  | nil =>
    intro c hc
    cases hc
  | cons c l ih =>
    rw [List.map_cons, List.foldlM_cons, bind_eq_ok_iff] at h
    obtain ⟨r₁, hfirst, hrest⟩ := h
    simp only [addClass, bind_eq_ok_iff] at hfirst
    obtain ⟨_, -, _, -, _, -, _, -, hadd⟩ := hfirst
    obtain ⟨hfields, hmethods, r₂, hensure, rfl⟩ := Registry.addClass_ok hadd
    obtain ⟨types, holders, rfl, -⟩ := Registry.ensureType_frame hensure
    have hmore := ih hrest
    rw [List.forall_mem_cons]
    exact ⟨⟨hfields, hmethods⟩, hmore⟩

/-- Reading a document builds its types first, adds them, and then reads its classes. -/
theorem exists_phases (h : records hash j = .ok r) :
    ∃ entries types s₁ typed s₂ classed s₃, typeEntries j = .ok entries ∧
      (entries.keys.mapM (typeNamed entries)).run .empty = .ok (types, s₁) ∧
      (types.foldlM (fun r t => liftM (addType r t)) (Registry.empty hash) : Decoding _).run s₁ =
        .ok (typed, s₂) ∧
      (addEntries j "classes" (fun e => do return (e, ← classOf (typeNamed entries) e)) addClass
        typed).run s₂ = .ok (classed, s₃) := by
  rw [records, bind_eq_ok_iff] at h
  obtain ⟨entries, hentries, h⟩ := h
  obtain ⟨_, h⟩ := exists_of_run' h
  obtain ⟨types, s₁, htypes, h⟩ := run_bind_ok_iff.1 h
  obtain ⟨typed, s₂, htyped, h⟩ := run_bind_ok_iff.1 h
  obtain ⟨classed, s₃, hclassed, -⟩ := run_bind_ok_iff.1 h
  exact ⟨entries, types, s₁, typed, s₂, classed, s₃, hentries, htypes, htyped, hclassed⟩

/-- What is read from a document, whatever registry it is of: the records of a coherent registry
under the names of the document. -/
structure Restores (hash : NameHash) (v r : Registry) : Prop where
  hash : r.hash = hash
  coherent : r.Coherent
  wellFormed : r.WellFormed IsShort
  numbers : r.NoCollisions
  types : r.types.keys = (typeTable v).keys
  functions : r.functions.keys = v.functions.keys

/-- The types of a document are all rebuilt before anything else is read. -/
theorem builds_of_keys (hitems : entries.entries =
      types.items.map fun t => (.text t.qualifiedName, typeJson t))
    (h : (entries.keys.mapM (typeNamed entries)).run .empty = .ok (ts, s)) :
    Builds types .empty s types.keys ∧ ts = types.items.map (standIn s) := by
  have hkeys : entries.keys = types.items.map fun t => .text t.qualifiedName := by
    change entries.entries.map Prod.fst = _
    rw [hitems, List.map_map]
    rfl
  rw [hkeys] at h
  exact builds_of_mapM (resolves_lookUp hitems _) rebuilt_empty h

/-- Where the classes of a coherent registry were read, their members can be told apart. -/
theorem separates_of_run {numbers : Int → Prop} (hv : v.WellFormed numbers)
    (hcoherent : v.Coherent) (hitems : entries.entries =
      v.types.items.map fun t => (.text t.qualifiedName, typeJson t))
    (hs : Built v.types s) {r' : Registry} (h : (addEntries (encode v) "classes"
      (fun e => do return (e, ← classOf (typeNamed entries) e)) addClass r).run s = .ok (r', s')) :
    ∀ c ∈ v.classes.items, r.hash.Separates (c.fields.map (·.name)) ∧
      r.hash.Separates (c.methods.map (·.name)) := by
  have hfinds : ∀ t ∈ v.types.items, Finds (Built v.types) (typeNamed entries) t := fun t ht =>
    typeNamed_gives (fun t ht => hcoherent.arguments ht) hitems ht
  rw [addEntries, itemsAt_classes] at h
  obtain ⟨items, s₁, hlift, hfold⟩ := run_bind_ok_iff.1 h
  obtain ⟨hitems', rfl⟩ := run_lift_ok_iff.1 hlift
  cases hitems'
  exact separates_of_foldlM_addClass
    (foldlM_of_run (classes_gives hv.legible hcoherent hfinds) hs hfold)

/-- Where the document was read, no numbers collide in the registry that is rebuilt. -/
private theorem exists_rebuilt_apart (hv : v.WellFormed IsShort)
    (hnames : ∀ t ∈ (typeTable v).items, t.id.WellFormed)
    (htypes : hash.Separates (typeTable v).keys) (hfunctions : hash.Separates v.functions.keys)
    (h : records hash (encode v) = .ok r) :
    ∃ s, ∃ hb : Builds (typeTable v) .empty s (typeTable v).keys,
      (rebuilt hash v s hb.rebuilt).NoCollisions := by
  obtain ⟨entries, types, s, typed, s₁, classed, s₂, hentries, hbuilt, htyped, hclassed⟩ :=
    exists_phases h
  obtain ⟨entries', hentries', hitems⟩ := typeEntries_encode v
  cases hentries.symm.trans hentries'
  obtain ⟨hb, rfl⟩ := builds_of_keys hitems hbuilt
  refine ⟨s, hb, ?_⟩
  have hcoherent : (rebuilt hash v s hb.rebuilt).Coherent := coherent_rebuilt hb
  have hwell : (rebuilt hash v s hb.rebuilt).WellFormed IsShort := wellFormed_rebuilt hb hv hnames
  have hencode : encode (rebuilt hash v s hb.rebuilt) = encode v := encode_rebuilt hb
  have htypes' : hash.Separates (rebuilt hash v s hb.rebuilt).types.keys :=
    (keys_types_rebuilt hb).symm ▸ htypes
  rw [← hencode] at hentries hclassed
  obtain ⟨entries', hentries', hitems'⟩ := typeEntries_encode (rebuilt hash v s hb.rebuilt)
  cases hentries.symm.trans hentries'
  rw [typeTable_of_coherent hcoherent] at hitems'
  obtain ⟨holders, hadd⟩ := foldlM_addType (r := .empty hash) hwell.legible.types .empty htypes'
  have hlist : (typeTable v).items.map (standIn s) = (rebuilt hash v s hb.rebuilt).types.items :=
    items_types_rebuilt hb
  rw [hlist] at htyped
  obtain ⟨rfl, hs⟩ := (Gives.foldlM_of_ok hadd).of_run (built_rebuilt hb) htyped
  have hmembers := separates_of_run hwell hcoherent hitems' hs hclassed
  exact ⟨htypes', (keys_functions_rebuilt hb).symm ▸ hfunctions, fun c hc => (hmembers c hc).1,
    fun c hc => (hmembers c hc).2⟩

theorem restores_of_records (hv : v.WellFormed IsShort)
    (hnames : ∀ t ∈ (typeTable v).items, t.id.WellFormed)
    (htypes : hash.Separates (typeTable v).keys) (hfunctions : hash.Separates v.functions.keys)
    (h : records hash (encode v) = .ok r) : Restores hash v r := by
  obtain ⟨s, hb, hnumbers⟩ := exists_rebuilt_apart hv hnames htypes hfunctions h
  have hcoherent : (rebuilt hash v s hb.rebuilt).Coherent := coherent_rebuilt hb
  have hwell : (rebuilt hash v s hb.rebuilt).WellFormed IsShort := wellFormed_rebuilt hb hv hnames
  obtain ⟨r', hr', hhash, htypes', hclasses, henums, haliases, hfunctions'⟩ :=
    records_encode hwell.legible hcoherent hnumbers
  rw [encode_rebuilt hb] at hr'
  cases h.symm.trans hr'
  have hrecords : ∀ c, r.records c = (rebuilt hash v s hb.rebuilt).records c := by
    rintro (_ | _ | _ | _ | _)
    exacts [htypes', hclasses, henums, haliases, hfunctions']
  exact {
    hash := hhash
    coherent := .of_records hrecords hcoherent
    wellFormed := .of_records hrecords hwell
    numbers := .of_records hhash hrecords hnumbers
    types := htypes' ▸ keys_types_rebuilt hb
    functions := hfunctions' ▸ keys_functions_rebuilt hb }

/-- Whatever registry a text was written of, what is read from it is coherent and can be read from
its own text again. -/
theorem restores_of_ofText (hv : v.WellFormed IsShort)
    (hnames : ∀ t ∈ (typeTable v).items, t.id.WellFormed)
    (htypes : hash.Separates (typeTable v).keys) (hfunctions : hash.Separates v.functions.keys)
    (hi : Json.IsBlank indent) (h : ofText hash (toText v indent) = .ok r) : Restores hash v r := by
  rw [ofText_of_exact (exact_encode hv hnames) hash hi] at h
  exact restores_of_records hv hnames htypes hfunctions h

end Introspect.Document

/-! ## The text of what registries are together

It is read back, and when the registries come in again on top of what was read, it stays as it is. -/
namespace Introspect

namespace Registry
variable {a a' b b' r s : Registry} {rs : List Registry} {hash : NameHash} {c : Category}

theorem named_empty (hash : NameHash) : (empty hash).Named := by
  rintro t ⟨u, hu, -⟩
  rcases hu with hu | hu <;> cases hu

theorem Named.foldl (hs : s.Named) (hrs : ∀ r ∈ rs, r.Named) :
    (rs.foldl Registry.union s).Named := by
  induction rs generalizing s with
  | nil => exact hs
  | cons r rs ih =>
    exact ih (hs.union (hrs r (List.mem_cons_self ..))) fun a ha =>
      hrs a (List.mem_cons_of_mem _ ha)

theorem Alike.foldl (h : a.Alike b) :
    (rs.foldl Registry.union a).Alike (rs.foldl Registry.union b) := by
  induction rs generalizing a b with
  | nil => exact h
  | cons r rs ih => exact ih (h.union (.refl r))

/-- Registries that come in one after another look no different when what stays follows the types
that come in. -/
theorem Alike.foldl_renewed (s : Registry) (rs : List Registry) :
    (rs.foldl Registry.renewed s).Alike (rs.foldl Registry.union s) := by
  induction rs generalizing s with
  | nil => exact .refl s
  | cons r rs ih => exact (ih (s.renewed r)).trans (.foldl (.renewed s r))

theorem Coherent.foldl_renewed (hs : s.Coherent) (hrs : ∀ r ∈ rs, r.Coherent) :
    (rs.foldl Registry.renewed s).Coherent := by
  induction rs generalizing s with
  | nil => exact hs
  | cons r rs ih =>
    exact ih (hs.renewed (hrs r (List.mem_cons_self ..))) fun a ha =>
      hrs a (List.mem_cons_of_mem _ ha)

theorem Accumulates.foldl_renewed {as : List Registry} (hs : Accumulates as s)
    (hrs : ∀ r ∈ as ++ rs, r.Coherent) : Accumulates (as ++ rs) (rs.foldl Registry.renewed s) := by
  induction rs generalizing as s with
  | nil => rwa [List.append_nil]
  | cons r rs ih =>
    have hlist : as ++ [r] ++ rs = as ++ r :: rs := by simp
    have hnext := hs.renewed (fun a ha => hrs a (by simp [ha])) (hrs r (by simp))
    rw [← hlist] at hrs ⊢
    exact ih hnext hrs

theorem hash_foldl_renewed (rs : List Registry) : (rs.foldl renewed s).hash = s.hash := by
  induction rs generalizing s with
  | nil => rfl
  | cons r rs ih => exact ih

end Registry

namespace Document
open Registry
variable {rs : List Registry} {stored : Registry} {hash : NameHash} {indent : Option String}

/-- The text of what some registries are together is that of a registry which can be read back. -/
theorem exists_ofText_foldl (h : Combinable hash rs) (hi : Json.IsBlank indent) :
    ∃ s, ofText hash (toText (rs.foldl Registry.union (.empty hash)) indent) = .ok s ∧
      s.Coherent ∧ s.Alike (rs.foldl Registry.union (.empty hash)) := by
  let v := rs.foldl Registry.renewed (.empty hash)
  have hhash : v.hash = hash := hash_foldl_renewed rs
  have hcoherent : v.Coherent := (coherent_empty hash).foldl_renewed h.coherent
  have hv : Accumulates rs v := (accumulates_empty hash).foldl_renewed h.coherent
  have halike : v.Alike (rs.foldl Registry.union (.empty hash)) := Alike.foldl_renewed _ rs
  have hnamed : (rs.foldl Registry.union (.empty hash)).Named :=
    (named_empty hash).foldl fun r hr => (h.coherent r hr).named
  obtain ⟨s, hs, -, htypes, hclasses, henums, haliases, hfunctions⟩ :=
    exists_ofText (hv.wellFormed h.wellFormed) hcoherent (hv.noCollisions (hhash.symm ▸ h)) hi
  have hrecords : ∀ c, s.records c = v.records c := by
    rintro (_ | _ | _ | _ | _)
    exacts [htypes, hclasses, henums, haliases, hfunctions]
  have hencode := halike.encode_eq (typeTable_of_coherent hcoherent) (typeTable_of_named hnamed)
  rw [toText, hencode, hhash] at hs
  exact ⟨s, hs, .of_records hrecords hcoherent, (Alike.of_records hrecords).trans halike⟩

/-- Registries that were added to one that was stored are all read back with it; added again, they
leave the text as it is. -/
theorem exists_ofText_again (h : Combinable hash (stored :: rs)) (hi : Json.IsBlank indent)
    {r combined : Registry} (hr : r = rs.foldl Registry.union (.empty hash))
    (hcombined : combined = ((Registry.empty hash).union stored).union r) :
    ∃ s, ofText hash (toText combined indent) = .ok s ∧
      toText (((Registry.empty hash).union s).union r) indent = toText combined indent := by
  have hfold : combined = (stored :: rs).foldl Registry.union (.empty hash) := by
    rw [hcombined, hr, union_foldl, union_union_empty]
    rfl
  obtain ⟨s, hs, hcoherent, halike⟩ := exists_ofText_foldl h hi
  rw [← hfold] at hs halike
  refine ⟨s, hs, ?_⟩
  have hread : ((Registry.empty hash).union s).Alike combined :=
    (Alike.of_records (records_empty_union hash s)).trans halike
  have hagain : (((Registry.empty hash).union s).union r).Alike combined := by
    have hunion := hread.union (.refl r)
    rwa [hcombined, union_union_self, ← hcombined] at hunion
  have hrs : ∀ a ∈ stored :: rs, a.Named := fun a ha => (h.coherent a ha).named
  have hnamed : r.Named := hr ▸ (named_empty hash).foldl fun a ha => hrs a (by simp [ha])
  have hencode := hagain.encode_eq
    (typeTable_of_named (((named_empty hash).union hcoherent.named).union hnamed))
    (typeTable_of_named (hfold ▸ (named_empty hash).foldl hrs))
  rw [toText, hencode, toText]

end Document
end Introspect
