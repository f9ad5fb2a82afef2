import Introspect.Proofs.Document.Entries
import Introspect.Proofs.Document.RoundTrip
import Introspect.Proofs.Registry.History

/-! Documents that cannot be read. Where no type is among its own arguments, a reading either goes
well or fails with an error of reflection, as long as the values stand at their places whose kind
it takes for granted. -/
namespace Introspect

/-- Whether a failure is one of those errors of reflection that a text is refused with: what is
wrong with a registry file, or names that share a number. -/
def Failure.isRefusal : Failure → Bool
  | .registryFile _ | .collision _ _ => true
  | _ => false

theorem Failure.isReflection_of_isRefusal {e : Failure} (h : e.isRefusal) : e.isReflection := by
  cases e <;> first | rfl | cases h

namespace Document
open Relation
variable {α β : Type} {regular regular' : Prop}

/-! ## Rules -/

/-- The reading is refused with an error of reflection, or it fails because of data of the wrong
kind, and then they are not `regular`. -/
def Refuses (x : Except Failure α) (regular : Prop) : Prop :=
  ∀ e, x = .error e → e.isRefusal ∨ e = .wrongKind ∧ ¬ regular

namespace Refuses
variable {x : Except Failure α}

theorem mono (h : Refuses x regular) (himp : regular' → regular) : Refuses x regular' :=
  fun e he => (h e he).imp_right fun ⟨hkind, hno⟩ => ⟨hkind, fun hr => hno (himp hr)⟩

theorem ok (a : α) : Refuses (.ok a : Except Failure α) regular := nofun

theorem error {e : Failure} (h : e.isRefusal) : Refuses (.error e : Except Failure α) regular := by
  rintro _ ⟨⟩
  exact .inl h

theorem wrongKind (h : ¬ regular) : Refuses (.error .wrongKind : Except Failure α) regular := by
  rintro _ ⟨⟩
  exact .inr ⟨rfl, h⟩

theorem bind {f : α → Except Failure β} (hx : Refuses x regular)
    (hf : ∀ a, x = .ok a → Refuses (f a) regular) : Refuses (x >>= f) regular := by
  intro e he
  obtain he | ⟨a, ha, he⟩ := cases_of_bind_eq_error he
  · exact hx e he
  · exact hf a ha e he

theorem mapM {f : β → Except Failure α} {l : List β} (h : ∀ b ∈ l, Refuses (f b) regular) :
    Refuses (l.mapM f) regular := by
  induction l with
  | nil => exact .ok []
  | cons b l ih =>
    rw [List.mapM_cons]
    refine (h b (by simp)).bind fun a _ => ?_
    exact (ih fun c hc => h c (by simp [hc])).bind fun _ _ => .ok _

end Refuses

/-- Whatever was built before, the reading is refused in no other way. -/
def AlwaysRefuses (m : Decoding α) (regular : Prop) : Prop := ∀ s, Refuses (m.run s) regular

namespace AlwaysRefuses
variable {m : Decoding α}

theorem mono (h : AlwaysRefuses m regular) (himp : regular' → regular) : AlwaysRefuses m regular' :=
  fun s => (h s).mono himp

theorem pure (a : α) : AlwaysRefuses (Pure.pure a) regular := fun _ => .ok _

theorem lift {x : Except Failure α} (h : Refuses x regular) : AlwaysRefuses (liftM x) regular :=
  fun _ => h.bind fun _ _ => .ok _

theorem bind {f : α → Decoding β} {post : α → Prop} (hm : AlwaysRefuses m regular)
    (hpost : Reads (fun _ => True) m post) (hf : ∀ a, post a → AlwaysRefuses (f a) regular) :
    AlwaysRefuses (m >>= f) regular := by
  intro s
  rw [StateT.run_bind]
  exact (hm s).bind fun found hrun => hf _ (hpost s _ _ trivial hrun).2 _

theorem bind' {f : α → Decoding β} (hm : AlwaysRefuses m regular)
    (hf : ∀ a, AlwaysRefuses (f a) regular) : AlwaysRefuses (m >>= f) regular :=
  hm.bind (.any m) fun a _ => hf a

theorem lift_bind {x : Except Failure α} {f : α → Decoding β} (hx : Refuses x regular)
    (hf : ∀ a, x = .ok a → AlwaysRefuses (f a) regular) :
    AlwaysRefuses (liftM x >>= f) regular :=
  (lift hx).bind (.lift fun _ h => h) hf

theorem mapM {read : β → Decoding α} {l : List β}
    (h : ∀ b ∈ l, AlwaysRefuses (read b) regular) : AlwaysRefuses (l.mapM read) regular := by
  induction l with
  | nil => exact .pure []
  | cons b l ih =>
    rw [List.mapM_cons]
    refine (h b (by simp)).bind' fun a => ?_
    exact (ih fun c hc => h c (by simp [hc])).bind' fun _ => .pure _

theorem foldlM {step : α → β → Decoding α} {l : List β}
    (h : ∀ a, ∀ b ∈ l, AlwaysRefuses (step a b) regular) (a : α) :
    AlwaysRefuses (l.foldlM step a) regular := by
  induction l generalizing a with
  | nil => exact .pure a
  | cons b l ih =>
    rw [List.foldlM_cons]
    exact (h a b (by simp)).bind' fun a' => ih (fun a c hc => h a c (by simp [hc])) a'

end AlwaysRefuses

/-! ## Values -/

/-- What stands under a name, if anything, is a text. -/
def TextAt (j : Json) (name : String) : Prop := ∃ s, optional j name (.text "") = .text s

theorem TextAt.of_required {j v : Json} {name : String} (ht : TextAt j name)
    (h : required j name = .ok v) : ∃ s, v = .text s := by
  rwa [TextAt, optional_of_required h] at ht

theorem refuses_required (j : Json) (name : String) : Refuses (required j name) regular := by
  unfold required
  split
  · split
    · exact .ok _
    · exact .error rfl
  · exact .error rfl

theorem refuses_requiredAs {read : Json → Except Failure α} {j : Json} {name : String}
    (h : ∀ v, required j name = .ok v → Refuses (read v) regular) :
    Refuses (requiredAs read j name) regular :=
  (refuses_required j name).bind h

theorem refuses_itemsOf (j : Json) : Refuses (itemsOf j) regular := by
  unfold itemsOf
  split
  · exact .ok _
  · exact .error rfl

theorem refuses_listAt {read : Json → Except Failure α} {P : Json → Prop} {j : Json}
    {name : String} (hread : ∀ e, Refuses (read e) (P e)) (himp : regular → Each P j name) :
    Refuses (listAt read j name) regular :=
  (refuses_itemsOf _).bind fun items hitems => .mapM fun e he =>
    (hread e).mono fun hr => himp hr items hitems e he

theorem refuses_textOf (j : Json) : Refuses (textOf j) regular := by
  unfold textOf
  split
  · exact .ok _
  · exact .error rfl

theorem refuses_kindOf (j : Json) : Refuses (kindOf j) regular := by
  unfold kindOf
  split
  · split
    · exact .ok _
    · exact .error rfl
  · exact .error rfl

theorem refuses_templateKindOf (j : Json) : Refuses (templateKindOf j) regular := by
  unfold templateKindOf
  split
  · split
    · exact .ok _
    · exact .error rfl
  · exact .error rfl

theorem refuses_classKeyOf (j : Json) : Refuses (classKeyOf j) regular := by
  unfold classKeyOf
  split
  · split
    · exact .ok _
    · exact .error rfl
  · exact .error rfl

theorem refuses_lifetimeOf (j : Json) : Refuses (lifetimeOf j) (∃ s, j = .text s) := by
  unfold lifetimeOf
  split
  · dsimp only
    split
    · exact .ok _
    · split
      · exact .ok _
      · exact .error rfl
  · next hno => exact .wrongKind fun ⟨s, hs⟩ => hno s hs

theorem refuses_noteOf (j : Json) : Refuses (noteOf j) (TextAt j "lifetime") :=
  (refuses_required j "value").bind fun _ _ =>
    (refuses_requiredAs fun v hv => (refuses_lifetimeOf v).mono fun h => h.of_required hv).bind
      fun _ _ => .ok _

/-- Attributes stand in an object, and the lifetime of each is a text. -/
def RegularAttributes (j : Json) : Prop :=
  ∃ ms, j = .object ms ∧ ∀ m ∈ ms, TextAt m.2 "lifetime"

theorem refuses_attributesOf (j : Json) : Refuses (attributesOf j) (RegularAttributes j) := by
  cases j with
  | object ms =>
    refine Refuses.bind (.mapM fun m hm => Refuses.bind ?_ fun _ _ => .ok _) fun _ _ => .ok _
    refine (refuses_noteOf m.2).mono ?_
    rintro ⟨_, ⟨⟩, h⟩
    exact h m hm
  | _ => exact .wrongKind nofun

/-- The lifetimes of tags and attributes are texts, and the attributes have names. -/
structure RegularMetadata (j : Json) : Prop where
  tags : Each (TextAt · "lifetime") j "tags"
  attributes : RegularAttributes (optional j "attributes" (.object []))

theorem refuses_metadataOf (j : Json) : Refuses (metadataOf j) (RegularMetadata j) := by
  refine (refuses_requiredAs fun v _ => refuses_textOf v).bind fun file _ => ?_
  refine (refuses_listAt refuses_noteOf fun h => h.tags).bind fun tags _ => ?_
  exact ((refuses_attributesOf _).mono fun h => h.attributes).bind fun _ _ => .ok _

/-- The metadata of a record, if it has any, are regular. -/
def RegularRecord (j : Json) : Prop := RegularMetadata (optional j "metadata" (.object []))

theorem refuses_metadata (j : Json) :
    Refuses (requiredAs metadataOf j "metadata") (RegularRecord j) :=
  refuses_requiredAs fun v hv => (refuses_metadataOf v).mono fun h => by
    rwa [RegularRecord, optional_of_required hv] at h

theorem refuses_nameOf (j : Json) : Refuses (nameOf j) regular := by
  intro e he
  refine refuses_required j "name" e ?_
  unfold nameOf at he
  cases hname : required j "name" with
  | ok v =>
    rw [hname] at he
    cases he
  | error e' =>
    rw [hname] at he
    cases he
    rfl

theorem exists_of_nameOf {j : Json} {g : Given String} (h : nameOf j = .ok g) :
    ∃ v, required j "name" = .ok v ∧ g = .ofJson v := by
  unfold nameOf at h
  cases hname : required j "name" with
  | ok v =>
    rw [hname] at h
    cases h
    exact ⟨v, rfl, rfl⟩
  | error e =>
    rw [hname] at h
    cases h

theorem refuses_enumeratorOf (j : Json) : Refuses (enumeratorOf j) (RegularRecord j) :=
  (refuses_nameOf j).bind fun _ _ => (refuses_required j "value").bind fun _ _ =>
    (refuses_metadata j).bind fun _ _ => .ok _

/-! ## Types -/

/-- The names of the template arguments in an entry of the type table. -/
def argumentNames (e : Json) : List Json :=
  (((optional e "template" .null).member? "arguments").bind Json.parts?).getD []

theorem argumentNames_of_itemsOf {e : Json} {names : List Json}
    (h : requiredAs itemsOf (optional e "template" .null) "arguments" = .ok names) :
    argumentNames e = names := by
  obtain ⟨v, hv, hitems⟩ := bind_eq_ok_iff.1 h
  unfold itemsOf at hitems
  split at hitems
  · next items hparts =>
    cases hitems
    simp [argumentNames, member?_of_required hv, hparts]
  · cases hitems

/-- The entry under the first id names the second among its arguments. -/
def Refers (entries : Table Json Json) (k k' : Json) : Prop :=
  ∃ e, entries.find? k = some e ∧ ∃ j ∈ argumentNames e, j.canonical = k'

/-- No type is among its own arguments, at any depth. -/
def Acyclic (entries : Table Json Json) : Prop := ∀ k, ¬ TransGen (Refers entries) k k

theorem refuses_idOf (j : Json) : Refuses (idOf j) regular := by
  unfold idOf
  split
  · exact .ok _
  · exact .error rfl

theorem refuses_typeEntries (j : Json) : Refuses (typeEntries j) regular :=
  (refuses_listAt (P := fun _ => True) (fun _ => (refuses_requiredAs fun v _ =>
    refuses_idOf v).bind fun _ _ => .ok _) fun _ _ _ _ _ => trivial).bind fun _ _ => .ok _

theorem refuses_typeOfEntry {look : Json → Decoding CppType} {e : Json}
    (hlook : ∀ j ∈ argumentNames e, AlwaysRefuses (look j) regular) :
    AlwaysRefuses (typeOfEntry look e) regular := by
  have htemplate : AlwaysRefuses (templateOf look e) regular := by
    rw [templateOf]
    dsimp only
    split
    · exact .pure none
    · refine .lift_bind (refuses_requiredAs fun v _ => refuses_templateKindOf v) fun kind _ => ?_
      refine .lift_bind (refuses_requiredAs fun v _ => refuses_itemsOf v) fun names hnames => ?_
      rw [argumentNames_of_itemsOf hnames] at hlook
      refine (AlwaysRefuses.mapM hlook).bind' fun arguments => ?_
      split
      · exact .lift_bind (.error rfl) fun _ _ => .pure _
      · exact .pure _
  rw [typeOfEntry]
  refine htemplate.bind' fun template => ?_
  refine .lift_bind (refuses_required e "name") fun name _ => ?_
  refine .lift_bind (refuses_requiredAs fun v _ => refuses_kindOf v) fun kind _ => ?_
  cases template with
  | none => exact .pure _
  | some found => exact .pure _

/-- Where no type is among its own arguments, a look-up goes no deeper than the table is long. -/
theorem refuses_typeNamed {entries : Table Json Json} (hacyclic : Acyclic entries) (j : Json) :
    AlwaysRefuses (typeNamed entries j) True := by
  -- Names that are equal as data stand for one entry, so the depth is that of their common form.
  have hdepth : ∀ j', j'.canonical = j.canonical →
      AlwaysRefuses (lookUp entries (entries.size + 1) j') True := by
    refine depth_induction (R := Refers entries) (S := entries.keys.toFinset)
      (P := fun n k => ∀ j', j'.canonical = k → AlwaysRefuses (lookUp entries n j') True)
      ?_ ?_ (fun k _ => hacyclic k) ?_
    · rintro k _ ⟨e, he, -⟩
      exact List.mem_toFinset.2 (Table.mem_keys_iff_exists.2 ⟨e, he⟩)
    · rintro n _ ih j' rfl
      rw [lookUp]
      refine .lift_bind (refuses_idOf j') fun id hid => ?_
      have hcanonical : id = j'.canonical := (idOf_ok_iff.1 hid).2
      refine AlwaysRefuses.bind' (fun _ => .ok _) fun s => ?_
      split
      · exact .pure _
      · split
        · exact fun _ => .error rfl
        · next e he =>
          refine (refuses_typeOfEntry fun i hi => ?_).bind' fun t =>
            .bind' (fun _ => .ok _) fun _ => .pure t
          exact ih _ ⟨e, hcanonical ▸ he, i, hi, rfl⟩ i rfl
    · exact Nat.lt_succ_of_le ((List.toFinset_card_le _).trans_eq (List.length_map ..))
  exact hdepth j rfl

/-! ## Records -/

/-- The name of a member is a text, and its metadata are regular. -/
structure RegularMember (j : Json) : Prop where
  name : TextAt j "name"
  record : RegularRecord j

structure RegularClass (j : Json) : Prop where
  record : RegularRecord j
  fields : Each RegularMember j "fields"
  methods : Each RegularMember j "methods"

structure RegularEnum (j : Json) : Prop where
  record : RegularRecord j
  values : Each RegularRecord j "values"

/-- A name at the top is a text, and the metadata are regular. -/
structure RegularFunction (j : Json) : Prop where
  id : (spelled j).Numbered
  record : RegularRecord j

section reading
variable {look : Json → Decoding CppType} (hlook : ∀ j, AlwaysRefuses (look j) True)
include hlook

theorem refuses_look (j : Json) : AlwaysRefuses (look j) regular := (hlook j).mono fun _ => trivial

theorem refuses_useOf (j : Json) : AlwaysRefuses (useOf look j) regular :=
  .lift_bind (refuses_required j "type") fun v _ => (refuses_look hlook v).bind' fun _ => .pure _

theorem refuses_usesOf (j : Json) (name : String) : AlwaysRefuses (usesOf look j name) regular :=
  .lift_bind (refuses_itemsOf _) fun _ _ => .mapM fun e _ => refuses_useOf hlook e

theorem refuses_fieldOf (j : Json) : AlwaysRefuses (fieldOf look j) (RegularRecord j) := by
  refine .lift_bind (refuses_nameOf j) fun name _ => ?_
  refine .lift_bind (refuses_required j "type") fun v _ => ?_
  refine (refuses_useOf hlook v).bind' fun use => ?_
  exact .lift_bind (refuses_metadata j) fun _ _ => .pure _

theorem refuses_methodOf (j : Json) : AlwaysRefuses (methodOf look j) (RegularRecord j) := by
  refine .lift_bind (refuses_nameOf j) fun name _ => ?_
  refine .lift_bind (refuses_required j "return_type") fun v _ => ?_
  refine (refuses_useOf hlook v).bind' fun result => ?_
  refine (refuses_usesOf hlook j _).bind' fun arguments => ?_
  exact .lift_bind (refuses_metadata j) fun _ _ => .pure _

theorem refuses_classOf (j : Json) : AlwaysRefuses (classOf look j) (RegularClass j) := by
  refine .lift_bind (refuses_required j "type") fun v _ => ?_
  refine (refuses_look hlook v).bind' fun type => ?_
  refine .lift_bind ((refuses_metadata j).mono fun h => h.record) fun metadata _ => ?_
  refine .lift_bind (refuses_classKeyOf _) fun key _ => ?_
  refine .lift_bind (refuses_itemsOf _) fun fieldItems hfieldItems => ?_
  refine (AlwaysRefuses.mapM fun e he => (refuses_fieldOf hlook e).mono fun h =>
    (h.fields fieldItems hfieldItems e he).record).bind' fun fields => ?_
  refine .lift_bind (refuses_itemsOf _) fun methodItems hmethodItems => ?_
  refine (AlwaysRefuses.mapM fun e he => (refuses_methodOf hlook e).mono fun h =>
    (h.methods methodItems hmethodItems e he).record).bind' fun methods => ?_
  exact .lift_bind (refuses_itemsOf _) fun _ _ => .pure _

theorem refuses_enumOf (j : Json) : AlwaysRefuses (enumOf look j) (RegularEnum j) := by
  refine .lift_bind (refuses_required j "type") fun v _ => ?_
  refine (refuses_look hlook v).bind' fun type => ?_
  refine .lift_bind ((refuses_metadata j).mono fun h => h.record) fun metadata _ => ?_
  exact .lift_bind (refuses_listAt refuses_enumeratorOf fun h => h.values) fun _ _ => .pure _

theorem refuses_aliasOf (j : Json) : AlwaysRefuses (aliasOf look j) (RegularRecord j) := by
  refine .lift_bind (refuses_required j "type") fun v _ => ?_
  refine (refuses_look hlook v).bind' fun type => ?_
  refine .lift_bind (refuses_required j "alias_type") fun w _ => ?_
  refine (refuses_look hlook w).bind' fun target => ?_
  exact .lift_bind (refuses_metadata j) fun _ _ => .pure _

theorem refuses_functionOf (j : Json) : AlwaysRefuses (functionOf look j) (RegularFunction j) := by
  refine .lift_bind (refuses_nameOf j) fun name _ => ?_
  refine .lift_bind (refuses_required j "return_type") fun v _ => ?_
  refine (refuses_useOf hlook v).bind' fun result => ?_
  refine (refuses_usesOf hlook j _).bind' fun arguments => ?_
  exact .lift_bind ((refuses_metadata j).mono fun h => h.record) fun _ _ => .pure _

end reading

theorem reads_functionOf_id (look : Json → Decoding CppType) (j : Json) :
    Reads (fun _ => True) (functionOf look j) fun f => f.id = spelled j := by
  refine .lift_bind fun name hname => .lift_bind fun v _ => ?_
  refine (Reads.any _).bind fun result _ => (Reads.any _).bind fun arguments _ => ?_
  refine .lift_bind fun metadata _ => .pure ?_
  obtain ⟨w, hw, rfl⟩ := exists_of_nameOf hname
  rw [spelled, optional_of_required hw]

/-! ## The registry that is filled -/

section filling
variable {r : Registry} {hash : NameHash}

theorem refuses_apply (i : Insertion) (r : Registry) : Refuses (i.apply r) regular :=
  fun e he => by
    obtain ⟨_, _, rfl⟩ := Insertion.exists_collision_of_error he
    exact .inl rfl

theorem refuses_requireNumber (q : QualifiedName) : Refuses (requireNumber q) q.Numbered := by
  intro e he
  have hno : ¬ q.Numbered := fun hq => by
    rw [requireNumber_iff.2 hq] at he
    cases he
  unfold requireNumber at he
  split at he
  · cases he
    exact .inr ⟨rfl, hno⟩
  · cases he

theorem refuses_addType (t : CppType) : Refuses (addType r t) t.id.Numbered :=
  (refuses_requireNumber t.id).bind fun _ _ => refuses_apply (.type t) r

theorem refuses_addFunction (f : FunctionRecord) : Refuses (addFunction r f) f.id.Numbered :=
  (refuses_requireNumber f.id).bind fun _ _ => refuses_apply (.function f) r

theorem refuses_requireDistinct (kind : NameKind) (names : List String) :
    Refuses (r.requireDistinct kind names) regular := by
  unfold Registry.requireDistinct
  split
  · exact .ok ()
  · exact .error rfl

theorem refuses_requireNumbers (kind : NameKind) (members : List Json) :
    Refuses (requireNumbers r kind members) (∀ e ∈ members, TextAt e "name") := by
  refine (Refuses.mapM fun e _ => refuses_nameOf e).bind fun names hnames => ?_
  refine (refuses_requireDistinct kind _).bind fun _ _ => ?_
  split
  · next hless =>
    refine .wrongKind fun htexts => ?_
    have hproper : names = (names.map Given.text).map .proper := by
      rw [List.map_map]
      refine (List.map_id names).symm.trans (List.map_congr_left fun g hg => ?_)
      obtain ⟨e, he, hname⟩ := (mem_mapM_ok hnames).1 hg
      obtain ⟨w, hw, rfl⟩ := exists_of_nameOf hname
      obtain ⟨s, rfl⟩ := (htexts e he).of_required hw
      rfl
    rw [hproper, texts_of_proper] at hless
    simp at hless
  · exact .ok ()

theorem refuses_addClass (e : Json × ClassRecord) : Refuses (addClass r e) (RegularClass e.1) := by
  refine (refuses_itemsOf _).bind fun fields hfields => ?_
  refine ((refuses_requireNumbers .field fields).mono fun h m hm =>
    (h.fields fields hfields m hm).name).bind fun _ _ => ?_
  refine (refuses_itemsOf _).bind fun methods hmethods => ?_
  refine ((refuses_requireNumbers .method methods).mono fun h m hm =>
    (h.methods methods hmethods m hm).name).bind fun _ _ => ?_
  exact refuses_apply (.class e.2) r

/-- The records of a category are read and added one by one. -/
theorem refuses_addEntries {j : Json} {name : String} {read : Json → Decoding α}
    {add : Registry → α → Except Failure Registry} {P : Json → Prop} {post : Json → α → Prop}
    (hread : ∀ e, AlwaysRefuses (read e) (P e))
    (hpost : ∀ e, Reads (fun _ => True) (read e) (post e))
    (hadd : ∀ r e a, post e a → Refuses (add r a) (P e)) (himp : regular → Each P j name)
    (r : Registry) : AlwaysRefuses (addEntries j name read add r) regular :=
  .lift_bind (refuses_itemsOf _) fun items hitems => .foldlM (fun r e he =>
    ((hread e).bind (hpost e) fun a ha => .lift (hadd r e a ha)).mono fun hr =>
      himp hr items hitems e he) r

end filling

/-! ## The whole document -/

/-- Whatever the document says, the values stand in it whose kind is taken for granted: objects for
the whole and for attributes, texts for lifetimes, for names of fields and methods, and for names at
the top of types and functions. -/
structure Regular (j : Json) : Prop where
  object : ∃ ms, j = .object ms
  types : Each (fun e => (spelled e).Numbered) j "types"
  classes : Each RegularClass j "classes"
  enums : Each RegularEnum j "enums"
  aliases : Each RegularRecord j "aliases"
  functions : Each RegularFunction j "functions"

variable {hash : NameHash} {j : Json}

theorem refuses_records
    (hacyclic : ∀ entries, typeEntries j = .ok entries → Acyclic entries) :
    Refuses (records hash j) (Regular j) := by
  refine (refuses_typeEntries j).bind fun entries hentries => ?_
  have hlook := refuses_typeNamed (hacyclic entries hentries)
  refine Refuses.bind (x := StateT.run _ _) ?_ fun _ _ => .ok _
  rw [StateT.run_bind]
  refine (AlwaysRefuses.mapM (fun k _ => refuses_look hlook k) _).bind fun found hrun => ?_
  obtain ⟨types, s⟩ := found
  -- the first look-ups start from nothing, so each type has the name of an entry
  have hnames : ∀ t ∈ types, ∃ k e, entries.find? k = some e ∧ t.id = spelled e :=
    (Reads.mapM (fun k _ => reads_lookUp entries _ k) _ _ _ (settled_empty entries) hrun).2
  refine AlwaysRefuses.bind' (.foldlM (fun r t ht => .lift ?_) _) (fun typed => ?_) s
  · obtain ⟨k, e, he, hid⟩ := hnames t ht
    obtain ⟨items, hitems, hmem, -⟩ := exists_of_find?_typeEntries hentries he
    exact (refuses_addType t).mono fun hr => hid ▸ hr.types items hitems e hmem
  have hclass : ∀ e, Reads (fun _ => True) (do return (e, ← classOf (typeNamed entries) e) :
      Decoding (Json × ClassRecord)) fun a => a.1 = e :=
    fun e => (Reads.any _).bind fun _ _ => .pure rfl
  refine AlwaysRefuses.bind' ?_ fun classed => AlwaysRefuses.bind' ?_ fun enumed =>
    AlwaysRefuses.bind' ?_ fun aliased => ?_
  · exact refuses_addEntries (fun e => (refuses_classOf hlook e).bind' fun _ => .pure _) hclass
      (fun r e a ha => ha ▸ refuses_addClass a) (fun h => h.classes) typed
  · exact refuses_addEntries (refuses_enumOf hlook) (fun _ => .any _)
      (fun r _ a _ => refuses_apply (.enum a) r) (fun h => h.enums) classed
  · exact refuses_addEntries (refuses_aliasOf hlook) (fun _ => .any _)
      (fun r _ a _ => refuses_apply (.secondName a) r) (fun h => h.aliases) enumed
  · exact refuses_addEntries (refuses_functionOf hlook) (reads_functionOf_id _)
      (fun r e f hf => (refuses_addFunction f).mono fun h => hf ▸ h.id) (fun h => h.functions)
      aliased

theorem refuses_decode (hacyclic : ∀ entries, typeEntries j = .ok entries → Acyclic entries) :
    Refuses (decode hash j) (Regular j) := by
  unfold decode
  split
  · dsimp only
    split
    · exact refuses_records hacyclic
    · exact .error rfl
  · next hno => exact .wrongKind fun hr => hr.object.elim hno

/-- Where no type in the type table is among its own arguments, a text that is not read as a
registry is refused with an error of reflection. Two kinds of text are not: those with a whole
number that is too long, and those with a document that is not regular. -/
theorem ofText_refuses {s : String} {e : Failure}
    (hacyclic : ∀ j entries, Json.parse s = .ok j → typeEntries j = .ok entries → Acyclic entries)
    (h : ofText hash s = .error e) :
    e.isReflection ∧ e.isRefusal ∨
      (∃ n, e = .longNumber n ∧ Json.parse s = .error (.longNumber n)) ∨
      e = .wrongKind ∧ ∃ j, Json.parse s = .ok j ∧ ¬ Regular j := by
  unfold ofText at h
  cases hs : Json.parse s with
  | error fault =>
    rw [hs] at h
    cases fault with
    | malformed =>
      cases h
      exact .inl ⟨rfl, rfl⟩
    | longNumber n =>
      cases h
      exact .inr (.inl ⟨n, rfl, rfl⟩)
  | ok j =>
    rw [hs] at h
    obtain hrefusal | ⟨hkind, hno⟩ :=
      refuses_decode (fun entries => hacyclic j entries hs) e h
    · exact .inl ⟨Failure.isReflection_of_isRefusal hrefusal, hrefusal⟩
    · exact .inr (.inr ⟨hkind, j, rfl, hno⟩)

/-- A document with an enum of a type that the table lacks. -/
def stray : Json :=
  let text (name value : String) : String × Json := (name, .text value)
  .object [
    ("version", .int version),
    ("types", .array [
      .object [text "id" "Box<int>", text "name" "Box<int>", text "kind" "CLASS",
        ("template", .object [text "kind" "specialized", ("arguments", Json.texts ["int"])])],
      .object [text "id" "int", text "name" "int", text "kind" "INT32"]]),
    ("enums", .array [.object [text "type" "Level"]])]

/-- In the table of `stray` there is one reference, from the box to what is in it. -/
private theorem eq_of_refers_stray {entries : Table Json Json} {k k' : Json}
    (h : typeEntries stray = .ok entries) (hk : Refers entries k k') :
    k = .text "Box<int>" ∧ k' = .text "int" := by
  suffices hall : ∀ p ∈ entries.entries, ∀ i ∈ argumentNames p.2,
      p.1 = .text "Box<int>" ∧ i.canonical = .text "int" by
    obtain ⟨e, he, i, hi, rfl⟩ := hk
    exact hall (k, e) (Table.find?_eq_some_iff.1 he) i hi
  cases h
  decide

theorem ofText_refuses_stray :
    (∀ j entries, Json.parse (stray.print none) = .ok j → typeEntries j = .ok entries →
      Acyclic entries) ∧
    ∃ e, ofText .crc32 (stray.print none) = .error e ∧
      (e.isReflection ∧ e.isRefusal ∨
        (∃ n, e = .longNumber n ∧ Json.parse (stray.print none) = .error (.longNumber n)) ∨
        e = .wrongKind ∧ ∃ j, Json.parse (stray.print none) = .ok j ∧ ¬ Regular j) := by
  have hparse : Json.parse (stray.print none) = .ok stray := by
    refine Json.parse_print (Json.isBlank_blanks none) ?_
    simp [stray, Json.Exact, Json.MembersExact, Json.ItemsExact, Json.texts]
    exact isShort_version
  have hacyclic : ∀ j entries, Json.parse (stray.print none) = .ok j →
      typeEntries j = .ok entries → Acyclic entries := by
    intro j entries hj hentries k hk
    cases hparse.symm.trans hj
    obtain ⟨_, hfirst, -⟩ := TransGen.head'_iff.1 hk
    obtain ⟨_, -, hlast⟩ := TransGen.tail'_iff.1 hk
    have hbox := (eq_of_refers_stray hentries hfirst).1
    have hint := (eq_of_refers_stray hentries hlast).2
    exact absurd (hbox.symm.trans hint) (by decide)
  cases hdecode : decode .crc32 stray with
  | ok r =>
    have hno : (decode .crc32 stray).toOption.isSome = false := by decide +kernel
    rw [hdecode] at hno
    cases hno
  | error e =>
    have hrefused : ofText .crc32 (stray.print none) = .error e := by
      rw [ofText, hparse]
      exact hdecode
    exact ⟨hacyclic, e, hrefused, ofText_refuses hacyclic hrefused⟩

/-- An array is JSON, but it lacks what objects have, and that is not foreseen. -/
theorem not_isReflection_ofText_brackets :
    (∀ j entries, Json.parse "[]" = .ok j → typeEntries j = .ok entries → Acyclic entries) ∧
    ∃ e, ofText .crc32 "[]" = .error e ∧ ¬ e.isReflection := by
  have hparse : Json.parse "[]" = .ok (.array []) := by rfl
  refine ⟨?_, .wrongKind, ?_, nofun⟩
  · intro j entries hj hentries k hk
    cases hparse.symm.trans hj
    cases hentries
    obtain ⟨_, ⟨e, he, -⟩, -⟩ := TransGen.head'_iff.1 hk
    cases he
  · rw [ofText, hparse]
    rfl

end Document
end Introspect
