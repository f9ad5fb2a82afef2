import Introspect.Proofs.Document.Unfolding

/-! Records are read by looking up the names of types that stand in them. A relation between
readings that is kept by going on from one reading to the next holds between the records that two
look-ups give, if it holds between the look-ups of those names. -/
namespace Introspect

/-- Whether a failure reports the name of a type that is not there. -/
def Failure.isStray : Failure → Bool
  | .registryFile (.unknownType _) => true
  | _ => false

namespace Document
variable {α β : Type} {j : Json} {name : String}

/-! ## Names of types in a document -/

/-- The parts of what stands under a name, none if nothing does. -/
def partsAt (j : Json) (name : String) : List Json := ((j.member? name).bind Json.parts?).getD []

def typeNames (j : Json) : List Json := (j.member? "type").toList

def fieldTypeNames (j : Json) : List Json := (typeNames j).flatMap typeNames

/-- The names in a method or a function. -/
def callableTypeNames (j : Json) : List Json :=
  (j.member? "return_type").toList.flatMap typeNames ++
    (partsAt j "argument_types").flatMap typeNames

def classTypeNames (j : Json) : List Json :=
  typeNames j ++ (partsAt j "fields").flatMap fieldTypeNames ++
    (partsAt j "methods").flatMap callableTypeNames

def aliasTypeNames (j : Json) : List Json := typeNames j ++ (j.member? "alias_type").toList

theorem partsAt_of_itemsAt {items : List Json} (h : itemsAt j name = .ok items) :
    partsAt j name = items := by
  unfold itemsAt itemsOf optional at h
  unfold partsAt
  cases hmember : j.member? name with
  | none =>
    rw [hmember] at h
    cases h
    rfl
  | some v =>
    rw [hmember, Option.getD_some] at h
    split at h
    · next items' hparts =>
      cases h
      rw [Option.bind_some, hparts, Option.getD_some]
    · cases h

theorem mem_toList_of_required {v : Json} (h : required j name = .ok v) :
    v ∈ (j.member? name).toList := by
  rw [member?_of_required h]
  exact List.mem_singleton_self v

/-! ## Readings that look at no types -/

/-- No name of a type is reported. -/
def Plain (x : Except Failure α) : Prop := ∀ e, x = .error e → e.isStray = false

namespace Plain
variable {x : Except Failure α}

theorem ok (a : α) : Plain (.ok a : Except Failure α) := nofun

theorem error {e : Failure} (h : e.isStray = false) : Plain (.error e : Except Failure α) := by
  rintro _ ⟨⟩
  exact h

theorem bind {f : α → Except Failure β} (hx : Plain x) (hf : ∀ a, x = .ok a → Plain (f a)) :
    Plain (x >>= f) := by
  intro e he
  obtain he | ⟨a, ha, he⟩ := cases_of_bind_eq_error he
  · exact hx e he
  · exact hf a ha e he

theorem mapM {f : β → Except Failure α} (h : ∀ b, Plain (f b)) (l : List β) :
    Plain (l.mapM f) := by
  induction l with
  | nil => exact .ok []
  | cons b l ih =>
    rw [List.mapM_cons]
    exact (h b).bind fun _ _ => ih.bind fun _ _ => .ok _

end Plain

section plain
open Plain

theorem plain_required (j : Json) (name : String) : Plain (required j name) := by
  unfold required
  split
  · split
    · exact ok _
    · exact error rfl
  · exact error rfl

theorem plain_requiredAs {read : Json → Except Failure α} (h : ∀ v, Plain (read v)) (j : Json)
    (name : String) : Plain (requiredAs read j name) :=
  (plain_required j name).bind fun v _ => h v

theorem plain_itemsOf (j : Json) : Plain (itemsOf j) := by
  unfold itemsOf
  split
  · exact ok _
  · exact error rfl

theorem plain_itemsAt (j : Json) (name : String) : Plain (itemsAt j name) := plain_itemsOf _

theorem plain_listAt {read : Json → Except Failure α} (h : ∀ v, Plain (read v)) (j : Json)
    (name : String) : Plain (listAt read j name) :=
  (plain_itemsAt j name).bind fun items _ => mapM h items

theorem plain_textOf (j : Json) : Plain (textOf j) := by
  unfold textOf
  split
  · exact ok _
  · exact error rfl

theorem plain_kindOf (j : Json) : Plain (kindOf j) := by
  unfold kindOf
  split
  · split
    · exact ok _
    · exact error rfl
  · exact error rfl

theorem plain_templateKindOf (j : Json) : Plain (templateKindOf j) := by
  unfold templateKindOf
  split
  · split
    · exact ok _
    · exact error rfl
  · exact error rfl

theorem plain_classKeyOf (j : Json) : Plain (classKeyOf j) := by
  unfold classKeyOf
  split
  · split
    · exact ok _
    · exact error rfl
  · exact error rfl

theorem plain_lifetimeOf (j : Json) : Plain (lifetimeOf j) := by
  unfold lifetimeOf
  split
  · dsimp only
    split
    · exact ok _
    · split
      · exact ok _
      · exact error rfl
  · exact error rfl

theorem plain_noteOf (j : Json) : Plain (noteOf j) :=
  (plain_required j "value").bind fun _ _ =>
    (plain_requiredAs plain_lifetimeOf j "lifetime").bind fun _ _ => ok _

theorem plain_attributesOf (j : Json) : Plain (attributesOf j) := by
  cases j with
  | object ms =>
    exact (mapM (fun m => (plain_noteOf _).bind fun _ _ => ok _) ms).bind fun _ _ => ok _
  | _ => exact error rfl

theorem plain_metadata (j : Json) : Plain (requiredAs metadataOf j "metadata") :=
  plain_requiredAs (fun v => (plain_requiredAs plain_textOf v "file").bind fun _ _ =>
    (plain_listAt plain_noteOf v "tags").bind fun _ _ =>
      (plain_attributesOf _).bind fun _ _ => ok _) j _

theorem plain_nameOf (j : Json) : Plain (nameOf j) := by
  rw [nameOf, map_eq_pure_bind]
  exact (plain_required j "name").bind fun _ _ => ok _

theorem plain_enumeratorOf (j : Json) : Plain (enumeratorOf j) :=
  (plain_nameOf j).bind fun _ _ => (plain_required j "value").bind fun _ _ =>
    (plain_metadata j).bind fun _ _ => ok _

theorem plain_idOf (j : Json) : Plain (idOf j) := by
  unfold idOf
  split
  · exact ok _
  · exact error rfl

theorem plain_typeEntries (j : Json) : Plain (typeEntries j) :=
  (plain_listAt (fun e => (plain_requiredAs plain_idOf e "id").bind fun _ _ => ok _) j
    "types").bind fun _ _ => ok _

end plain

/-! ## Readings that look at types -/

/-- The relation is kept by going on from one reading to the next, and every reading that looks at
no types is related to itself. -/
structure Walks (R : ∀ α : Type, Decoding α → Decoding α → Prop) : Prop where
  pure : ∀ {α : Type} (a : α), R α (Pure.pure a) (Pure.pure a)
  lift_bind : ∀ {α β : Type} {x : Except Failure α} {f f' : α → Decoding β}, Plain x →
    (∀ a, x = .ok a → R β (f a) (f' a)) → R β (liftM x >>= f) (liftM x >>= f')
  bind : ∀ {α β : Type} {m m' : Decoding α} {f f' : α → Decoding β}, R α m m' →
    (∀ a, R β (f a) (f' a)) → R β (m >>= f) (m' >>= f')

namespace Walks
variable {R : ∀ α : Type, Decoding α → Decoding α → Prop} (hR : Walks R)
  {look look' : Json → Decoding CppType}
include hR

theorem mapM {read read' : β → Decoding α} {l : List β}
    (h : ∀ b ∈ l, R α (read b) (read' b)) : R _ (l.mapM read) (l.mapM read') := by
  induction l with
  | nil =>
    rw [List.mapM_nil, List.mapM_nil]
    exact hR.pure []
  | cons b l ih =>
    rw [List.mapM_cons, List.mapM_cons]
    exact hR.bind (h b (by simp)) fun _ =>
      hR.bind (ih fun c hc => h c (by simp [hc])) fun _ => hR.pure _

theorem typeOfEntry {e : Json} (h : ∀ n ∈ argumentNames e, R _ (look n) (look' n)) :
    R _ (typeOfEntry look e) (typeOfEntry look' e) := by
  have htemplate : R _ (templateOf look e) (templateOf look' e) := by
    rw [templateOf, templateOf]
    dsimp only
    split
    · exact hR.pure none
    · refine hR.lift_bind (plain_requiredAs plain_templateKindOf _ _) fun kind _ => ?_
      refine hR.lift_bind (plain_requiredAs plain_itemsOf _ _) fun names hnames => ?_
      rw [argumentNames_of_itemsOf hnames] at h
      refine hR.bind (hR.mapM h) fun arguments => ?_
      split
      · exact hR.lift_bind (.error rfl) fun _ _ => hR.pure _
      · exact hR.pure _
  rw [Document.typeOfEntry, Document.typeOfEntry]
  refine hR.bind htemplate fun template => hR.lift_bind (plain_required e "name") fun name _ => ?_
  refine hR.lift_bind (plain_requiredAs plain_kindOf e "kind") fun kind _ => ?_
  cases template with
  | none => exact hR.pure _
  | some found => exact hR.pure _

theorem useOf (h : ∀ n ∈ typeNames j, R _ (look n) (look' n)) :
    R _ (useOf look j) (useOf look' j) :=
  hR.lift_bind (plain_required j "type") fun n hn =>
    hR.bind (h n (mem_toList_of_required hn)) fun _ => hR.pure _

theorem usesOf (h : ∀ n ∈ (partsAt j name).flatMap typeNames, R _ (look n) (look' n)) :
    R _ (usesOf look j name) (usesOf look' j name) :=
  hR.lift_bind (plain_itemsAt j name) fun _ hitems => hR.mapM fun e he => hR.useOf fun n hn =>
    h n (List.mem_flatMap.2 ⟨e, (partsAt_of_itemsAt hitems).symm ▸ he, hn⟩)

theorem fieldOf (h : ∀ n ∈ fieldTypeNames j, R _ (look n) (look' n)) :
    R _ (fieldOf look j) (fieldOf look' j) := by
  refine hR.lift_bind (plain_nameOf j) fun name _ => ?_
  refine hR.lift_bind (plain_required j "type") fun v hv => ?_
  have huse := hR.useOf fun n hn => h n (List.mem_flatMap.2 ⟨v, mem_toList_of_required hv, hn⟩)
  exact hR.bind huse fun use => hR.lift_bind (plain_metadata j) fun _ _ => hR.pure _

/-- What methods and functions begin with. -/
theorem signature {γ : Type} {f f' : TypeUse → List TypeUse → Decoding γ}
    (h : ∀ n ∈ callableTypeNames j, R _ (look n) (look' n))
    (hf : ∀ result arguments, R _ (f result arguments) (f' result arguments)) :
    R γ (do
      let result ← Document.useOf look (← required j "return_type")
      let arguments ← Document.usesOf look j "argument_types"
      f result arguments) (do
      let result ← Document.useOf look' (← required j "return_type")
      let arguments ← Document.usesOf look' j "argument_types"
      f' result arguments) := by
  refine hR.lift_bind (plain_required j "return_type") fun v hv => ?_
  have huse := hR.useOf fun n hn => h n (List.mem_append_left _
    (List.mem_flatMap.2 ⟨v, mem_toList_of_required hv, hn⟩))
  have huses := hR.usesOf fun n hn => h n (List.mem_append_right _ hn)
  exact hR.bind huse fun result => hR.bind huses fun arguments => hf result arguments

theorem methodOf (h : ∀ n ∈ callableTypeNames j, R _ (look n) (look' n)) :
    R _ (methodOf look j) (methodOf look' j) :=
  hR.lift_bind (plain_nameOf j) fun _ _ => hR.signature h fun _ _ =>
    hR.lift_bind (plain_metadata j) fun _ _ => hR.pure _

theorem functionOf (h : ∀ n ∈ callableTypeNames j, R _ (look n) (look' n)) :
    R _ (functionOf look j) (functionOf look' j) :=
  hR.lift_bind (plain_nameOf j) fun _ _ => hR.signature h fun _ _ =>
    hR.lift_bind (plain_metadata j) fun _ _ => hR.pure _

theorem classOf (h : ∀ n ∈ classTypeNames j, R _ (look n) (look' n)) :
    R _ (classOf look j) (classOf look' j) := by
  have hnames : (∀ n ∈ typeNames j, R _ (look n) (look' n)) ∧
      (∀ e ∈ partsAt j "fields", ∀ n ∈ fieldTypeNames e, R _ (look n) (look' n)) ∧
      ∀ e ∈ partsAt j "methods", ∀ n ∈ callableTypeNames e, R _ (look n) (look' n) := by
    simp only [classTypeNames, List.mem_append, List.mem_flatMap] at h
    exact ⟨fun n hn => h n (.inl (.inl hn)), fun e he n hn => h n (.inl (.inr ⟨e, he, hn⟩)),
      fun e he n hn => h n (.inr ⟨e, he, hn⟩)⟩
  obtain ⟨htype, hfields, hmethods⟩ := hnames
  refine hR.lift_bind (plain_required j "type") fun v hv => ?_
  refine hR.bind (htype v (mem_toList_of_required hv)) fun type => ?_
  refine hR.lift_bind (plain_metadata j) fun metadata _ => ?_
  refine hR.lift_bind (plain_classKeyOf _) fun key _ => ?_
  refine hR.lift_bind (plain_itemsAt j "fields") fun fieldItems hfieldItems => ?_
  rw [partsAt_of_itemsAt hfieldItems] at hfields
  refine hR.bind (hR.mapM fun e he => hR.fieldOf (hfields e he)) fun fields => ?_
  refine hR.lift_bind (plain_itemsAt j "methods") fun methodItems hmethodItems => ?_
  rw [partsAt_of_itemsAt hmethodItems] at hmethods
  refine hR.bind (hR.mapM fun e he => hR.methodOf (hmethods e he)) fun methods => ?_
  exact hR.lift_bind (plain_itemsAt j "base_classes") fun _ _ => hR.pure _

theorem enumOf (h : ∀ n ∈ typeNames j, R _ (look n) (look' n)) :
    R _ (enumOf look j) (enumOf look' j) := by
  refine hR.lift_bind (plain_required j "type") fun v hv => ?_
  refine hR.bind (h v (mem_toList_of_required hv)) fun type => ?_
  refine hR.lift_bind (plain_metadata j) fun metadata _ => ?_
  exact hR.lift_bind (plain_listAt plain_enumeratorOf j "values") fun _ _ => hR.pure _

theorem aliasOf (h : ∀ n ∈ aliasTypeNames j, R _ (look n) (look' n)) :
    R _ (aliasOf look j) (aliasOf look' j) := by
  refine hR.lift_bind (plain_required j "type") fun v hv => ?_
  refine hR.bind (h v (List.mem_append_left _ (mem_toList_of_required hv))) fun type => ?_
  refine hR.lift_bind (plain_required j "alias_type") fun w hw => ?_
  refine hR.bind (h w (List.mem_append_right _ (mem_toList_of_required hw))) fun target => ?_
  exact hR.lift_bind (plain_metadata j) fun _ _ => hR.pure _

end Walks

/-! ## Failures -/

/-- Where the reading fails, it fails in one of these ways. -/
def FailsWith (P : Failure → Prop) (m : Decoding α) : Prop := ∀ s e, m.run s = .error e → P e

namespace FailsWith
variable {P : Failure → Prop}

theorem pure (a : α) : FailsWith P (Pure.pure a) := nofun

theorem lift {x : Except Failure α} (h : ∀ e, x = .error e → P e) : FailsWith P (liftM x) := by
  intro s e hrun
  cases x with
  | ok a => cases hrun
  | error e' =>
    cases hrun
    exact h e rfl

theorem bind {m : Decoding α} {f : α → Decoding β} (hm : FailsWith P m)
    (hf : ∀ s a s', m.run s = .ok (a, s') → FailsWith P (f a)) : FailsWith P (m >>= f) := by
  intro s e hrun
  rw [StateT.run_bind] at hrun
  obtain hrun | ⟨found, hfound, hrun⟩ := cases_of_bind_eq_error hrun
  · exact hm s e hrun
  · exact hf s _ _ hfound _ e hrun

theorem lift_bind {x : Except Failure α} {f : α → Decoding β} (hx : ∀ e, x = .error e → P e)
    (hf : ∀ a, x = .ok a → FailsWith P (f a)) : FailsWith P (liftM x >>= f) :=
  bind (lift hx) fun _ a _ hrun => hf a (run_lift_ok_iff.1 hrun).1

theorem mapM {read : β → Decoding α} {l : List β} (h : ∀ b ∈ l, FailsWith P (read b)) :
    FailsWith P (l.mapM read) := by
  induction l with
  | nil => exact .pure []
  | cons b l ih =>
    rw [List.mapM_cons]
    refine (h b (by simp)).bind fun _ a _ _ => ?_
    exact (ih fun c hc => h c (by simp [hc])).bind fun _ _ _ _ => .pure _

theorem foldlM {step : α → β → Decoding α} {l : List β}
    (h : ∀ a, ∀ b ∈ l, FailsWith P (step a b)) (a : α) : FailsWith P (l.foldlM step a) := by
  induction l generalizing a with
  | nil => exact .pure a
  | cons b l ih =>
    rw [List.foldlM_cons]
    exact (h a b (by simp)).bind fun _ a' _ _ => ih (fun a c hc => h a c (by simp [hc])) a'

theorem get : FailsWith (α := Table Json CppType) P MonadState.get := by
  intro s e hrun
  cases hrun

theorem modify (f : Table Json CppType → Table Json CppType) :
    FailsWith P (modifyThe (Table Json CppType) f : Decoding PUnit) := by
  intro s e hrun
  cases hrun

/-- Apart from its id and its entry nothing fails in looking up a type. -/
theorem lookUp_succ {entries : Table Json Json} {depth : Nat}
    (hid : ∀ e, idOf j = .error e → P e)
    (hentry : ∀ k, idOf j = .ok k → ∃ e, entries.find? k = some e ∧
      FailsWith P (typeOfEntry (lookUp entries depth) e)) :
    FailsWith P (lookUp entries (depth + 1) j) := by
  rw [lookUp]
  refine lift_bind hid fun k hk => get.bind fun _ s _ _ => ?_
  obtain ⟨e, he, hread⟩ := hentry k hk
  split
  · exact .pure _
  · rw [he]
    exact hread.bind fun _ t _ _ => (modify _).bind fun _ _ _ _ => .pure t

end FailsWith

end Document
end Introspect
