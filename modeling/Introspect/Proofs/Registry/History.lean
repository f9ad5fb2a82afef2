import Introspect.Proofs.Except
import Introspect.Proofs.Registry.Soundness

/-! Registries after any history of inserts, some of which may have failed: the numbers of names
stay exact, and an insert that fails has changed nothing. -/
namespace Introspect

/-- One insert into a registry. -/
inductive Insertion where
  | type (t : CppType)
  | class (c : ClassRecord)
  | enum (e : EnumRecord)
  | secondName (a : AliasRecord)
  | function (f : FunctionRecord)

/-- A change of a registry in steps that take effect one by one. What was done before a failure
stays done. -/
abbrev Registry.Change := EStateM Failure Registry

namespace Insertion

/-- The insert as a function of registries. -/
def apply : Insertion → Registry → Except Failure Registry
  | .type t, r => r.addType t
  | .class c, r => r.addClass c
  | .enum e, r => r.addEnum e
  | .secondName a, r => r.addAlias a
  | .function f, r => r.addFunction f

/-- The type that has to be registered for the insert. -/
def type? : Insertion → Option CppType
  | .type t => some t
  | .class c => some c.type
  | .enum e => some e.type
  | .secondName a => some a.type
  | .function _ => none

/-- The function that is inserted. -/
def function? : Insertion → Option FunctionRecord
  | .function f => some f
  | _ => none

/-- The names of the fields that come with the insert. -/
def fieldNames : Insertion → List String
  | .class c => c.fields.map (·.name)
  | _ => []

/-- The names of the methods that come with the insert. -/
def methodNames : Insertion → List String
  | .class c => c.methods.map (·.name)
  | _ => []

/-- Two different names share a number, the second of which comes with the insert: it is that of
its type or function and the first one is registered already, or both are of fields or of methods
of the class, the first one earlier. -/
structure Clash (i : Insertion) (r : Registry) (kind : NameKind) (c : Collision) : Prop where
  ne : c.first ≠ c.second
  first_value : r.hash c.first = c.value
  second_value : r.hash c.second = c.value
  names : match kind with
    | .type => c.first ∈ r.types.keys ∧ i.type?.map CppType.qualifiedName = some c.second
    | .function =>
      c.first ∈ r.functions.keys ∧
        i.function?.map FunctionRecord.qualifiedName = some c.second
    | .field => [c.first, c.second].Sublist i.fieldNames
    | .method => [c.first, c.second].Sublist i.methodNames

/-- What was inserted is found under its name. -/
def IsIn (r : Registry) : Insertion → Prop
  | .type t => r.types.find? t.qualifiedName = some t
  | .class c => r.classes.find? c.qualifiedName = some c
  | .enum e => r.enums.find? e.qualifiedName = some e
  | .secondName a => r.aliases.find? a.qualifiedName = some a
  | .function f => r.functions.find? f.qualifiedName = some f

end Insertion

namespace Registry

/-! ## Inserts in steps -/

/-- Enters a name under its number if the number is free, and then refuses it if the number
stands for another name. -/
def Change.claim (kind : NameKind) (holders : Registry → Table Int String)
    (put : Registry → Table Int String → Registry) (name : String) : Change Unit := do
  let r ← get
  let value := r.hash name
  unless (holders r).contains value do
    set (put r ((holders r).insert value name))
  match (holders (← get)).find? value with
  | none => pure ()
  | some holder => unless holder = name do throw (.collision kind ⟨holder, name, value⟩)

/-- Claims the number of a type name, then enters the type. -/
def Change.addType (t : CppType) : Change Unit := do
  Change.claim .type (·.typeHolders) (fun r holders => { r with typeHolders := holders })
    t.qualifiedName
  modify fun r => { r with types := r.types.insert t }

/-- Adds a type unless one of its name is there. -/
def Change.ensureType (t : CppType) : Change Unit := do
  unless (← get).types.contains t.qualifiedName do Change.addType t

/-- Refuses names of one class that share a number. -/
def Change.requireDistinct (kind : NameKind) (names : List String) : Change Unit := do
  match (← get).hash.collision? names with
  | none => pure ()
  | some c => throw (.collision kind c)

end Registry

/-- The insert in steps: checks, claimed numbers and entries in the order in which they happen. -/
def Insertion.perform : Insertion → Registry.Change Unit
  | .type t => Registry.Change.addType t
  | .class c => do
    Registry.Change.requireDistinct .field (c.fields.map (·.name))
    Registry.Change.requireDistinct .method (c.methods.map (·.name))
    Registry.Change.ensureType c.type
    modify fun r => { r with classes := r.classes.insert c }
  | .enum e => do
    Registry.Change.ensureType e.type
    modify fun r => { r with enums := r.enums.insert e }
  | .secondName a => do
    Registry.Change.ensureType a.type
    modify fun r => { r with aliases := r.aliases.insert a }
  | .function f => do
    Registry.Change.claim .function (·.functionHolders)
      (fun r holders => { r with functionHolders := holders }) f.qualifiedName
    modify fun r => { r with functions := r.functions.insert f }

namespace Registry

/-- How a change ends that a function of registries describes: as the function says, and with the
registry as it was after a failure. -/
def settle (r : Registry) : Except Failure Registry → EStateM.Result Failure Registry Unit
  | .ok r' => .ok () r'
  | .error e => .error e r

private theorem contains_iff_find? {t : Table Int String} {v : Int} :
    t.contains v = (t.find? v).isSome := by
  simp [Table.contains, Table.find?, Catalog.contains]

theorem run_claim {kind : NameKind} {holders : Registry → Table Int String}
    {put : Registry → Table Int String → Registry} (hput : ∀ r t, holders (put r t) = t)
    (hsame : ∀ r, put r (holders r) = r) (name : String) (r : Registry) :
    (Change.claim kind holders put name).run r =
      r.settle ((claim r.hash kind (holders r) name).map (put r)) := by
  cases hf : (holders r).find? (r.hash name) with
  | none =>
    have hc : (holders r).contains (r.hash name) = false := by simp [contains_iff_find?, hf]
    simp [Change.claim, claim, hc, hf, hput, Table.find?_insert, settle, Except.map]
  | some holder =>
    have hc : (holders r).contains (r.hash name) = true := by simp [contains_iff_find?, hf]
    by_cases hh : holder = name
    · simp [Change.claim, claim, hc, hf, hh, hsame, settle, Except.map]
    · simp [Change.claim, claim, hc, hf, hh, settle, Except.map]

theorem run_addType (t : CppType) (r : Registry) :
    (Change.addType t).run r = r.settle (r.addType t) := by
  rw [Change.addType, EStateM.run_bind, run_claim (fun _ _ => rfl) (fun _ => rfl)]
  unfold Registry.addType
  cases claim r.hash .type r.typeHolders t.qualifiedName with
  | error e => rfl
  | ok holders => rfl

theorem run_ensureType (t : CppType) (r : Registry) :
    (Change.ensureType t).run r = r.settle (r.ensureType t) := by
  by_cases h : r.types.contains t.qualifiedName
  · simp [Change.ensureType, ensureType, h, settle]
  · simp [Change.ensureType, ensureType, h, run_addType]

theorem run_requireDistinct (kind : NameKind) (names : List String) (r : Registry) :
    (Change.requireDistinct kind names).run r =
      r.settle ((r.requireDistinct kind names).map fun _ => r) := by
  cases h : r.hash.collision? names with
  | none => simp [Change.requireDistinct, requireDistinct, h, settle, Except.map]
  | some c => simp [Change.requireDistinct, requireDistinct, h, settle, Except.map]

/-- An insert in steps ends as the insert in one, and a failure leaves nothing behind. -/
theorem run_perform (i : Insertion) (r : Registry) : i.perform.run r = r.settle (i.apply r) := by
  cases i with
  | type t => exact run_addType t r
  | «class» c =>
    simp only [Insertion.perform, Insertion.apply, Registry.addClass, EStateM.run_bind,
      run_requireDistinct]
    cases r.requireDistinct .field (c.fields.map (·.name)) with
    | error e => rfl
    | ok _ =>
      simp only [Except.map, settle]
      cases r.requireDistinct .method (c.methods.map (·.name)) with
      | error e => rfl
      | ok _ =>
        simp only [settle, run_ensureType]
        cases r.ensureType c.type with
        | error e => rfl
        | ok r' => rfl
  | enum e =>
    simp only [Insertion.perform, Insertion.apply, Registry.addEnum, EStateM.run_bind,
      run_ensureType]
    cases r.ensureType e.type with
    | error e => rfl
    | ok r' => rfl
  | secondName a =>
    simp only [Insertion.perform, Insertion.apply, Registry.addAlias, EStateM.run_bind,
      run_ensureType]
    cases r.ensureType a.type with
    | error e => rfl
    | ok r' => rfl
  | function f =>
    rw [Insertion.perform, EStateM.run_bind, run_claim (fun _ _ => rfl) (fun _ => rfl)]
    simp only [Insertion.apply, Registry.addFunction]
    cases claim r.hash .function r.functionHolders f.qualifiedName with
    | error e => rfl
    | ok holders => rfl

/-! ## Failures -/

section failures
variable {r : Registry} {e : Failure}

theorem addType_error (hr : r.Sound) {t : CppType} (h : r.addType t = .error e) :
    ∃ m ∈ r.types.keys, m ≠ t.qualifiedName ∧ r.hash m = r.hash t.qualifiedName ∧
      e = .collision .type ⟨m, t.qualifiedName, r.hash t.qualifiedName⟩ := by
  unfold addType at h
  cases hc : claim r.hash .type r.typeHolders t.qualifiedName with
  | ok holders =>
    rw [hc] at h
    cases h
  | error e' =>
    rw [hc] at h
    cases h
    exact hr.type_holders.claim_error hc

theorem addFunction_error (hr : r.Sound) {f : FunctionRecord} (h : r.addFunction f = .error e) :
    ∃ m ∈ r.functions.keys, m ≠ f.qualifiedName ∧ r.hash m = r.hash f.qualifiedName ∧
      e = .collision .function ⟨m, f.qualifiedName, r.hash f.qualifiedName⟩ := by
  unfold addFunction at h
  cases hc : claim r.hash .function r.functionHolders f.qualifiedName with
  | ok holders =>
    rw [hc] at h
    cases h
  | error e' =>
    rw [hc] at h
    cases h
    exact hr.function_holders.claim_error hc

theorem requireDistinct_error {kind : NameKind} {names : List String}
    (h : r.requireDistinct kind names = .error e) :
    ∃ c, NameHash.Found r.hash [] names c ∧ e = .collision kind c := by
  unfold requireDistinct at h
  cases hc : r.hash.collision? names with
  | none => simp [hc] at h
  | some c =>
    simp only [hc, Except.error.injEq] at h
    exact ⟨c, NameHash.found_of_collision? hc, h.symm⟩

end failures
end Registry

namespace Insertion
open Registry
variable {i : Insertion} {r r' : Registry}

private theorem sublist_of_found {hash : NameHash} {names : List String} {c : Collision}
    (hc : NameHash.Found hash [] names c) : [c.first, c.second].Sublist names := by
  obtain ⟨pre, post, rfl, -, hm⟩ := hc.split
  have hmem : c.first ∈ pre := by simpa using (NameHash.holder?_eq_some hm).1
  exact (List.singleton_sublist.2 hmem).append (List.singleton_sublist.2 List.mem_cons_self)

/-- What stands in the way of a type is a clash of the insert that needs it. -/
private theorem clash_of_addType_error (hr : r.Sound) {t : CppType} {e : Failure}
    (ht : i.type? = some t) (h : r.addType t = .error e) :
    ∃ kind c, e = .collision kind c ∧ i.Clash r kind c := by
  obtain ⟨m, hm, hne, hv, rfl⟩ := addType_error hr h
  exact ⟨_, _, rfl, hne, hv, rfl, hm, by simp [ht]⟩

private theorem clash_of_ensureType_error (hr : r.Sound) {t : CppType} {e : Failure}
    (ht : i.type? = some t) (h : r.ensureType t = .error e) :
    ∃ kind c, e = .collision kind c ∧ i.Clash r kind c := by
  unfold ensureType at h
  split at h
  · cases h
  · exact clash_of_addType_error hr ht h

/-- An insert fails by reporting a clash. -/
theorem clash_of_error (hr : r.Sound) {e : Failure} (h : i.apply r = .error e) :
    ∃ kind c, e = .collision kind c ∧ i.Clash r kind c := by
  cases i with
  | type t => exact clash_of_addType_error hr rfl h
  | «class» c =>
    simp only [apply, addClass] at h
    cases hf : r.requireDistinct .field (c.fields.map (·.name)) with
    | error e' =>
      rw [hf] at h
      cases h
      obtain ⟨d, hd, rfl⟩ := requireDistinct_error hf
      exact ⟨_, _, rfl, hd.ne, hd.first_value, hd.value.symm, sublist_of_found hd⟩
    | ok _ =>
      cases hm : r.requireDistinct .method (c.methods.map (·.name)) with
      | error e' =>
        rw [hf, hm] at h
        cases h
        obtain ⟨d, hd, rfl⟩ := requireDistinct_error hm
        exact ⟨_, _, rfl, hd.ne, hd.first_value, hd.value.symm, sublist_of_found hd⟩
      | ok _ =>
        cases hs : r.ensureType c.type with
        | ok s =>
          rw [hf, hm, hs] at h
          cases h
        | error e' =>
          rw [hf, hm, hs] at h
          cases h
          exact clash_of_ensureType_error hr rfl hs
  | enum d =>
    simp only [apply, addEnum] at h
    cases hs : r.ensureType d.type with
    | ok s =>
      rw [hs] at h
      cases h
    | error e' =>
      rw [hs] at h
      cases h
      exact clash_of_ensureType_error hr rfl hs
  | secondName a =>
    simp only [apply, addAlias] at h
    cases hs : r.ensureType a.type with
    | ok s =>
      rw [hs] at h
      cases h
    | error e' =>
      rw [hs] at h
      cases h
      exact clash_of_ensureType_error hr rfl hs
  | function f =>
    obtain ⟨m, hm, hne, hv, rfl⟩ := addFunction_error hr h
    exact ⟨_, _, rfl, hne, hv, rfl, hm, rfl⟩

private theorem exists_collision_of_claim {hash : NameHash} {kind : NameKind}
    {holders : Table Int String} {n : String} {e : Failure}
    (h : claim hash kind holders n = .error e) : ∃ kind c, e = .collision kind c := by
  unfold claim at h
  split at h
  · cases h
  · split at h <;> cases h
    exact ⟨_, _, rfl⟩

private theorem exists_collision_of_addType {t : CppType} {e : Failure}
    (h : r.addType t = .error e) : ∃ kind c, e = .collision kind c := by
  rcases cases_of_bind_eq_error h with h | ⟨_, -, h⟩
  · exact exists_collision_of_claim h
  · cases h

private theorem exists_collision_of_ensureType {t : CppType} {e : Failure}
    (h : r.ensureType t = .error e) : ∃ kind c, e = .collision kind c := by
  unfold ensureType at h
  split at h
  · cases h
  · exact exists_collision_of_addType h

/-- Whatever was in the registry, an insert fails only because names share a number. -/
theorem exists_collision_of_error {e : Failure} (h : i.apply r = .error e) :
    ∃ kind c, e = .collision kind c := by
  cases i with
  | type t => exact exists_collision_of_addType h
  | «class» c =>
    rcases cases_of_bind_eq_error h with h | ⟨_, -, h⟩
    · obtain ⟨_, -, rfl⟩ := requireDistinct_error h
      exact ⟨_, _, rfl⟩
    rcases cases_of_bind_eq_error h with h | ⟨_, -, h⟩
    · obtain ⟨_, -, rfl⟩ := requireDistinct_error h
      exact ⟨_, _, rfl⟩
    rcases cases_of_bind_eq_error h with h | ⟨_, -, h⟩
    · exact exists_collision_of_ensureType h
    · cases h
  | enum d | secondName d =>
    rcases cases_of_bind_eq_error h with h | ⟨_, -, h⟩
    · exact exists_collision_of_ensureType h
    · cases h
  | function f =>
    rcases cases_of_bind_eq_error h with h | ⟨_, -, h⟩
    · exact exists_collision_of_claim h
    · cases h

theorem isReflection_of_error {e : Failure} (h : i.apply r = .error e) : e.isReflection := by
  obtain ⟨_, _, rfl⟩ := exists_collision_of_error h
  rfl

/-- An insert that succeeds keeps a registry sound. -/
theorem sound_of_ok (hr : r.Sound) (h : i.apply r = .ok r') : r'.Sound := by
  cases i with
  | type t => exact hr.addType h
  | «class» c => exact hr.addClass h
  | enum e => exact hr.addEnum h
  | secondName a => exact hr.addAlias h
  | function f => exact hr.addFunction h

/-- What a successful insert has done: its names are among those of the registry, which has no
others that it had not before, and its members have numbers of their own. -/
structure Added (i : Insertion) (r r' : Registry) : Prop where
  hash : r'.hash = r.hash
  types : ∀ n, n ∈ r'.types.keys ↔ i.type?.map CppType.qualifiedName = some n ∨ n ∈ r.types.keys
  functions : ∀ n, n ∈ r'.functions.keys ↔
    i.function?.map FunctionRecord.qualifiedName = some n ∨ n ∈ r.functions.keys
  isIn : i.IsIn r'
  fields : r.hash.Separates i.fieldNames
  methods : r.hash.Separates i.methodNames

theorem added_of_ok (h : i.apply r = .ok r') : i.Added r r' := by
  cases i with
  | type t =>
    obtain ⟨holders, -, rfl⟩ := addType_ok h
    exact {
      hash := rfl
      types := fun n => by simp [type?, Catalog.mem_keys_insert, eq_comm]
      functions := fun n => by simp [function?]
      isIn := by simp [IsIn, Catalog.find?_insert]
      fields := .nil
      methods := .nil }
  | «class» c =>
    obtain ⟨hf, hm, s, hs, rfl⟩ := addClass_ok h
    obtain ⟨types, holders, rfl, hk⟩ := ensureType_frame hs
    exact {
      hash := rfl
      types := fun n => by simp [type?, hk, eq_comm]
      functions := fun n => by simp [function?]
      isIn := by simp [IsIn, Catalog.find?_insert]
      fields := hf
      methods := hm }
  | enum e =>
    obtain ⟨s, hs, rfl⟩ := addEnum_ok h
    obtain ⟨types, holders, rfl, hk⟩ := ensureType_frame hs
    exact {
      hash := rfl
      types := fun n => by simp [type?, hk, eq_comm]
      functions := fun n => by simp [function?]
      isIn := by simp [IsIn, Catalog.find?_insert]
      fields := .nil
      methods := .nil }
  | secondName a =>
    obtain ⟨s, hs, rfl⟩ := addAlias_ok h
    obtain ⟨types, holders, rfl, hk⟩ := ensureType_frame hs
    exact {
      hash := rfl
      types := fun n => by simp [type?, hk, eq_comm]
      functions := fun n => by simp [function?]
      isIn := by simp [IsIn, Catalog.find?_insert]
      fields := .nil
      methods := .nil }
  | function f =>
    obtain ⟨holders, -, rfl⟩ := addFunction_ok h
    exact {
      hash := rfl
      types := fun n => by simp [type?]
      functions := fun n => by simp [function?, Catalog.mem_keys_insert, eq_comm]
      isIn := by simp [IsIn, Catalog.find?_insert]
      fields := .nil
      methods := .nil }

/-- Names that a list keeps apart by their numbers do not clash in it. -/
private theorem not_separates_of_sublist {hash : NameHash} {names : List String} {c : Collision}
    (hs : [c.first, c.second].Sublist names) (hne : c.first ≠ c.second)
    (hv : hash c.first = hash c.second) : ¬hash.Separates names :=
  fun h => hne (h _ (hs.subset (by simp)) _ (hs.subset (by simp)) hv)

/-- A successful insert met no clash. -/
theorem no_clash_of_ok (hr : r.Sound) (h : i.apply r = .ok r') {kind : NameKind} {c : Collision} :
    ¬i.Clash r kind c := by
  intro hc
  have hadd := added_of_ok h
  have hsound := sound_of_ok hr h
  have hv : r.hash c.first = r.hash c.second := hc.first_value.trans hc.second_value.symm
  have hnames := hc.names
  cases kind with
  | type =>
    have hsep := hadd.hash ▸ hsound.type_holders.separates
    exact hc.ne (hsep _ ((hadd.types _).2 (.inr hnames.1)) _ ((hadd.types _).2 (.inl hnames.2)) hv)
  | function =>
    have hsep := hadd.hash ▸ hsound.function_holders.separates
    exact hc.ne
      (hsep _ ((hadd.functions _).2 (.inr hnames.1)) _ ((hadd.functions _).2 (.inl hnames.2)) hv)
  | field => exact not_separates_of_sublist hnames hc.ne hv hadd.fields
  | method => exact not_separates_of_sublist hnames hc.ne hv hadd.methods

end Insertion

namespace Registry

/-- A registry after an insert, as the insert left it. -/
def attempt (r : Registry) (i : Insertion) : Registry :=
  match i.perform.run r with
  | .ok _ r' => r'
  | .error _ r' => r'

/-- The registry that a history of inserts leaves, failed ones among them. -/
def replay (hash : NameHash) (is : List Insertion) : Registry := is.foldl attempt (empty hash)

/-- One attempt keeps a registry sound, whether it succeeds or fails. -/
theorem Sound.attempt {r : Registry} (hr : r.Sound) (i : Insertion) :
    (r.attempt i).Sound ∧ (r.attempt i).hash = r.hash := by
  rw [Registry.attempt, run_perform]
  cases h : i.apply r with
  | ok r' => exact ⟨Insertion.sound_of_ok hr h, (Insertion.added_of_ok h).hash⟩
  | error e => exact ⟨hr, rfl⟩

theorem sound_replay (hash : NameHash) (is : List Insertion) :
    (replay hash is).Sound ∧ (replay hash is).hash = hash := by
  suffices ∀ r : Registry, r.Sound →
      (is.foldl Registry.attempt r).Sound ∧ (is.foldl Registry.attempt r).hash = r.hash from
    this (empty hash) (sound_empty hash)
  induction is with
  | nil =>
    intro r hr
    exact ⟨hr, rfl⟩
  | cons i is ih =>
    intro r hr
    obtain ⟨hs, hh⟩ := hr.attempt i
    obtain ⟨hs', hh'⟩ := ih _ hs
    exact ⟨hs', hh'.trans hh⟩

/-- After any history of inserts, failed ones among them, the maps are keyed by name, the types of
all records are registered, and numbers are exact and belong to one name each. The next insert
fails exactly when there is a clash; it then reports one and leaves every map and both tables of
numbers as they were. -/
theorem replay_sound_and_atomic (hash : NameHash) (is : List Insertion) :
    let r := replay hash is
    (r.types.keys = r.types.items.map CppType.qualifiedName ∧ r.types.keys.Nodup) ∧
    (r.classes.keys = r.classes.items.map ClassRecord.qualifiedName ∧ r.classes.keys.Nodup) ∧
    (r.enums.keys = r.enums.items.map EnumRecord.qualifiedName ∧ r.enums.keys.Nodup) ∧
    (r.aliases.keys = r.aliases.items.map AliasRecord.qualifiedName ∧ r.aliases.keys.Nodup) ∧
    (r.functions.keys = r.functions.items.map FunctionRecord.qualifiedName ∧
      r.functions.keys.Nodup) ∧
    r.hash = hash ∧ r.Sound ∧
    hash.Separates r.types.keys ∧ hash.Separates r.functions.keys ∧
    ∀ i : Insertion,
      ((∃ e r', i.perform.run r = .error e r') ↔ ∃ kind c, i.Clash r kind c) ∧
      (∀ e r', i.perform.run r = .error e r' →
        r' = r ∧ ∃ kind c, e = .collision kind c ∧ i.Clash r kind c) ∧
      (∀ r', i.perform.run r = .ok () r' → i.apply r = .ok r' ∧ i.Added r r') := by
  intro r
  obtain ⟨hr, hhash⟩ : r.Sound ∧ r.hash = hash := sound_replay hash is
  refine ⟨⟨rfl, r.types.nodup⟩, ⟨rfl, r.classes.nodup⟩, ⟨rfl, r.enums.nodup⟩,
    ⟨rfl, r.aliases.nodup⟩, ⟨rfl, r.functions.nodup⟩, hhash, hr,
    hhash ▸ hr.type_holders.separates, hhash ▸ hr.function_holders.separates, fun i => ?_⟩
  rw [run_perform]
  cases h : i.apply r with
  | error e =>
    have hclash := Insertion.clash_of_error hr h
    refine ⟨⟨fun _ => ?_, fun _ => ⟨e, r, rfl⟩⟩, ?_, ?_⟩
    · obtain ⟨kind, c, -, hc⟩ := hclash
      exact ⟨kind, c, hc⟩
    · intro e' r' he
      cases he
      exact ⟨rfl, hclash⟩
    · intro r' hok
      cases hok
  | ok s =>
    refine ⟨⟨?_, ?_⟩, ?_, ?_⟩
    · rintro ⟨e, r', he⟩
      cases he
    · rintro ⟨kind, c, hc⟩
      exact absurd hc (Insertion.no_clash_of_ok hr h)
    · intro e r' he
      cases he
    · intro r' hok
      cases hok
      exact ⟨rfl, Insertion.added_of_ok h⟩

end Registry
end Introspect
