import Introspect.Command.Run
import Introspect.Proofs.Catalog
import Introspect.Proofs.Settings.Value
import Introspect.Settings.Check

/-! The settings, one by one. Data are accepted as settings when what they give for each of them is
accepted for it, whatever they give for the others. Settings that are written down and read again
are the same settings. So a setting that is changed comes from the change, and any other one from
the configuration file, or is the default. -/
namespace Introspect.Settings
open Yaml (Value)

/-! ## Settings by name -/

/-- What the settings are called here. -/
inductive Key where
  | moduleName | moduleDirectory | outputDirectory | includePaths | definitions
  | compilerArguments | raiseWarnings | raiseErrors | marker | bodyMarker | sourceExtensions
  | openAttempts | openDelay | strictMerge | deleteEmptySources | deleteEmptyHeaders | logLevel
  | compilerLibrary
deriving DecidableEq

/-- A setting: its name in data, its value among all, what data are accepted for it, and the data
that its value is written as. -/
structure Field (α : Type) where
  name : String
  get : Settings → α
  check : Site → Value → Verdict α
  json : α → Json

namespace Key

/-- All settings, in the order in which they are read and written. -/
def all : List Key :=
  [moduleName, moduleDirectory, outputDirectory, includePaths, definitions, compilerArguments,
    raiseWarnings, raiseErrors, marker, bodyMarker, sourceExtensions, openAttempts, openDelay,
    strictMerge, deleteEmptySources, deleteEmptyHeaders, logLevel, compilerLibrary]

/-- What a setting has its value from. -/
def Carrier : Key → Type
  | moduleName | marker | bodyMarker | logLevel => String
  | moduleDirectory | outputDirectory => Path
  | includePaths => List Path
  | definitions | compilerArguments | sourceExtensions => List String
  | raiseWarnings | raiseErrors | strictMerge | deleteEmptySources | deleteEmptyHeaders => Bool
  | openAttempts => Int
  | openDelay => Delay
  | compilerLibrary => Option Path

def field : (k : Key) → Field k.Carrier
  | moduleName => ⟨"module_name", (·.moduleName), fun _ => textValue, .text⟩
  | moduleDirectory =>
    ⟨"module_directory", (·.moduleDirectory), directoryValue, fun p => .text p.toString⟩
  | outputDirectory =>
    ⟨"output_directory", (·.outputDirectory), directoryValue, fun p => .text p.toString⟩
  | includePaths =>
    ⟨"include_paths", (·.includePaths), directoriesValue,
      fun l => Json.texts (l.map Path.toString)⟩
  | definitions => ⟨"definitions", (·.definitions), fun _ => textsValue, Json.texts⟩
  | compilerArguments =>
    ⟨"clang_args", (·.compilerArguments), fun _ => textsValue, Json.texts⟩
  | raiseWarnings => ⟨"raise_warnings", (·.raiseWarnings), fun _ => flagValue, .bool⟩
  | raiseErrors => ⟨"raise_errors", (·.raiseErrors), fun _ => flagValue, .bool⟩
  | marker => ⟨"annotation_marker", (·.marker), fun _ => textValue, .text⟩
  | bodyMarker => ⟨"body_marker", (·.bodyMarker), fun _ => textValue, .text⟩
  | sourceExtensions =>
    ⟨"source_extensions", (·.sourceExtensions), fun _ => extensionsValue, Json.texts⟩
  | openAttempts =>
    ⟨"registry_open_attempts", (·.openAttempts), fun _ => countValue, .int⟩
  | openDelay =>
    ⟨"registry_open_delay", (·.openDelay), fun _ => delayValue, Delay.json⟩
  | strictMerge => ⟨"strict_merge", (·.strictMerge), fun _ => flagValue, .bool⟩
  | deleteEmptySources =>
    ⟨"delete_empty_sources", (·.deleteEmptySources), fun _ => flagValue, .bool⟩
  | deleteEmptyHeaders =>
    ⟨"delete_empty_headers", (·.deleteEmptyHeaders), fun _ => flagValue, .bool⟩
  | logLevel => ⟨"log_level", (·.logLevel), fun _ => textValue, .text⟩
  | compilerLibrary =>
    ⟨"libclang_file", (·.compilerLibrary), fun _ => fileValue,
      .ofOption fun p => .text p.toString⟩

theorem mem_all (k : Key) : k ∈ all := by
  cases k <;> decide

theorem nodup_names : (all.map fun k => k.field.name).Nodup := by decide

end Key

/-- Settings are written one after another. -/
theorem members_eq (s : Settings) :
    s.members = Key.all.map fun k => (k.field.name, k.field.json (k.field.get s)) := rfl

/-- The settings of which each has a given value. -/
def ofValues (a : (k : Key) → k.Carrier) : Settings :=
  ⟨a .moduleName, a .moduleDirectory, a .outputDirectory, a .includePaths, a .definitions,
    a .compilerArguments, a .raiseWarnings, a .raiseErrors, a .marker, a .bodyMarker,
    a .sourceExtensions, a .openAttempts, a .openDelay, a .strictMerge, a .deleteEmptySources,
    a .deleteEmptyHeaders, a .logLevel, a .compilerLibrary⟩

theorem get_ofValues (a : (k : Key) → k.Carrier) (k : Key) : k.field.get (ofValues a) = a k := by
  cases k <;> rfl

/-! ## Checks -/

/-- What is accepted for a setting is accepted again as what it is written as, and data that are
refused have a fault. -/
theorem Key.meets_check {site : Site} (hsite : site.WellFormed) (k : Key) (v : Value) :
    (k.field.check site v).Meets (Kept (k.field.check site) k.field.json) := by
  cases k with
  | moduleName | marker | bodyMarker | logLevel => exact meets_textValue v
  | moduleDirectory | outputDirectory =>
    exact (meets_directoryValue hsite v).mono fun p hp => directoryOf_settled hp
  | includePaths =>
    exact (meets_partsValue (meets_directoryValue hsite) v).mono fun l hl =>
      kept_directoriesValue hl
  | definitions | compilerArguments => exact meets_textsValue v
  | raiseWarnings | raiseErrors | strictMerge | deleteEmptySources | deleteEmptyHeaders =>
    exact meets_flagValue v
  | sourceExtensions => exact (meets_extensionsValue v).mono fun l hl => kept_extensionsValue hl
  | openAttempts => exact meets_countValue v
  | openDelay => exact meets_delayValue v
  | compilerLibrary => exact meets_fileValue v

/-- Defaults are accepted for what they are. -/
theorem Key.kept_default {site : Site} (hsite : site.WellFormed) (k : Key) :
    Kept (k.field.check site) k.field.json (k.field.get (Settings.default site)) := by
  have hsettled : ∀ s, (Path.ofString s).hasNull = false →
      ((Path.ofString s).resolve site.cwd).Settled := fun s hs =>
    Site.settled_resolve hsite (Path.normal_ofString s) hs
  cases k with
  | moduleDirectory => exact directoryOf_settled (hsettled "." (by decide))
  | outputDirectory => exact directoryOf_settled (hsettled "generated" (by decide))
  | includePaths => exact kept_directoriesValue (by simp [Settings.default, Key.field])
  | definitions | compilerArguments => exact kept_texts _
  | sourceExtensions =>
    exact kept_extensionsValue (l := [".h", ".hpp"]) (by decide)
  | _ => rfl

/-! ## Reading -/

/-- What data give for a setting: what the value under its name is accepted as, or the default. -/
def Field.verdict {α : Type} (f : Field α) (site : Site) (data : Table String Value) : Verdict α :=
  match data.find? f.name with
  | none => .accepted (f.get (Settings.default site))
  | some v => f.check site v

/-- Faults are only added to, and none is when what is read is as `P` says. -/
structure Collects {α : Type} (x : Checking α) (P : α → Prop) : Prop where
  grows : ∀ {faults a faults'}, x.run faults = .ok a faults' → faults <+: faults'
  run_eq_iff : ∀ {faults a}, x.run faults = .ok a faults ↔ P a

section collecting
variable {α β : Type} {P : α → Prop} {x : Checking α} {f : α → Checking β}

theorem Collects.congr {Q : α → Prop} (h : Collects x P) (hQ : ∀ a, P a ↔ Q a) : Collects x Q :=
  ⟨h.grows, h.run_eq_iff.trans (hQ _)⟩

theorem collects_pure (a : α) : Collects (pure a) (· = a) where
  grows h := by
    cases h
    exact List.prefix_rfl
  run_eq_iff := by
    intro faults b
    constructor
    · rintro ⟨⟩
      rfl
    · rintro rfl
      rfl

theorem Collects.bind {Q : α → β → Prop} (hx : Collects x P) (hf : ∀ a, Collects (f a) (Q a)) :
    Collects (x >>= f) fun b => ∃ a, P a ∧ Q a b where
  grows := by
    intro faults b faults' h
    rw [EStateM.run_bind] at h
    split at h
    · next hrun => exact (hx.grows hrun).trans ((hf _).grows h)
    · cases h
  run_eq_iff := by
    intro faults b
    rw [EStateM.run_bind]
    constructor
    · intro h
      split at h
      · next a faults' hrun =>
        -- what comes before a fault is never taken back
        have hback := (hf a).grows h
        obtain rfl := (hx.grows hrun).eq_of_length_le hback.length_le
        exact ⟨a, hx.run_eq_iff.1 hrun, (hf a).run_eq_iff.1 h⟩
      · cases h
    · rintro ⟨a, ha, hb⟩
      rw [hx.run_eq_iff.2 ha]
      exact (hf a).run_eq_iff.2 hb

private theorem run_refuse (a : α) (more faults : List SettingFault) :
    (do modify fun all => all ++ more
        return a : Checking α).run faults = .ok a (faults ++ more) := rfl

theorem collects_setting (data : Table String Value) {g : Field α} {site : Site}
    (hmeets : ∀ v, (g.check site v).Meets P) :
    Collects (setting data g.name (g.get (Settings.default site)) (g.check site)) fun a =>
      g.verdict site data = .accepted a := by
  unfold setting Field.verdict
  cases hfind : data.find? g.name with
  | none => exact (collects_pure _).congr fun a => by rw [Verdict.accepted.injEq, eq_comm]
  | some v =>
    have hv := hmeets v
    dsimp only
    cases hcheck : g.check site v with
    | accepted a => exact (collects_pure a).congr fun b => by rw [Verdict.accepted.injEq, eq_comm]
    | refused refusals =>
      rw [hcheck] at hv
      refine ⟨fun h => ?_, fun {faults a} => ⟨fun h => ?_, nofun⟩⟩ <;>
        rw [run_refuse, EStateM.Result.ok.injEq] at h
      · exact h.2 ▸ List.prefix_append _ _
      · exact absurd (by simpa using h.2) hv
    | broken e =>
      refine ⟨fun h => ?_, fun {faults a} => ⟨fun h => ?_, nofun⟩⟩ <;> cases h

/-- Settings are read without a fault when every one is accepted for what it is. -/
theorem run_read_iff {site : Site} {data : Table String Value} {s : Settings}
    {P : (k : Key) → k.Carrier → Prop} (hmeets : ∀ (k : Key) v, (k.field.check site v).Meets (P k)) :
    (read site data).run [] = .ok s [] ↔
      ∀ k : Key, k.field.verdict site data = .accepted (k.field.get s) := by
  have c := fun k : Key => collects_setting data (hmeets k)
  have hread :=
    (c .moduleName).bind fun a₁ => (c .moduleDirectory).bind fun a₂ =>
    (c .outputDirectory).bind fun a₃ => (c .includePaths).bind fun a₄ =>
    (c .definitions).bind fun a₅ => (c .compilerArguments).bind fun a₆ =>
    (c .raiseWarnings).bind fun a₇ => (c .raiseErrors).bind fun a₈ =>
    (c .marker).bind fun a₉ => (c .bodyMarker).bind fun a₁₀ =>
    (c .sourceExtensions).bind fun a₁₁ => (c .openAttempts).bind fun a₁₂ =>
    (c .openDelay).bind fun a₁₃ => (c .strictMerge).bind fun a₁₄ =>
    (c .deleteEmptySources).bind fun a₁₅ => (c .deleteEmptyHeaders).bind fun a₁₆ =>
    (c .logLevel).bind fun a₁₇ => (c .compilerLibrary).bind fun a₁₈ =>
      collects_pure (Settings.mk a₁ a₂ a₃ a₄ a₅ a₆ a₇ a₈ a₉ a₁₀ a₁₁ a₁₂ a₁₃ a₁₄ a₁₅ a₁₆ a₁₇ a₁₈)
  refine hread.run_eq_iff.trans ⟨?_, fun h => ?_⟩
  · rintro ⟨a₁, h₁, a₂, h₂, a₃, h₃, a₄, h₄, a₅, h₅, a₆, h₆, a₇, h₇, a₈, h₈, a₉, h₉, a₁₀, h₁₀, a₁₁, h₁₁,
      a₁₂, h₁₂, a₁₃, h₁₃, a₁₄, h₁₄, a₁₅, h₁₅, a₁₆, h₁₆, a₁₇, h₁₇, a₁₈, h₁₈, rfl⟩ k
    cases k <;> assumption
  · exact ⟨_, h .moduleName, _, h .moduleDirectory, _, h .outputDirectory, _, h .includePaths,
      _, h .definitions, _, h .compilerArguments, _, h .raiseWarnings, _, h .raiseErrors,
      _, h .marker, _, h .bodyMarker, _, h .sourceExtensions, _, h .openAttempts, _, h .openDelay,
      _, h .strictMerge, _, h .deleteEmptySources, _, h .deleteEmptyHeaders, _, h .logLevel,
      _, h .compilerLibrary, rfl⟩

end collecting

section tables
variable {site : Site} {data : Table String Value} {s : Settings}

/-- Data are accepted as settings when what they give for every setting is. -/
theorem ofTable_eq_ok_iff (hsite : site.WellFormed) : ofTable site data = .ok s ↔
    ∀ k : Key, k.field.verdict site data = .accepted (k.field.get s) := by
  rw [← run_read_iff (Key.meets_check hsite), ofTable]
  split
  · next t hrun => rw [hrun, Except.ok.injEq, EStateM.Result.ok.injEq, and_iff_left rfl]
  · next t faults hfaults hrun =>
    refine iff_of_false nofun fun h => ?_
    rw [hrun, EStateM.Result.ok.injEq] at h
    exact hfaults h.2
  · next e faults hrun =>
    rw [hrun]
    exact iff_of_false nofun nofun

/-- Every setting that comes from data is accepted as what it is written as. -/
theorem kept_of_ofTable (hsite : site.WellFormed) (h : ofTable site data = .ok s) (k : Key) :
    Kept (k.field.check site) k.field.json (k.field.get s) := by
  have hk := (ofTable_eq_ok_iff hsite).1 h k
  unfold Field.verdict at hk
  split at hk
  · rw [← Verdict.accepted.inj hk]
    exact k.kept_default hsite
  · next v _ =>
    have hmeets := k.meets_check hsite v
    rwa [hk] at hmeets

/-- What settings are written as tells each of them. -/
theorem find?_members (k : Key) :
    (Table.ofList (s.members.map fun m => (m.1, Value.ofJson m.2))).find? k.field.name =
      some (.ofJson (k.field.json (k.field.get s))) := by
  have hnames : ((s.members.map fun m => (m.1, Value.ofJson m.2)).map Prod.fst).Nodup := by
    rw [members_eq, List.map_map, List.map_map]
    exact Key.nodup_names
  rw [Table.find?_ofList_eq_some_iff hnames, members_eq, List.map_map]
  exact List.mem_map.2 ⟨k, k.mem_all, rfl⟩

end tables

/-! ## Settings that are read again -/

/-- Directories lead straight to where they are, and extensions begin with their dot. -/
structure Settled (s : Settings) : Prop where
  directories : ∀ p ∈ s.moduleDirectory :: s.outputDirectory :: s.includePaths, p.Settled
  extensions : ∀ e ∈ s.sourceExtensions, Text.startsWith "." e

section again
variable {site : Site} {data : Table String Value} {s t : Settings}

theorem settled_of_ofTable (hsite : site.WellFormed) (h : ofTable site data = .ok s) :
    s.Settled := by
  have hkept := kept_of_ofTable hsite h
  have hmodule := (hkept .moduleDirectory).of_meets (meets_directoryValue hsite)
  have houtput := (hkept .outputDirectory).of_meets (meets_directoryValue hsite)
  have hinclude := (hkept .includePaths).of_meets (meets_partsValue (meets_directoryValue hsite))
  have hextensions := (hkept .sourceExtensions).of_meets meets_extensionsValue
  exact ⟨List.forall_mem_cons.2 ⟨hmodule, List.forall_mem_cons.2 ⟨houtput, hinclude⟩⟩, hextensions⟩

/-- Changes are taken for what they are accepted as, and leave the other settings alone. -/
theorem override_eq_ok_iff (hsite : site.WellFormed) (hs : ofTable site data = .ok s)
    {changes : List (String × Json)} : s.override site changes = .ok t ↔ ∀ k : Key,
      (match (Table.ofList (changes.map fun m => (m.1, Value.ofJson m.2))).find? k.field.name with
        | some v => k.field.check site v
        | none => .accepted (k.field.get s)) = .accepted (k.field.get t) := by
  rw [override, ofMembers, ofTable_eq_ok_iff hsite, List.map_append]
  refine forall_congr' fun k => ?_
  rw [Field.verdict, Table.find?_ofList_append, find?_members]
  cases (Table.ofList (changes.map fun m => (m.1, Value.ofJson m.2))).find? k.field.name with
  | some v => rfl
  | none =>
    simp only [Option.none_or]
    rw [show k.field.check site _ = _ from kept_of_ofTable hsite hs k]

end again

/-! ## Changes -/

/-- The changes that are made: those of which something is given. -/
def given (overrides : Table String Json) : List (String × Json) :=
  overrides.entries.filter fun m => m.2 ≠ .null

/-- What is given as a change is found. -/
theorem find?_given (overrides : Table String Json) (n : String) :
    (Table.ofList ((given overrides).map fun m => (m.1, Value.ofJson m.2))).find? n =
      ((overrides.find? n).filter (· ≠ .null)).map Value.ofJson := by
  have hnames : (((given overrides).map fun m => (m.1, Value.ofJson m.2)).map Prod.fst).Nodup := by
    rw [List.map_map]
    exact overrides.nodup_keys.sublist (List.filter_sublist.map _)
  ext v
  rw [Table.find?_ofList_eq_some_iff hnames]
  simp only [given, List.mem_map, List.mem_filter, Option.map_eq_some_iff, Option.filter_eq_some_iff,
    Table.find?_eq_some_iff, Prod.mk.injEq, Prod.exists]
  constructor
  · rintro ⟨m, j, ⟨hmem, hj⟩, rfl, rfl⟩
    exact ⟨j, ⟨hmem, hj⟩, rfl⟩
  · rintro ⟨j, ⟨hmem, hj⟩, rfl⟩
    exact ⟨n, j, ⟨hmem, hj⟩, rfl, rfl⟩

/-- What a command has as changes: something for each option that is there, and nothing for the
others that it knows. -/
def keywords (s : Command.Scan) (flags : List (String × String × Bool)) : Table String Json :=
  .ofList (Command.textOptions.map (fun o => (o.2, .ofOption .text (s.values.find? o.1))) ++
    Command.listOptions.map (fun o =>
      (o.2, .ofOption (fun v => Json.texts (Command.split v)) (s.values.find? o.1))) ++
    flags.map fun o => (o.2.1, .ofOption .bool (if s.flags.contains o.1 then some o.2.2 else none)))

private theorem filter_ofOption {α β : Type} {name : α → String} {value : α → Option β}
    {json : β → Json} (hjson : ∀ b, json b ≠ .null) (l : List α) :
    (l.map fun a => (name a, Json.ofOption json (value a))).filter (fun m => m.2 ≠ .null) =
      l.filterMap fun a => (value a).map fun b => (name a, json b) := by
  induction l with
  | nil => rfl
  | cons a l ih =>
    rw [List.map_cons, List.filterMap_cons]
    cases value a with
    | none => exact ih
    | some b => simpa [Json.ofOption, hjson] using ih

/-- Commands change what they are given. -/
theorem given_keywords (s : Command.Scan) {flags : List (String × String × Bool)}
    (h : flags = Command.fileFlags ∨ flags = Command.moduleFlags) :
    given (keywords s flags) = Command.changesOf s flags := by
  have hflags : flags.filterMap (fun o =>
      (if s.flags.contains o.1 then some o.2.2 else none).map fun b => (o.2.1, Json.bool b)) =
      flags.filterMap fun o => if s.flags.contains o.1 then some (o.2.1, .bool o.2.2) else none := by
    congr 1
    funext o
    split <;> rfl
  rw [given, keywords, Table.entries_ofList, List.filter_append, List.filter_append,
    filter_ofOption (by simp), filter_ofOption (by simp [Json.texts]), filter_ofOption (by simp),
    hflags, Command.changesOf]
  · rcases h with rfl | rfl <;>
      · simp only [List.map_append, List.map_map, Function.comp_def]
        decide

/-- What a setting is under changes: what its own change is accepted as, if something is given as
one, and else what data give for it. -/
def Field.overridden {α : Type} (f : Field α) (site : Site) (data : Table String Value)
    (overrides : Table String Json) : Verdict α :=
  match (overrides.find? f.name).filter (· ≠ .null) with
  | some j => f.check site (.ofJson j)
  | none => f.verdict site data

/-! ## Configuration files -/

/-- A document says which settings there are: none, if it counts as absent, or its entries. -/
inductive Denotes : Value → Table String Value → Prop
  | vacant {v} : v.isVacant → Denotes v .empty
  | entries {es data} : (Value.mapping es).isVacant = false → Value.table? es = some data →
      Denotes (.mapping es) data

/-- The content of a configuration file. A missing one is empty. -/
inductive Content (w : Workspace) (config : Option Path) : Table String Value → Prop
  | missing : (Job.isPresent (config.getD defaultFile)).run w = .ok false w → Content w config .empty
  | document {text v data} : (Job.isPresent (config.getD defaultFile)).run w = .ok true w →
      (Job.readText (config.getD defaultFile)).run w = .ok text w → Yaml.parse text = .ok v →
      Denotes v data → Content w config data

theorem Denotes.ofValue_eq {site : Site} {v : Value} {data : Table String Value}
    (h : Denotes v data) : ofValue site v = ofTable site data := by
  cases h with
  | vacant hvacant => exact if_pos hvacant
  | entries hvacant htable => simp [ofValue, hvacant, htable]

theorem Content.run_loadSettings {w : Workspace} {config : Option Path}
    {data : Table String Value} (h : Content w config data) :
    (Command.loadSettings config).run w = (Job.ofExcept (ofTable w.site data)).run w := by
  unfold Command.loadSettings
  extract_lets path
  rw [Job.run_bind_of_ok Job.run_get]
  cases h with
  | missing hmissing =>
    rw [Job.run_bind_of_ok hmissing]
    rfl
  | @document text v _ hpresent hread hparse hdenotes =>
    have htext : ofText w.site text = ofTable w.site data := by
      rw [ofText, hparse]
      exact hdenotes.ofValue_eq
    rw [Job.run_bind_of_ok hpresent, if_pos rfl, Job.run_bind_of_ok hread, htext]

/-- Settings come from the configuration file and then from changes. -/
theorem Content.run_resolveSettings_iff {w w' : Workspace} {config : Option Path}
    {data : Table String Value} (h : Content w config data) {changes : List (String × Json)}
    {t : Settings} : (Command.resolveSettings config changes).run w = .ok t w' ↔
      ∃ s, ofTable w.site data = .ok s ∧ s.override w.site changes = .ok t ∧ w' = w := by
  simp only [Command.resolveSettings, Job.run_bind_ok_iff, h.run_loadSettings,
    Job.run_ofExcept_ok_iff]
  constructor
  · rintro ⟨s, _, ⟨hs, rfl⟩, _, _, ⟨⟩, ht, rfl⟩
    exact ⟨s, hs, ht, rfl⟩
  · rintro ⟨s, hs, ht, rfl⟩
    exact ⟨s, _, ⟨hs, rfl⟩, _, _, rfl, ht, rfl⟩

section layers
variable {site : Site} {data : Table String Value} {s t : Settings} {overrides : Table String Json}

/-- Settings that are written down and read again are the same. -/
theorem ofMembers_members (hsite : site.WellFormed) (h : ofTable site data = .ok s) :
    ofMembers site s.members = .ok s := by
  rw [ofMembers, ofTable_eq_ok_iff hsite]
  intro k
  rw [Field.verdict, find?_members]
  exact kept_of_ofTable hsite h k

theorem override_given_eq_ok_iff (hsite : site.WellFormed) (h : ofTable site data = .ok s) :
    s.override site (given overrides) = .ok t ↔
      ∀ k : Key, k.field.overridden site data overrides = .accepted (k.field.get t) := by
  rw [override_eq_ok_iff hsite h]
  refine forall_congr' fun k => ?_
  rw [find?_given, Field.overridden, (ofTable_eq_ok_iff hsite).1 h k]
  cases (overrides.find? k.field.name).filter (· ≠ .null) <;> rfl

/-- Data that are accepted for every setting are accepted. -/
theorem exists_ofTable_eq_ok (hsite : site.WellFormed)
    (h : ∀ k : Key, ∃ a, k.field.verdict site data = .accepted a) :
    ∃ s, ofTable site data = .ok s := by
  choose a ha using h
  refine ⟨ofValues a, (ofTable_eq_ok_iff hsite).2 fun k => ?_⟩
  rw [ha, get_ofValues]

theorem exists_override_eq_ok (hsite : site.WellFormed) (hs : ofTable site data = .ok s)
    (h : ∀ k : Key, ∃ a, k.field.overridden site data overrides = .accepted a) :
    ∃ t, s.override site (given overrides) = .ok t := by
  choose a ha using h
  refine ⟨ofValues a, (override_given_eq_ok_iff hsite hs).2 fun k => ?_⟩
  rw [ha, get_ofValues]

end layers

/-- Settings that come from data are the same when they are written down and read again. With a
configuration file and changes that are accepted there are settings, and each of them is its change,
where one is given, or else what the file gives for it, or the default, whatever the others are. -/
theorem resolveSettings_layered :
    (∀ site data s, site.WellFormed → ofTable site data = .ok s →
      ofMembers site s.members = .ok s ∧ s.Settled) ∧
    ∀ w config data overrides, w.site.WellFormed → Content w config data →
      (∀ t w', (Command.resolveSettings config (given overrides)).run w = .ok t w' ↔ w' = w ∧
        (∀ k : Key, ∃ a, k.field.verdict w.site data = .accepted a) ∧
          ∀ k : Key, k.field.overridden w.site data overrides = .accepted (k.field.get t)) ∧
      ((∀ k : Key, ∃ a, k.field.verdict w.site data = .accepted a) →
        (∀ k : Key, ∃ a, k.field.overridden w.site data overrides = .accepted a) →
          ∃ t, (Command.resolveSettings config (given overrides)).run w = .ok t w) := by
  refine ⟨fun site data s hsite h => ⟨ofMembers_members hsite h, settled_of_ofTable hsite h⟩, ?_⟩
  intro w config data overrides hsite hcontent
  refine ⟨fun t w' => ?_, fun hfile hchanges => ?_⟩
  · rw [hcontent.run_resolveSettings_iff]
    constructor
    · rintro ⟨s, hs, ht, rfl⟩
      exact ⟨rfl, fun k => ⟨_, (ofTable_eq_ok_iff hsite).1 hs k⟩,
        (override_given_eq_ok_iff hsite hs).1 ht⟩
    · rintro ⟨rfl, hfile, ht⟩
      obtain ⟨s, hs⟩ := exists_ofTable_eq_ok hsite hfile
      exact ⟨s, hs, (override_given_eq_ok_iff hsite hs).2 ht, rfl⟩
  · obtain ⟨s, hs⟩ := exists_ofTable_eq_ok hsite hfile
    obtain ⟨t, ht⟩ := exists_override_eq_ok hsite hs hchanges
    exact ⟨t, hcontent.run_resolveSettings_iff.2 ⟨s, hs, ht, rfl⟩⟩

/-- A run with a configuration file of one line. -/
def configured : Workspace :=
  .start ⟨["work"], ⟨.root, ["home"]⟩, []⟩ ⟨.ofList [([], .directory), (["work"], .directory),
    (["work", "reflgen.yaml"], .file "module_name: Game")]⟩

/-- The line is an entry with two texts. -/
private theorem value_configured :
    Yaml.Node.value (.mapping .map [(.scalar .str "module_name", .scalar .str "Game")]) =
      .ok (.mapping [(.text "module_name", .text "Game")]) := by
  have htext : ∀ s, Yaml.Node.outline (.scalar .str s) = .ok (.text s) := fun s => by
    simp [Yaml.Node.outline, Yaml.Node.meaning, Yaml.Node.text, Yaml.scalarValue]
  have hflat : ∀ k v, Yaml.Node.flat [(.scalar .str k, v)] = .ok [(.scalar .str k, v)] :=
    fun k v => by
      simp [Yaml.Node.flat, Yaml.Node.split, Yaml.Node.meaning, Yaml.Node.asKey, Except.map]
  have hparts : ∀ k v, Yaml.Node.parts (.mapping .map [(.scalar .str k, .scalar .str v)]) = .ok [] :=
    fun k v => by
      simp [Yaml.Node.parts, Yaml.Node.meaning, Yaml.Meaning.isCollection, hflat, htext]
  have hscalar : ∀ s, Yaml.Node.valueWithin 2 (.scalar .str s) = .ok (.text s) := fun s => by
    unfold Yaml.Node.valueWithin
    simp [Yaml.Node.meaning, htext]
  have hvalue : ∀ k v, Yaml.Node.valueWithin 3 (.mapping .map [(.scalar .str k, .scalar .str v)]) =
      .ok (.mapping [(.text k, .text v)]) := fun k v => by
    unfold Yaml.Node.valueWithin
    simp [Yaml.Node.meaning, Yaml.Node.valueWithin.valuesWithin, hflat, hscalar, Value.insert]
  simp [Yaml.Node.value, Yaml.Node.outline, Yaml.Node.meaning, Yaml.Meaning.isCollection,
    Yaml.Node.size, Yaml.Node.entrySize, Yaml.Node.check, hparts, hvalue]

private theorem parse_configured : Yaml.parse "module_name: Game" =
    .ok (.mapping [(.text "module_name", .text "Game")]) := by
  have hnode : Yaml.Node.parse "module_name: Game".toList =
      .ok (some (.mapping .map [(.scalar .str "module_name", .scalar .str "Game")])) := rfl
  have hprintable : "module_name: Game".toList.all Yaml.isPrintable = true := by decide
  rw [Yaml.parse, hnode, hprintable]
  exact value_configured

/-- What is set to nothing comes from the file, what is set to false or to an empty list is that,
and the rest is the default. -/
theorem resolveSettings_layered_configured :
    (∃ s, ofTable configured.site (.ofList [("include_paths", .list [.text "~/a/../b", .text "c"]),
        ("source_extensions", .list [.text "hh", .text ".h"])]) = .ok s ∧
      ofMembers configured.site s.members = .ok s) ∧
    ∃ t, (Command.resolveSettings none (given (.ofList [("module_name", .null),
        ("definitions", .array []), ("raise_errors", .bool false),
        ("output_directory", .text "../out")]))).run configured = .ok t configured ∧
      t.moduleName = "Game" ∧ t.definitions = [] ∧ t.raiseErrors = false ∧
        t.outputDirectory = ⟨.root, ["out"]⟩ ∧ t.sourceExtensions = [".h", ".hpp"] := by
  have hsite : configured.site.WellFormed := ⟨by decide, by unfold Path.Normal; decide, nofun⟩
  have hcontent : Content configured none (.ofList [("module_name", .text "Game")]) :=
    .document rfl rfl parse_configured (.entries rfl rfl)
  constructor
  · obtain ⟨s, hs⟩ : ∃ s, ofTable configured.site (.ofList
        [("include_paths", .list [.text "~/a/../b", .text "c"]),
          ("source_extensions", .list [.text "hh", .text ".h"])]) = .ok s := ⟨_, rfl⟩
    exact ⟨s, hs, (resolveSettings_layered.1 _ _ s hsite hs).1⟩
  · obtain ⟨hiff, hexists⟩ := resolveSettings_layered.2 configured none _
      (.ofList [("module_name", .null), ("definitions", .array []), ("raise_errors", .bool false),
        ("output_directory", .text "../out")]) hsite hcontent
    obtain ⟨t, ht⟩ := hexists (fun k => by cases k <;> exact ⟨_, rfl⟩)
      fun k => by cases k <;> exact ⟨_, rfl⟩
    obtain ⟨-, -, hfields⟩ := (hiff t _).1 ht
    have hfield : ∀ (k : Key) {a}, k.field.overridden configured.site _ _ = .accepted a →
        k.field.get t = a := fun k _ ha => Verdict.accepted.inj ((hfields k).symm.trans ha)
    exact ⟨t, ht, hfield .moduleName rfl, hfield .definitions rfl, hfield .raiseErrors rfl,
      hfield .outputDirectory rfl, hfield .sourceExtensions rfl⟩

end Introspect.Settings
