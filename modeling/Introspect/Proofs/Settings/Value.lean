import Introspect.Proofs.Except
import Introspect.Proofs.GeneratedPath
import Introspect.Proofs.Workspace
import Introspect.Settings.Value

/-! What is accepted for a setting is accepted again, as what it was taken for. -/
namespace Introspect

/-- The directories that paths of a run start from are told by names that the system knows. -/
structure Site.WellFormed (site : Site) : Prop where
  cwd : ∀ s ∈ site.cwd, Path.IsName s ∧ '\x00' ∉ s.toList
  home : site.home.Normal
  accounts : ∀ a ∈ site.accounts, a.2.Normal

/-- The path leads straight to a place that the system knows. -/
structure Path.Settled (p : Path) : Prop where
  straight : p.Straight
  known : p.hasNull = false

namespace Site
variable {site : Site} {p q : Path}

theorem WellFormed.names (h : site.WellFormed) : ∀ s ∈ site.cwd, Path.IsName s :=
  fun s hs => (h.cwd s hs).1

private theorem normal_homeOf (h : site.WellFormed) {user : String}
    (hp : site.homeOf user = .ok p) : p.Normal := by
  unfold homeOf at hp
  split at hp
  · cases hp
    exact h.home
  · split at hp
    · cases hp
    · split at hp
      · next a ha =>
        cases hp
        exact h.accounts a (List.mem_of_find?_eq_some ha)
      · cases hp

private theorem normal_expand (h : site.WellFormed) (hp : p.Normal) (hq : site.expand p = .ok q) :
    q.Normal := by
  unfold expand at hq
  split at hq
  · cases hq
    exact hp
  · next user _ =>
    cases hhome : site.homeOf user with
    | error e =>
      rw [hhome] at hq
      cases hq
    | ok home =>
      rw [hhome] at hq
      cases hq
      intro s hs
      exact (List.mem_append.1 hs).elim (normal_homeOf h hhome s)
        fun hs => hp s (List.mem_of_mem_drop hs)

theorem settled_resolve (h : site.WellFormed) (hp : p.Normal) (hknown : p.hasNull = false) :
    (p.resolve site.cwd).Settled :=
  ⟨hp.clean.straight h.names, Path.hasNull_resolve (fun s hs => (h.cwd s hs).2) hknown⟩

theorem settle_eq_ok_iff : site.settle p = .ok q ↔
    ∃ home, site.expand p = .ok home ∧ home.hasNull = false ∧ q = home.resolve site.cwd := by
  simp only [settle, bind_eq_ok_iff, Job.requireKnown_eq_ok_iff, pure_eq_ok, Except.ok.injEq,
    exists_const, @eq_comm Path q]

theorem settled_of_settle (h : site.WellFormed) (hp : p.Normal) (hq : site.settle p = .ok q) :
    q.Settled := by
  obtain ⟨home, hexpand, hknown, rfl⟩ := settle_eq_ok_iff.1 hq
  exact settled_resolve h (normal_expand h hp hexpand) hknown

/-- What is settled stays where it is. -/
theorem settle_settled (hp : p.Settled) : site.settle p = .ok p := by
  have hexpand : site.expand p = .ok p := by
    simp only [expand, Path.user?, hp.straight.anchor]
  exact settle_eq_ok_iff.2 ⟨p, hexpand, hp.known, (hp.straight.resolve site.cwd).symm⟩

end Site

namespace Settings
open Yaml (Value)

/-! ## Verdicts -/

/-- A value that is accepted is as `P` says, and data are refused with a fault at least. -/
def Verdict.Meets {α : Type} (v : Verdict α) (P : α → Prop) : Prop :=
  match v with
  | .accepted a => P a
  | .refused faults => faults ≠ []
  | .broken _ => True

/-- The value is accepted as itself when it is given as data. -/
def Kept {α : Type} (check : Value → Verdict α) (json : α → Json) (a : α) : Prop :=
  check (.ofJson (json a)) = .accepted a

section verdicts
variable {α β : Type} {P : α → Prop} {Q : β → Prop} {v : Verdict α} {f : α → Verdict β}

namespace Verdict

theorem meets_fault (kind : String) : (fault kind : Verdict α).Meets P := by
  simp [fault, Meets]

theorem meets_ofOption {kind : String} {o : Option α} (h : ∀ a ∈ o, P a) :
    (ofOption kind o).Meets P := by
  cases o with
  | none => exact meets_fault kind
  | some a => exact h a rfl

theorem Meets.mono {R : α → Prop} (h : v.Meets P) (hR : ∀ a, P a → R a) : v.Meets R := by
  cases v with
  | accepted a => exact hR a h
  | refused faults => exact h
  | broken e => trivial

theorem Meets.bind (h : v.Meets P) (hf : ∀ a, P a → (f a).Meets Q) : (v.bind f).Meets Q := by
  cases v with
  | accepted a => exact hf a h
  | refused faults => exact h
  | broken e => trivial

end Verdict

theorem Kept.of_meets {check : Value → Verdict α} {json : α → Json} {a : α}
    (h : Kept check json a) (hmeets : ∀ v, (check v).Meets P) : P a := by
  have ha := hmeets (.ofJson (json a))
  rwa [show check (.ofJson (json a)) = .accepted a from h] at ha

end verdicts

open Verdict

/-! ## Texts, truth values and numbers -/

theorem meets_textValue (v : Value) : (textValue v).Meets (Kept textValue .text) := by
  unfold textValue
  split
  · rfl
  · exact meets_ofOption fun _ _ => rfl
  · exact meets_fault _

theorem ofItems_map {α : Type} {f : α → Json} (l : List α) :
    Value.ofItems (l.map f) = l.map fun a => .ofJson (f a) := by
  induction l with
  | nil => rfl
  | cons a l ih => rw [List.map_cons, Value.ofItems, ih, List.map_cons]

theorem ofJson_texts (l : List String) : Value.ofJson (Json.texts l) = .list (l.map .text) :=
  congrArg Value.list (ofItems_map l)

private theorem meets_textItems (items : List (Value × Nat)) :
    (textItems items).Meets fun _ => True := by
  unfold textItems
  dsimp only
  split
  · trivial
  · next h => simpa [Meets] using h

private theorem textItems_texts (l : List String) :
    textItems (l.map Value.text).zipIdx = .accepted l := by
  simp [textItems, List.zipIdx_map, List.filterMap_map, textValue]

theorem kept_texts (l : List String) : Kept textsValue Json.texts l := by
  rw [Kept, ofJson_texts]
  exact textItems_texts l

theorem meets_textsValue (v : Value) : (textsValue v).Meets (Kept textsValue Json.texts) := by
  have hkept : ∀ items : List (Value × Nat),
      (textItems items).Meets (Kept textsValue Json.texts) := fun items =>
    (meets_textItems items).mono fun l _ => kept_texts l
  unfold textsValue
  split
  · exact hkept _
  · exact hkept _
  · exact meets_fault _

theorem meets_flagValue (v : Value) : (flagValue v).Meets (Kept flagValue .bool) := by
  have hkept : ∀ b, Kept flagValue .bool b := fun _ => rfl
  have hwhole : ∀ n, (flagValue.ofWhole n).Meets (Kept flagValue .bool) := by
    intro n
    unfold flagValue.ofWhole
    split
    · exact hkept false
    · split
      · exact hkept true
      · exact meets_fault _
  unfold flagValue
  split
  · exact hkept _
  · exact meets_ofOption fun b _ => hkept b
  · exact meets_ofOption fun b _ => hkept b
  · split
    · exact meets_fault _
    · exact hwhole _
  · split
    · split
      · exact meets_fault _
      · exact hwhole _
    · exact meets_fault _
  · exact meets_fault _

private theorem meets_wholeOf (s : String) : (wholeOf s).Meets fun _ => True := by
  unfold wholeOf
  extract_lets t unsigned
  split
  · exact meets_fault _
  · extract_lets bare digits size
    split
    · exact meets_fault _
    · split
      · exact meets_fault _
      · trivial

private theorem meets_wholeValue (v : Value) : (wholeValue v).Meets fun _ => True := by
  unfold wholeValue
  split
  · trivial
  · trivial
  · exact meets_wholeOf _
  · exact (meets_ofOption fun _ _ => trivial).bind fun s _ => meets_wholeOf s
  · split
    · exact meets_fault _
    · exact meets_fault _
    · split
      · exact meets_fault _
      · trivial
  · exact meets_fault _
  · exact meets_fault _
  · exact meets_fault _

theorem meets_countValue (v : Value) : (countValue v).Meets (Kept countValue .int) := by
  refine (meets_wholeValue v).bind fun n _ => ?_
  split
  · exact meets_fault _
  · next h => exact if_neg h

private theorem meets_endless (negative : Bool) :
    (endless negative).Meets (Kept delayValue Delay.json) := by
  unfold endless
  split
  · exact meets_fault _
  · rfl

private theorem meets_delayOf (d : Decimal) : (delayOf d).Meets (Kept delayValue Delay.json) := by
  cases hnearest : d.nearest with
  | infinite =>
    rw [delayOf, hnearest]
    exact meets_endless d.negative
  | finite m e =>
    by_cases hnegative : d.negative && m != 0
    · rw [delayOf, hnearest]
      simp only [hnegative, if_true]
      exact meets_fault _
    · have hd : delayOf d = .accepted (.fractional d) := by
        rw [delayOf, hnearest]
        exact if_neg hnegative
      rw [hd]
      exact hd

private theorem meets_delayOfText (s : String) :
    (delayOfText s).Meets (Kept delayValue Delay.json) := by
  have hplain : ∀ t, ∀ v ∈ plainDelay? t, v.Meets (Kept delayValue Delay.json) := by
    intro t v hv
    unfold plainDelay? at hv
    extract_lets word at hv
    split at hv
    · cases hv
      exact meets_fault _
    · split at hv
      · cases hv
        exact meets_endless _
      · obtain ⟨d, -, rfl⟩ := Option.map_eq_some_iff.1 hv
        exact meets_delayOf d
  unfold delayOfText
  extract_lets t
  cases hread : (plainDelay? t).or ((withoutUnderscores? s.toList).bind plainDelay?) with
  | none => exact meets_fault _
  | some v =>
    rcases Option.or_eq_some_iff.1 hread with hv | ⟨-, hv⟩
    · exact hplain t v hv
    · obtain ⟨r, -, hv⟩ := Option.bind_eq_some_iff.1 hv
      exact hplain r v hv

theorem meets_delayValue (v : Value) : (delayValue v).Meets (Kept delayValue Delay.json) := by
  unfold delayValue
  split
  · split
    · exact meets_fault _
    · exact meets_delayOf _
  · exact meets_delayOf _
  · exact meets_delayOf _
  · exact meets_delayOfText _
  · exact (meets_ofOption fun _ _ => trivial).bind fun s _ => meets_delayOfText s
  · exact meets_endless _
  · exact meets_fault _
  · exact meets_fault _

/-! ## Paths and extensions -/

theorem kept_fileValue {p : Option Path} (h : ∀ q ∈ p, q.Normal) :
    Kept fileValue (.ofOption fun p => .text p.toString) p := by
  cases p with
  | none => rfl
  | some q => exact congrArg (fun q => Verdict.accepted (some q)) (Path.ofString_toString (h q rfl))

theorem meets_fileValue (v : Value) :
    (fileValue v).Meets (Kept fileValue (.ofOption fun p => .text p.toString)) := by
  cases v with
  | null => exact kept_fileValue (by simp)
  | text s =>
    refine kept_fileValue (p := some (Path.ofString s)) fun q hq => ?_
    cases hq
    exact Path.normal_ofString s
  | _ => exact meets_fault _

theorem directoryOf_settled {site : Site} {p : Path} (hp : p.Settled) :
    directoryOf site p.toString = .accepted p := by
  have hnormal : p.Normal := fun s hs =>
    have hname := hp.straight.names s hs
    ⟨hname.nonempty, hname.here, hname.single⟩
  rw [directoryOf, Path.ofString_toString hnormal, Site.settle_settled hp]

theorem meets_directoryValue {site : Site} (hsite : site.WellFormed) (v : Value) :
    (directoryValue site v).Meets Path.Settled := by
  unfold directoryValue
  split
  · next s =>
    unfold directoryOf
    split
    · next hp => exact Site.settled_of_settle hsite (Path.normal_ofString s) hp
    · exact meets_fault _
    · trivial
  · trivial

section parts
variable {α : Type} {read : Value → Verdict α}

theorem meets_partsValue {P : α → Prop} (hread : ∀ v, (read v).Meets P) (v : Value) :
    (partsValue read v).Meets fun l => ∀ a ∈ l, P a := by
  have hparts : ∀ vs, (partsOf read vs).Meets fun l => ∀ a ∈ l, P a := by
    intro vs
    induction vs with
    | nil => exact fun a ha => absurd ha List.not_mem_nil
    | cons v vs ih =>
      refine (hread v).bind fun a ha => ih.bind fun l hl => ?_
      exact List.forall_mem_cons.2 ⟨ha, hl⟩
  unfold partsValue
  split
  · exact fun a ha => absurd ha List.not_mem_nil
  · split
    · trivial
    · exact hparts _

/-- A list is read part by part. -/
theorem partsValue_list {g : α → Value} {l : List α} (h : ∀ a ∈ l, read (g a) = .accepted a) :
    partsValue read (.list (l.map g)) = .accepted l := by
  have hparts : partsOf read (l.map g) = .accepted l := by
    induction l with
    | nil => rfl
    | cons a l ih =>
      obtain ⟨ha, hl⟩ := List.forall_mem_cons.1 h
      rw [List.map_cons, partsOf, ha, ih hl]
      rfl
  cases l with
  | nil => rfl
  | cons a l => exact hparts

end parts

theorem kept_directoriesValue {site : Site} {l : List Path} (h : ∀ p ∈ l, p.Settled) :
    Kept (directoriesValue site) (fun l => Json.texts (l.map Path.toString)) l := by
  rw [Kept, ofJson_texts, List.map_map]
  exact partsValue_list fun p hp => directoryOf_settled (h p hp)

theorem startsWith_dotted (s : String) : Text.startsWith "." (dotted s) := by
  unfold dotted
  split
  · assumption
  · exact Option.isSome_iff_exists.2 ⟨s, Text.afterPrefix?_eq_some_iff.2 rfl⟩

theorem meets_extensionsValue (v : Value) : (extensionsValue v).Meets fun l =>
    ∀ e ∈ l, Text.startsWith "." e := by
  refine meets_partsValue (fun v => ?_) v
  split
  · exact startsWith_dotted _
  · trivial
  · trivial

theorem kept_extensionsValue {l : List String} (h : ∀ e ∈ l, Text.startsWith "." e) :
    Kept extensionsValue Json.texts l := by
  rw [Kept, ofJson_texts]
  exact partsValue_list fun e he => congrArg Verdict.accepted (if_pos (h e he))

end Settings
end Introspect
