import Introspect.Proofs.FileTree.WellFormed
import Introspect.Workspace

/-! How steps of work run, one after another. -/
namespace Introspect

/-- The files form a tree, and the working directory has a path that the system knows. -/
structure Workspace.WellFormed (w : Workspace) : Prop where
  tree : w.tree.WellFormed
  cwd : ∀ s ∈ w.site.cwd, Path.IsName s ∧ '\x00' ∉ s.toList

theorem Workspace.WellFormed.names {w : Workspace} (hw : w.WellFormed) :
    ∀ s ∈ w.site.cwd, Path.IsName s := fun s hs => (hw.cwd s hs).1

namespace Job
variable {α β : Type} {w w' w₁ : Workspace} {x : Job α} {f : α → Job β} {a : α} {b : β}
  {e : Failure} {p : Path}

/-! ## Chains -/

theorem run_bind_of_ok (h : x.run w = .ok a w₁) : (x >>= f).run w = (f a).run w₁ := by
  rw [EStateM.run_bind, h]

theorem run_bind_of_error (h : x.run w = .error e w₁) : (x >>= f).run w = .error e w₁ := by
  rw [EStateM.run_bind, h]

/-- A chain succeeds when its first step does and the rest does from where that stopped. -/
theorem run_bind_ok_iff : (x >>= f).run w = .ok b w' ↔
    ∃ a w₁, x.run w = .ok a w₁ ∧ (f a).run w₁ = .ok b w' := by
  cases h : x.run w with
  | ok a w₁ => simp [run_bind_of_ok h, and_assoc]
  | error e w₁ => simp [run_bind_of_error h]

private theorem run_discard : (discard x).run w = (x >>= fun _ => pure ⟨⟩).run w := rfl

theorem run_discard_of_ok (h : x.run w = .ok a w₁) : (discard x).run w = .ok () w₁ := by
  rw [run_discard, run_bind_of_ok h]
  rfl

theorem run_discard_of_error (h : x.run w = .error e w₁) : (discard x).run w = .error e w₁ := by
  rw [run_discard, run_bind_of_error h]

theorem exists_of_run_discard {u : Unit} (h : (discard x).run w = .ok u w') :
    ∃ a, x.run w = .ok a w' := by
  rw [run_discard, run_bind_ok_iff] at h
  obtain ⟨a, w₁, ha, hpure⟩ := h
  cases hpure
  exact ⟨a, ha⟩

theorem forM_cons (g : α → Job Unit) (l : List α) :
    (a :: l).forM g = (do g a; l.forM g) := rfl

/-! ## Steps -/

@[simp] theorem run_get : (get : Job Workspace).run w = .ok w w := rfl

@[simp] theorem run_cwd : Job.cwd.run w = .ok w.site.cwd w := rfl

@[simp] theorem run_ofExcept_ok : (ofExcept (.ok a) : Job α).run w = .ok a w := rfl

@[simp] theorem run_ofSystem_ok : (ofSystem (.ok a) : Job α).run w = .ok a w := rfl

@[simp] theorem run_report (es : List Event) :
    (report es).run w = .ok () { w with events := w.events ++ es } := rfl

@[simp] theorem run_adjust (g : FileTree → FileTree) :
    (adjust g).run w = .ok () { w with tree := g w.tree } := rfl

theorem run_ofExcept_ok_iff {y : Except Failure α} :
    (ofExcept y).run w = .ok a w' ↔ y = .ok a ∧ w' = w := by
  cases y with
  | ok b =>
    constructor
    · rintro ⟨⟩
      exact ⟨rfl, rfl⟩
    · rintro ⟨⟨⟩, rfl⟩
      rfl
  | error e =>
    constructor
    · nofun
    · rintro ⟨⟨⟩, -⟩

theorem run_ofSystem_ok_iff {y : Except SystemFault α} :
    (ofSystem y).run w = .ok a w' ↔ y = .ok a ∧ w' = w := by
  cases y with
  | ok b =>
    constructor
    · rintro ⟨⟩
      exact ⟨rfl, rfl⟩
    · rintro ⟨⟨⟩, rfl⟩
      rfl
  | error e =>
    constructor
    · nofun
    · rintro ⟨⟨⟩, -⟩

theorem requireKnown_eq_ok_iff {u : Unit} : p.requireKnown = .ok u ↔ p.hasNull = false := by
  unfold Path.requireKnown
  split
  · next h => simp [h]
  · next h => simp [h]

theorem run_requireKnown_ok_iff {u : Unit} :
    (requireKnown p).run w = .ok u w' ↔ p.hasNull = false ∧ w' = w := by
  rw [requireKnown, run_ofExcept_ok_iff, requireKnown_eq_ok_iff]

theorem run_change_ok_iff {g : FileTree → List String → Except SystemFault FileTree} {u : Unit} :
    (change g).run w = .ok u w' ↔ ∃ t, g w.tree w.site.cwd = .ok t ∧ w' = { w with tree := t } := by
  have hrun : (change g).run w =
      (ofSystem (g w.tree w.site.cwd) >>= fun tree => set { w with tree }).run w := rfl
  rw [hrun, run_bind_ok_iff]
  simp only [run_ofSystem_ok_iff]
  constructor
  · rintro ⟨t, w₁, ⟨ht, rfl⟩, hset⟩
    cases hset
    exact ⟨t, ht, rfl⟩
  · rintro ⟨t, ht, rfl⟩
    exact ⟨t, w, ⟨ht, rfl⟩, rfl⟩

/-- A directory was made when making it went through; all that changes is the tree. -/
theorem run_makeDirectory_ok_iff {u : Unit} : (makeDirectory p).run w = .ok u w' ↔
    p.hasNull = false ∧ w.tree.makeDirectory w.site.cwd p = (w'.tree, none) ∧
      w' = { w with tree := w'.tree } := by
  rw [makeDirectory, run_bind_ok_iff]
  simp only [run_requireKnown_ok_iff]
  constructor
  · rintro ⟨-, w₁, ⟨hnull, rfl⟩, hrun⟩
    cases hmake : w₁.tree.makeDirectory w₁.site.cwd p with
    | mk t fault =>
      have hrest : _ = EStateM.Result.ok u w' := hrun
      simp only [EStateM.run_bind, EStateM.run_get, hmake, EStateM.run_set] at hrest
      cases fault with
      | some fault => cases hrest
      | none =>
        cases hrest
        exact ⟨hnull, rfl, rfl⟩
  · rintro ⟨hnull, hmake, hw⟩
    refine ⟨(), w, ⟨hnull, rfl⟩, ?_⟩
    simp only [EStateM.run_bind, EStateM.run_get, hmake, EStateM.run_set]
    rw [hw]
    rfl

theorem run_isThere_ok_iff {test : Node → Bool} {v : Bool} (hnull : p.hasNull = false) :
    (isThere test p).run w = .ok v w' ↔ w.tree.isThere test w.site.cwd p = .ok v ∧ w' = w := by
  have hrun : (isThere test p).run w =
      (ofSystem (w.tree.isThere test w.site.cwd p)).run w := by
    simp [isThere, hnull]
  rw [hrun, run_ofSystem_ok_iff]

/-- Asking whether something is there changes nothing. -/
theorem eq_of_run_isThere {test : Node → Bool} {v : Bool} (h : (isThere test p).run w = .ok v w') :
    w' = w := by
  cases hnull : p.hasNull with
  | true =>
    rw [isThere, if_pos hnull] at h
    cases h
    rfl
  | false => exact ((run_isThere_ok_iff hnull).1 h).2

/-! ## Outcomes -/

/-- The work, run from a workspace, succeeds with a result and a workspace that satisfy `Q`, or
fails in a workspace that satisfies `E`. -/
structure Ends (x : Job α) (w : Workspace) (Q : α → Workspace → Prop) (E : Workspace → Prop) :
    Prop where
  of_ok : ∀ {a w'}, x.run w = .ok a w' → Q a w'
  of_error : ∀ {e w'}, x.run w = .error e w' → E w'

section outcomes
variable {Q R : α → Workspace → Prop} {Q' : β → Workspace → Prop} {E E' : Workspace → Prop}

theorem ends_of_ok (hrun : x.run w = .ok a w') (h : Q a w') : Ends x w Q E := by
  refine ⟨fun hrun' => ?_, fun hrun' => ?_⟩ <;> rw [hrun] at hrun' <;> cases hrun'
  exact h

theorem ends_of_error (hrun : x.run w = .error e w') (h : E w') : Ends x w Q E := by
  refine ⟨fun hrun' => ?_, fun hrun' => ?_⟩ <;> rw [hrun] at hrun' <;> cases hrun'
  exact h

theorem Ends.mono (h : Ends x w Q E) (hQ : ∀ a w', Q a w' → R a w') (hE : ∀ w', E w' → E' w') :
    Ends x w R E' :=
  ⟨fun hrun => hQ _ _ (h.of_ok hrun), fun hrun => hE _ (h.of_error hrun)⟩

theorem ends_pure (h : Q a w) : Ends (pure a : Job α) w Q E := ends_of_ok rfl h

theorem ends_throw (h : E w) : Ends (throw e : Job α) w Q E := ends_of_error rfl h

theorem ends_bind (hx : Ends x w R E) (hf : ∀ a w', R a w' → Ends (f a) w' Q' E) :
    Ends (x >>= f) w Q' E := by
  cases hrun : x.run w with
  | ok a w' =>
    have hrest := hf a w' (hx.of_ok hrun)
    exact ⟨fun h => hrest.of_ok (run_bind_of_ok hrun ▸ h),
      fun h => hrest.of_error (run_bind_of_ok hrun ▸ h)⟩
  | error e w' => exact ends_of_error (run_bind_of_error hrun) (hx.of_error hrun)

theorem ends_bind_of_ok (hx : x.run w = .ok a w₁) (hf : Ends (f a) w₁ Q' E) :
    Ends (x >>= f) w Q' E :=
  ⟨fun h => hf.of_ok (run_bind_of_ok hx ▸ h), fun h => hf.of_error (run_bind_of_ok hx ▸ h)⟩

/-- Work on one thing after another keeps what each piece of it keeps. -/
theorem ends_forM {I : Workspace → Prop} {g : α → Job Unit} {l : List α}
    (h : ∀ a ∈ l, ∀ w, I w → Ends (g a) w (fun _ => I) E) (hw : I w) :
    Ends (l.forM g) w (fun _ => I) E := by
  induction l generalizing w with
  | nil => exact ends_pure hw
  | cons a l ih =>
    rw [forM_cons]
    exact ends_bind (h a (List.mem_cons_self ..) w hw) fun _ w' hw' =>
      ih (fun b hb => h b (List.mem_cons_of_mem _ hb)) hw'

/-- What the work on one of the things leads to is still so in the end, if the work on the others
keeps it. -/
theorem ends_forM_of_mem {I J : Workspace → Prop} {g : α → Job Unit} {l : List α} (ha : a ∈ l)
    (hkeep : ∀ b ∈ l, ∀ w, I w → Ends (g b) w (fun _ w' => I w' ∧ (J w → J w')) E)
    (hreach : ∀ w, I w → Ends (g a) w (fun _ => J) fun _ => True) (hw : I w) :
    Ends (l.forM g) w (fun _ w' => I w' ∧ J w') E := by
  induction l generalizing w with
  | nil => cases ha
  | cons b l ih =>
    rw [forM_cons]
    have hfirst := hkeep b (List.mem_cons_self ..) w hw
    have hrest := fun c hc => hkeep c (List.mem_cons_of_mem b hc)
    by_cases hb : a = b
    · subst hb
      have hboth : Ends (g a) w (fun _ w' => I w' ∧ J w') E :=
        ⟨fun hrun => ⟨(hfirst.of_ok hrun).1, (hreach w hw).of_ok hrun⟩, hfirst.of_error⟩
      refine ends_bind hboth fun _ w' hw' => ends_forM (I := fun w => I w ∧ J w) ?_ hw'
      rintro c hc v ⟨hI, hJ⟩
      exact (hrest c hc v hI).mono (fun _ v' hv' => ⟨hv'.1, hv'.2 hJ⟩) fun _ hE => hE
    · refine ends_bind hfirst fun _ w' hw' => ih ((List.mem_cons.1 ha).resolve_left hb) hrest hw'.1

/-- The work leaves the files alone, and knows where it is. -/
def Still (x : Job α) : Prop :=
  ∀ w, Ends x w (fun _ w' => w'.tree = w.tree ∧ w'.site = w.site)
    fun w' => w'.tree = w.tree ∧ w'.site = w.site

theorem still_pure (a : α) : Still (pure a : Job α) := fun _ => ends_pure ⟨rfl, rfl⟩

theorem still_throw (e : Failure) : Still (throw e : Job α) := fun _ => ends_throw ⟨rfl, rfl⟩

theorem still_get : Still (get : Job Workspace) := fun _ => ends_of_ok rfl ⟨rfl, rfl⟩

theorem still_report (es : List Event) : Still (report es) := fun _ => ends_of_ok rfl ⟨rfl, rfl⟩

theorem still_cwd : Still Job.cwd := fun _ => ends_of_ok rfl ⟨rfl, rfl⟩

theorem still_ofExcept (y : Except Failure α) : Still (ofExcept y) := by
  cases y with
  | ok a => exact still_pure a
  | error e => exact still_throw e

theorem still_ofSystem (y : Except SystemFault α) : Still (ofSystem y) := by
  cases y with
  | ok a => exact still_pure a
  | error e => exact still_throw (.system e)

theorem still_requireKnown (p : Path) : Still (requireKnown p) := still_ofExcept p.requireKnown

theorem Still.bind (hx : Still x) (hf : ∀ a, Still (f a)) : Still (x >>= f) := by
  intro w
  refine ends_bind (hx w) fun a w' hw' => ?_
  rw [← hw'.1, ← hw'.2]
  exact hf a w'

theorem still_isThere (test : Node → Bool) (p : Path) : Still (isThere test p) := by
  unfold isThere
  split
  · exact still_pure false
  · exact still_get.bind fun w => still_ofSystem _

theorem still_select (directory : Path) (pattern : PathPattern) :
    Still (select directory pattern) := by
  refine (still_isThere _ directory).bind fun b => ?_
  cases b with
  | false => exact still_pure []
  | true => exact still_get.bind fun w => still_ofSystem _

/-- Where the files are left alone, whatever is known of them stays known. -/
theorem Still.ends (hx : Still x) (hQ : ∀ a w', x.run w = .ok a w' → w'.tree = w.tree →
      w'.site = w.site → Q a w') (hE : ∀ w', w'.tree = w.tree → w'.site = w.site → E w') :
    Ends x w Q E :=
  ⟨fun hrun => hQ _ _ hrun ((hx w).of_ok hrun).1 ((hx w).of_ok hrun).2,
    fun hrun => hE _ ((hx w).of_error hrun).1 ((hx w).of_error hrun).2⟩

end outcomes

/-! ## Outcomes of steps -/

theorem ends_change {g : FileTree → List String → Except SystemFault FileTree}
    {Q : Unit → Workspace → Prop} {E : Workspace → Prop}
    (hok : ∀ t, g w.tree w.site.cwd = .ok t → Q () { w with tree := t }) (herror : E w) :
    Ends (change g) w Q E := by
  have hrun : (change g).run w =
      (ofSystem (g w.tree w.site.cwd) >>= fun tree => set { w with tree }).run w := rfl
  cases hg : g w.tree w.site.cwd with
  | ok t => exact ends_of_ok (hrun.trans (by rw [hg]; rfl)) (hok t hg)
  | error e => exact ends_of_error (hrun.trans (by rw [hg]; rfl)) herror

theorem ends_requireKnown {Q : Unit → Workspace → Prop} {E : Workspace → Prop}
    (hok : p.hasNull = false → Q () w) (herror : E w) : Ends (requireKnown p) w Q E := by
  unfold requireKnown Path.requireKnown
  split
  · exact ends_throw herror
  · next hnull => exact ends_pure (hok (by simpa using hnull))

/-- Whatever comes of making a directory, the tree is as far as that went. -/
theorem ends_makeDirectory {Q : Unit → Workspace → Prop} {E : Workspace → Prop}
    (hok : ∀ t, p.hasNull = false → w.tree.makeDirectory w.site.cwd p = (t, none) →
      Q () { w with tree := t })
    (herror : p.hasNull = false → E { w with tree := (w.tree.makeDirectory w.site.cwd p).1 })
    (hunknown : E w) : Ends (makeDirectory p) w Q E := by
  unfold makeDirectory
  refine ends_bind (R := fun _ w' => p.hasNull = false ∧ w' = w)
    (ends_requireKnown (fun hnull => ⟨hnull, rfl⟩) hunknown) ?_
  rintro _ _ ⟨hnull, rfl⟩
  refine ends_bind_of_ok rfl ?_
  specialize herror hnull
  rcases hmake : FileTree.makeDirectory _ _ p with ⟨t, fault⟩
  rw [hmake] at herror
  cases fault with
  | none => exact ends_of_ok rfl (hok t hnull hmake)
  | some fault => exact ends_of_error rfl herror

end Job
end Introspect
