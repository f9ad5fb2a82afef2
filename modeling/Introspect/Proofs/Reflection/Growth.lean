import Introspect.Proofs.Reflection.Step

/-! What was recorded stays recorded: later changes only add to it. -/
namespace Introspect.Reflection
open Relation

/-- What the first progress knows, the second one knows too. -/
structure Grows (p q : Progress) : Prop where
  types : ∀ n t, p.registry.types.find? n = some t → q.registry.types.find? n = some t
  origins : ∀ n t d, p.registry.types.find? n = some t → p.origins.find? n = some d →
    q.origins.find? n = some d
  classes : p.registry.classes.keys <+: q.registry.classes.keys
  enums : p.registry.enums.keys ⊆ q.registry.enums.keys
  bound : ∀ k, (p.baseArguments.find? k).isSome → (q.baseArguments.find? k).isSome

theorem promotedFields_reports (r : ClassRecord) (p : Progress) :
    Yields (promotedFields r) p fun _ q => Reported p q := by
  have hall : Supplies (fun _ => True) p := by constructor <;> simp
  exact (promotedFields_supplies hall (by simp)).mono fun _ _ h => h.1

namespace Grows
variable {p q r : Progress}

theorem refl (p : Progress) : Grows p p :=
  ⟨fun _ _ h => h, fun _ _ _ _ h => h, List.prefix_rfl, List.Subset.refl _, fun _ h => h⟩

theorem trans (hpq : Grows p q) (hqr : Grows q r) : Grows p r where
  types n t h := hqr.types n t (hpq.types n t h)
  origins n t d ht h := hqr.origins n t d (hpq.types n t ht) (hpq.origins n t d ht h)
  classes := hpq.classes.trans hqr.classes
  enums := List.Subset.trans hpq.enums hqr.enums
  bound k h := hqr.bound k (hpq.bound k h)

theorem of_reported (h : Reported p q) : Grows p q := by
  obtain ⟨es, rfl⟩ := h
  exact ⟨fun _ _ h => h, fun _ _ _ _ h => h, List.prefix_rfl, List.Subset.refl _, fun _ h => h⟩

theorem after_reported (h : Grows p r) (hq : Reported p q) : Grows q r := by
  obtain ⟨es, rfl⟩ := hq
  exact ⟨h.types, h.origins, h.classes, h.enums, h.bound⟩

theorem of_resolves {u : CompilationUnit} (h : Resolves u p q) : Grows p q := by
  obtain ⟨types, holders, origins, rfl⟩ := h.frame
  exact ⟨h.types, h.origins, List.prefix_rfl, List.Subset.refl _, fun _ h => h⟩

theorem of_withClass (r : ClassRecord) : Grows p (p.withClass r) where
  types _ _ h := h
  origins _ _ _ _ h := h
  classes := Catalog.keys_prefix_insert _ r
  enums := List.Subset.refl _
  bound _ h := h

theorem of_step {c : Context} (h : Step c p q) : Grows p q := by
  cases h with
  | report e => exact of_reported ⟨[e], rfl⟩
  | enterTypes h => exact of_resolves h
  | bindBase _ =>
    refine ⟨fun _ _ h => h, fun _ _ _ _ h => h, List.prefix_rfl, List.Subset.refl _, ?_⟩
    intro k hk
    dsimp only
    rw [Table.find?_insert]
    split
    · rfl
    · exact hk
  | @enterClass q flag d r promoted _ _ hrun _ =>
    exact (of_reported (promotedFields_reports r p _ _ hrun)).trans (of_withClass _)
  | enterEnum =>
    exact ⟨fun _ _ h => h, fun _ _ _ _ h => h, List.prefix_rfl,
      (Catalog.keys_prefix_insert p.registry.enums _).subset, fun _ h => h⟩
  | enterAlias =>
    exact ⟨fun _ _ h => h, fun _ _ _ _ h => h, List.prefix_rfl, List.Subset.refl _, fun _ h => h⟩
  | enterFunction =>
    exact ⟨fun _ _ h => h, fun _ _ _ _ h => h, List.prefix_rfl, List.Subset.refl _, fun _ h => h⟩

theorem of_steps {c : Context} (h : Steps c p q) : Grows p q := by
  induction h with
  | refl => exact refl p
  | tail _ hstep ih => exact ih.trans (of_step hstep)

theorem class_mem (h : Grows p q) {n : String} (hn : n ∈ p.registry.classes.keys) :
    n ∈ q.registry.classes.keys :=
  h.classes.subset hn

theorem type_mem (h : Grows p q) {t : CppType} (ht : t ∈ p.registry.types.items) :
    t ∈ q.registry.types.items :=
  Catalog.mem_of_find? (h.types _ _ (Catalog.find?_of_mem ht))

end Grows

section stable
variable {u : CompilationUnit} {c : Context} {p q : Progress}

theorem Resolved.grows {i : TypeId} {t : CppType} (h : Resolved u p i t) (hpq : Grows p q) :
    Resolved u q i t :=
  hpq.types _ _ h

theorem ResolvedUse.grows {i : TypeId} {v : TypeUse} (h : ResolvedUse u p i v) (hpq : Grows p q) :
    ResolvedUse u q i v := by
  obtain ⟨t, ht, rfl⟩ := h
  exact ⟨t, ht.grows hpq, rfl⟩

theorem ResolvedCursor.grows {x : CursorId} {t : CppType} (h : ResolvedCursor u p x t)
    (hpq : Grows p q) : ResolvedCursor u q x t := by
  obtain ⟨i, hi, ht⟩ := h
  exact ⟨i, hi, ht.grows hpq⟩

theorem ResolvedVariable.grows {x : CursorId} {v : TypeUse} (h : ResolvedVariable u p x v)
    (hpq : Grows p q) : ResolvedVariable u q x v := by
  obtain ⟨i, hi, hv⟩ := h
  exact ⟨i, hi, hv.grows hpq⟩

theorem IsSignature.grows {d : Cursor} {result : TypeUse} {arguments : List TypeUse}
    (h : IsSignature u p d result arguments) (hpq : Grows p q) :
    IsSignature u q d result arguments := by
  obtain ⟨i, hi, hresult⟩ := h.result
  exact ⟨⟨i, hi, hresult.grows hpq⟩, h.arguments.imp fun _ _ h => h.grows hpq⟩

theorem ClassSource.grows {type : CppType} {flag : Bool} {d : CursorId}
    (h : ClassSource u p type flag d) (hpq : Grows p q) : ClassSource u q type flag d := by
  cases h with
  | declared hkind htype => exact .declared hkind (hpq.types _ _ htype)
  | typed hclass htype hplain hd => exact .typed hclass (htype.grows hpq) hplain hd
  | specialized htype hspecial hgeneric horigin =>
    exact .specialized (htype.grows hpq) hspecial (hpq.types _ _ hgeneric)
      (hpq.origins _ _ _ hgeneric horigin)

theorem ClassSource.type_mem {type : CppType} {flag : Bool} {d : CursorId}
    (h : ClassSource u p type flag d) : type ∈ p.registry.types.items := by
  cases h with
  | declared _ htype | typed _ htype | specialized htype => exact Catalog.mem_of_find? htype

theorem IsField.grows {x : CursorId} {f : Field} (h : IsField c p x f) (hpq : Grows p q) :
    IsField c q x f :=
  ⟨h.name, h.use.grows hpq, h.metadata⟩

theorem IsMethod.grows {x : CursorId} {m : Method} (h : IsMethod c p x m) (hpq : Grows p q) :
    IsMethod c q x m :=
  ⟨h.name, h.signature.grows hpq, h.metadata⟩

theorem IsSpecializedMethod.grows {type : CppType} {x : CursorId} {m : Method}
    (h : IsSpecializedMethod c p type x m) (hpq : Grows p q) :
    IsSpecializedMethod c q type x m := by
  obtain ⟨generic, m', hgeneric, hm', rfl⟩ := h
  exact ⟨generic, m', hpq.types _ _ hgeneric, hm'.grows hpq, rfl⟩

theorem IsBase.grows {x : CursorId} {b : Given String} (h : IsBase c p x b) (hpq : Grows p q) :
    IsBase c q x b := by
  obtain ⟨n, hn, hb⟩ := h
  exact ⟨n, hpq.class_mem hn, hb⟩

theorem IsBinding.grows {type : CppType} {n : String} {as : List CppType}
    (h : IsBinding c p type n as) (hpq : Grows p q) : IsBinding c q type n as := by
  obtain ⟨flag, d, x, t, e, hsource, hx, hbinds, hn, has⟩ := h
  exact ⟨flag, d, x, t, e, hsource.grows hpq, hx, hbinds, hn, has.imp fun _ _ h => h.grows hpq⟩

theorem Members.grows {specialized : Bool} {xs : List CursorId} {r : ClassRecord}
    (h : Members c p specialized xs r) (hpq : Grows p q) : Members c q specialized xs r where
  fields := h.fields.imp fun _ _ h => h.grows hpq
  methods := by
    cases specialized with
    | false => exact h.methods.imp fun _ _ h => IsMethod.grows h hpq
    | true => exact h.methods.imp fun _ _ h => IsSpecializedMethod.grows h hpq
  bases := h.bases.imp fun _ _ h => h.grows hpq
  bound x hx t e he := hpq.bound _ (h.bound x hx t e he)

end stable
end Introspect.Reflection
