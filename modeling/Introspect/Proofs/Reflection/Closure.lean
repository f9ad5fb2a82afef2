import Introspect.Proofs.Reflection.Run
import Introspect.Proofs.Registry.Coherence

/-! A walk leaves a registry that is closed: whatever a record mentions is registered, and classes
come after their bases. -/
namespace Introspect.Reflection
open Relation

/-- A registered class that comes before the other, unless that one is among its own ancestors. -/
def Precedes (u : CompilationUnit) (r : Registry) (n m : String) : Prop :=
  n ∈ r.classes.keys ∧ ([n, m].Sublist r.classes.keys ∨ Circular u m)

/-- What every change keeps. -/
structure Closed (u : CompilationUnit) (p : Progress) : Prop where
  arguments : ArgumentsClosed p.registry
  classTypes : ∀ k ∈ p.registry.classes.items, ∀ t ∈ Document.classTypes k,
    t ∈ p.registry.types.items
  given : ∀ k as, p.baseArguments.find? k = some as → ∀ a ∈ as, a ∈ p.registry.types.items
  enums : ∀ e ∈ p.registry.enums.items, e.type ∈ p.registry.types.items
  aliases : ∀ a ∈ p.registry.aliases.items, ∀ t ∈ [a.type, a.target], t ∈ p.registry.types.items
  functions : ∀ f ∈ p.registry.functions.items,
    ∀ t ∈ f.result.type :: f.arguments.map (·.type), t ∈ p.registry.types.items
  bases : ∀ k ∈ p.registry.classes.items, ∀ b ∈ k.bases,
    ∃ n, b = .proper n ∧ Precedes u p.registry n k.qualifiedName
  targets : ∀ a ∈ p.registry.aliases.items, ∃ k e, a.targetClass = .proper k ∧
    a.targetEnum = .proper e ∧ (∀ n ∈ k, n ∈ p.registry.classes.keys) ∧
    ∀ n ∈ e, n ∈ p.registry.enums.keys

theorem closed_start (u : CompilationUnit) (hash : NameHash) :
    Closed u (.start (.empty hash)) := by
  constructor <;> simp [Progress.start, Registry.empty, ArgumentsClosed]

section types
variable {u : CompilationUnit} {c : Context} {p q : Progress}

theorem ResolvedVariable.type_mem {x : CursorId} {v : TypeUse} (h : ResolvedVariable u p x v) :
    v.type ∈ p.registry.types.items := by
  obtain ⟨i, -, t, ht, rfl⟩ := h
  exact Catalog.mem_of_find? ht

theorem IsSignature.types_mem {d : Cursor} {result : TypeUse} {arguments : List TypeUse}
    (h : IsSignature u p d result arguments) :
    ∀ t ∈ result.type :: arguments.map (·.type), t ∈ p.registry.types.items := by
  intro t ht
  rcases List.mem_cons.1 ht with rfl | ht
  · obtain ⟨i, -, s, hs, rfl⟩ := h.result
    exact Catalog.mem_of_find? hs
  · obtain ⟨v, hv, rfl⟩ := List.mem_map.1 ht
    obtain ⟨x, -, hx⟩ := exists_of_forall₂ h.arguments hv
    exact hx.type_mem

theorem IsSpecializedMethod.types_mem {type : CppType} {x : CursorId} {m : Method}
    (h : IsSpecializedMethod c p type x m)
    (harguments : ∀ a ∈ type.arguments, a ∈ p.registry.types.items) :
    ∀ t ∈ m.result.type :: m.arguments.map (·.type), t ∈ p.registry.types.items := by
  obtain ⟨generic, m', -, hm', rfl⟩ := h
  have htypes := hm'.signature.types_mem
  intro t ht
  rcases List.mem_cons.1 ht with rfl | ht
  · exact substituted_holds (P := (· ∈ p.registry.types.items)) harguments
      (htypes _ List.mem_cons_self)
  · simp only [substitutedMethod, List.map_map, List.mem_map] at ht
    obtain ⟨v, hv, rfl⟩ := ht
    exact substituted_holds (P := (· ∈ p.registry.types.items)) harguments
      (htypes _ (List.mem_cons_of_mem _ (List.mem_map_of_mem hv)))

theorem mem_classTypes_append {r : ClassRecord} {fields : List Field} {t : CppType} :
    t ∈ Document.classTypes { r with fields := r.fields ++ fields } ↔
      t ∈ Document.classTypes r ∨ ∃ f ∈ fields, f.use.type = t := by
  simp only [Document.classTypes, List.map_append, List.cons_append, List.mem_cons,
    List.mem_append, List.mem_map]
  grind

/-- All types of a walked class are registered, also those that stand for template parameters. -/
theorem Members.types_mem {flag : Bool} {xs : List CursorId} {r : ClassRecord}
    (h : Members c p flag xs r) (htype : r.type ∈ p.registry.types.items)
    (harguments : ∀ a ∈ r.type.arguments, a ∈ p.registry.types.items) :
    ∀ t ∈ Document.classTypes r, t ∈ p.registry.types.items := by
  intro t ht
  simp only [Document.classTypes, List.cons_append, List.mem_cons, List.mem_append, List.mem_map,
    List.mem_flatMap] at ht
  rcases ht with rfl | ⟨f, hf, rfl⟩ | ⟨m, hm, ht⟩
  · exact htype
  · obtain ⟨x, -, hx⟩ := exists_of_forall₂ h.fields hf
    exact hx.use.type_mem
  · obtain ⟨x, -, hx⟩ := exists_of_forall₂ h.methods hm
    rw [← List.mem_map, ← List.mem_cons] at ht
    cases flag with
    | false => exact IsSignature.types_mem (IsMethod.signature hx) t ht
    | true => exact IsSpecializedMethod.types_mem hx harguments t ht

theorem Closed.supplies (hp : Closed u p) : Supplies (· ∈ p.registry.types.items) p where
  fields k hk f hf := by
    apply hp.classTypes k hk
    simp only [Document.classTypes, List.cons_append, List.mem_cons, List.mem_append, List.mem_map]
    exact .inr (.inl ⟨f, hf, rfl⟩)
  arguments k hk := hp.arguments _ (hp.classTypes k hk _ (by simp [Document.classTypes]))
  given := hp.given

end types

section order
variable {u : CompilationUnit} {r r' : Registry}

theorem Precedes.grows {n m : String} (h : Precedes u r n m)
    (hr : r.classes.keys <+: r'.classes.keys) : Precedes u r' n m :=
  ⟨hr.subset h.1, h.2.imp_left fun h => h.trans hr.sublist⟩

/-- A class that is entered comes after those that were there, unless it was there itself. -/
theorem precedes_insert {k : ClassRecord} {n : String} (hn : n ∈ r.classes.keys)
    (hk : k.qualifiedName ∈ r.classes.keys → Circular u k.qualifiedName) :
    Precedes u { r with classes := r.classes.insert k } n k.qualifiedName := by
  refine ⟨Catalog.mem_keys_insert.2 (.inr hn), ?_⟩
  by_cases hmem : k.qualifiedName ∈ r.classes.keys
  · exact .inr (hk hmem)
  · left
    dsimp only
    rw [Catalog.keys_insert, if_neg hmem]
    exact (List.singleton_sublist.2 hn).append (List.Sublist.refl [k.qualifiedName])

end order

namespace Closed
variable {u : CompilationUnit} {c : Context} {p q : Progress}

theorem reported (hp : Closed u p) (h : Reported p q) : Closed u q := by
  obtain ⟨es, rfl⟩ := h
  exact { hp with }

theorem resolves (hu : NamesApart u) (hp : Closed u p) (h : Resolves u p q) : Closed u q := by
  have harguments := h.closed hu hp.arguments
  have hmono := fun t => Grows.type_mem (t := t) h.grows
  obtain ⟨types, holders, origins, rfl⟩ := h.frame
  exact { hp with
    arguments := harguments
    classTypes := fun k hk t ht => hmono t (hp.classTypes k hk t ht)
    given := fun k as h a ha => hmono a (hp.given k as h a ha)
    enums := fun e he => hmono _ (hp.enums e he)
    aliases := fun a ha t ht => hmono t (hp.aliases a ha t ht)
    functions := fun f hf t ht => hmono t (hp.functions f hf t ht) }

theorem withClass (hp : Closed u p) {k : ClassRecord}
    (htypes : ∀ t ∈ Document.classTypes k, t ∈ p.registry.types.items)
    (hbases : ∀ b ∈ k.bases, ∃ n ∈ p.registry.classes.keys, b = .proper n)
    (hagain : k.qualifiedName ∈ p.registry.classes.keys → Circular u k.qualifiedName) :
    Closed u (p.withClass k) := by
  have hkeys := Catalog.keys_prefix_insert p.registry.classes k
  exact { hp with
    classTypes := by
      intro j hj
      rcases Catalog.mem_items_insert.1 hj with rfl | ⟨hj, -⟩
      · exact htypes
      · exact hp.classTypes j hj
    bases := by
      intro j hj b hb
      rcases Catalog.mem_items_insert.1 hj with rfl | ⟨hj, -⟩
      · obtain ⟨n, hn, rfl⟩ := hbases b hb
        exact ⟨n, rfl, precedes_insert hn hagain⟩
      · obtain ⟨n, rfl, hn⟩ := hp.bases j hj b hb
        exact ⟨n, rfl, hn.grows hkeys⟩
    targets := by
      intro a ha
      obtain ⟨n, e, hn, he, hclass, henum⟩ := hp.targets a ha
      exact ⟨n, e, hn, he, fun n hn => hkeys.subset (hclass n hn), henum⟩ }

/-- Every change keeps the registry closed. -/
theorem step (hu : NamesApart c.unit) (hp : Closed c.unit p) (h : Step c p q) : Closed c.unit q := by
  cases h with
  | report e => exact hp.reported ⟨[e], rfl⟩
  | enterTypes h => exact hp.resolves hu h
  | bindBase hbinding =>
    refine { hp with given := ?_ }
    intro k as hk
    rw [Table.find?_insert] at hk
    split at hk
    · obtain rfl := Option.some.inj hk
      obtain ⟨_, _, _, _, _, _, _, _, _, has⟩ := hbinding
      intro a ha
      obtain ⟨j, -, hj⟩ := exists_of_forall₂ has ha
      exact Catalog.mem_of_find? hj
    · exact hp.given k as hk
  | @enterClass q flag d r promoted hsource hmembers hrun hagain =>
    -- fields from templates are of types that the templates or the bindings hold
    have harguments := hp.arguments _ hsource.type_mem
    obtain ⟨hreported, hpromoted⟩ := promotedFields_supplies hp.supplies harguments _ _ hrun
    have hq := hreported.registry_eq
    apply (hp.reported hreported).withClass
    · rw [hq]
      intro t ht
      rcases mem_classTypes_append.1 ht with ht | ⟨f, hf, rfl⟩
      · exact hmembers.types_mem hsource.type_mem harguments t ht
      · exact hpromoted f hf
    · rw [hq]
      intro b hb
      obtain ⟨x, -, n, hn, -, rfl⟩ := exists_of_forall₂ hmembers.bases hb
      exact ⟨n, hn, rfl⟩
    · rw [hq]
      exact hagain
  | enterEnum he =>
    refine { hp with enums := ?_, targets := ?_ }
    · intro e' he'
      rcases Catalog.mem_items_insert.1 he' with rfl | ⟨he', -⟩
      · exact he
      · exact hp.enums e' he'
    · intro a ha
      obtain ⟨n, e, hn, he, hclass, henum⟩ := hp.targets a ha
      exact ⟨n, e, hn, he, hclass, fun n hn => Catalog.mem_keys_insert.2 (.inr (henum n hn))⟩
  | enterAlias htype htarget hclass henum hclassMem henumMem =>
    refine { hp with aliases := ?_, targets := ?_ }
    · intro a ha t ht
      rcases Catalog.mem_items_insert.1 ha with rfl | ⟨ha, -⟩
      · rcases List.mem_pair.1 ht with rfl | rfl
        · exact htype
        · exact htarget
      · exact hp.aliases a ha t ht
    · intro a ha
      rcases Catalog.mem_items_insert.1 ha with rfl | ⟨ha, -⟩
      · exact ⟨_, _, hclass, henum, hclassMem, henumMem⟩
      · exact hp.targets a ha
  | enterFunction hsignature =>
    refine { hp with functions := ?_ }
    intro f hf
    rcases Catalog.mem_items_insert.1 hf with rfl | ⟨hf, -⟩
    · exact hsignature.types_mem
    · exact hp.functions f hf

theorem steps (hu : NamesApart c.unit) (hp : Closed c.unit p) (h : Steps c p q) : Closed c.unit q := by
  induction h with
  | refl => exact hp
  | tail _ hstep ih => exact ih.step hu hstep

/-- In a closed registry a type stands for the same data wherever it is mentioned. -/
theorem coherent (hp : Closed u p) : p.registry.Coherent := by
  refine Registry.coherent_of_closed ?_ hp.arguments
  intro t ht
  simp only [Document.recordTypes, List.mem_append, List.mem_flatMap, List.mem_map] at ht
  rcases ht with ((⟨k, hk, ht⟩ | ⟨e, he, rfl⟩) | ⟨a, ha, ht⟩) | ⟨f, hf, ht⟩
  · exact hp.classTypes k hk t ht
  · exact hp.enums e he
  · exact hp.aliases a ha t ht
  · exact hp.functions f hf t ht

end Closed

/-- A walk that starts without records and does not fail leaves a closed registry. Types are the
same data wherever they are mentioned, the bases of a class come before it unless it is among its
own ancestors, and aliases name registered classes and enums. -/
theorem reflect_closed (c : Context) (hu : NamesApart c.unit) (hash : NameHash) (i : CursorId)
    (p : Progress) (hrun : (reflect c i).run (.start (.empty hash)) = .ok () p) :
    p.registry.Coherent ∧
      (∀ k ∈ p.registry.classes.items, ∀ b ∈ k.bases,
        ∃ n, b = .proper n ∧ Precedes c.unit p.registry n k.qualifiedName) ∧
      ∀ a ∈ p.registry.aliases.items, ∃ k e, a.targetClass = .proper k ∧
        a.targetEnum = .proper e ∧ (∀ n ∈ k, n ∈ p.registry.classes.keys) ∧
        ∀ n ∈ e, n ∈ p.registry.enums.keys := by
  have hclosed := (closed_start c.unit hash).steps hu (reflect_steps_start hrun)
  exact ⟨hclosed.coherent, hclosed.bases, hclosed.targets⟩

/-- A declaration in a file of the module, directly below the first one. -/
def written (kind : CursorKind) (spelling : String) (type : Option TypeId)
    (children : List CursorId) : Cursor :=
  { Cursor.unknown with
    kind := kind
    spelling := spelling
    type := type
    isDefinition := true
    children := children
    file := some ⟨.root, ["module", "a.h"]⟩
    parent := some 0 }

/-- A walk over a unit in which everything of interest is marked. -/
def walkOver (u : CompilationUnit) : Context := ⟨u, [], ⟨.root, ["module"]⟩, "mark", "body"⟩

/-- What a walk from the first declaration leaves, if it does not fail, satisfies a test. -/
def leaves (u : CompilationUnit) (test : Progress → Bool) : Bool :=
  match (reflect (walkOver u) 0).run (.start (.empty NameHash.crc32)) with
  | .ok _ p => test p
  | .error .. => false

theorem exists_of_leaves {u : CompilationUnit} {test : Progress → Bool} (h : leaves u test) :
    ∃ p, (reflect (walkOver u) 0).run (.start (.empty NameHash.crc32)) = .ok () p ∧ test p := by
  unfold leaves at h
  split at h
  · next p hrun => exact ⟨p, hrun, h⟩
  · cases h

/-- A class template `Box` with a field of its parameter, its specialisation for `int`, and a class
`Crate` derived from that. -/
def crates : CompilationUnit where
  root := 0
  cursors := #[
    written .unit "a.h" none [1, 6, 7],
    written .classTemplate "Box" none [2, 3, 4],
    written .annotationNode "mark" none [],
    written .templateTypeParameter "T" (some 0) [],
    written .fieldDecl "value" (some 0) [5],
    written .annotationNode "mark" none [],
    written .structDecl "Box" (some 2) [],
    written .structDecl "Crate" (some 3) [8, 9],
    written .annotationNode "mark" none [],
    written .baseSpecifier "Box<int>" (some 2) []]
  types := #[
    ⟨.unexposed, "T", false, true, 0, none, some 3, []⟩,
    ⟨.int, "int", false, false, 1, none, none, []⟩,
    ⟨.record, "Box<int>", false, false, 2, none, some 6, [1]⟩,
    ⟨.record, "Crate", false, false, 3, none, some 7, []⟩]

/-- The specialisation comes in as the base of the plain class, between it and the template. -/
theorem reflect_closed_crates : NamesApart crates ∧ ∃ p,
    (reflect (walkOver crates) 0).run (.start (.empty NameHash.crc32)) = .ok () p ∧
      p.registry.Coherent ∧ p.registry.classes.keys = ["Box", "Box<int>", "Crate"] := by
  have hu : NamesApart crates := namesApart_of_flat (by decide +kernel) (by decide +kernel)
  have hleaves : leaves crates fun p =>
      p.registry.classes.keys == ["Box", "Box<int>", "Crate"] := by decide +kernel
  obtain ⟨p, hrun, hkeys⟩ := exists_of_leaves hleaves
  exact ⟨hu, p, hrun, (reflect_closed (walkOver crates) hu _ 0 p hrun).1, beq_iff_eq.1 hkeys⟩

/-- A specialisation of `Box` that is derived from `Derived`, which is derived from it. -/
def ring : CompilationUnit where
  root := 0
  cursors := #[
    written .unit "a.h" none [1, 4, 7],
    written .classTemplate "Box" none [2, 3],
    written .annotationNode "mark" none [],
    written .templateTypeParameter "T" (some 0) [],
    written .structDecl "Box" (some 2) [5, 6],
    written .annotationNode "mark" none [],
    written .baseSpecifier "Derived" (some 3) [],
    written .structDecl "Derived" (some 3) [8],
    written .baseSpecifier "Box<int>" (some 2) []]
  types := #[
    ⟨.unexposed, "T", false, true, 0, none, some 3, []⟩,
    ⟨.int, "int", false, false, 1, none, none, []⟩,
    ⟨.record, "Box<int>", false, false, 2, none, some 4, [1]⟩,
    ⟨.record, "Derived", false, false, 3, none, some 7, []⟩]

/-- A class that is among its own ancestors is there before one of its bases. -/
theorem exists_class_before_base_ring : NamesApart ring ∧ NamesDistinct ring ∧ ∃ p,
    (reflect (walkOver ring) 0).run (.start (.empty NameHash.crc32)) = .ok () p ∧
      ¬ ∀ k ∈ p.registry.classes.items, ∀ b ∈ k.bases, ∃ n, b = .proper n ∧
        [n, k.qualifiedName].Sublist p.registry.classes.keys := by
  have hleaves : leaves ring fun p =>
      p.registry.classes.keys == ["Box", "Box<int>", "Derived"] &&
        p.registry.classes.items.any fun k =>
          k.qualifiedName == "Box<int>" && k.bases == [.proper "Derived"] := by decide +kernel
  obtain ⟨p, hrun, htest⟩ := exists_of_leaves hleaves
  refine ⟨namesApart_of_flat (by decide +kernel) (by decide +kernel),
    namesDistinct_of_declarations (by decide +kernel), p, hrun, ?_⟩
  simp only [Bool.and_eq_true, beq_iff_eq, List.any_eq_true] at htest
  obtain ⟨hkeys, k, hk, hname, hbases⟩ := htest
  intro hall
  obtain ⟨n, hn, hsublist⟩ := hall k hk (.proper "Derived") (by simp [hbases])
  obtain rfl := Given.proper.inj hn
  rw [hkeys, hname] at hsublist
  revert hsublist
  decide

end Introspect.Reflection
