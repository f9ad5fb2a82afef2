import Introspect.Proofs.Document.Length
import Introspect.Proofs.Document.Rereading
import Introspect.Proofs.Json.LineEnds
import Introspect.Proofs.Store.Collect

/-! Registry files that were written: what is read from them can be put together, whatever registries
they were written of. -/
namespace Introspect.Store
open FileTree Job

variable {c : Collection} {w v : Workspace} {q : List String} {u : List String → Registry}
  {r : Registry} {rs : List Registry} {path : Path} {patience : Patience}

/-- A registry file is at the place: that of the module, or any below the output directory. -/
structure IsStored (c : Collection) (w : Workspace) (q : List String) : Prop where
  registry : IsRegistry w.tree w.site.cwd c.output q ∨ q = c.own w.site.cwd
  file : ∃ text, w.tree.find? q = some (.file text)

/-- Every registry file holds the text of a registry, the one that `u` has for its place. No two
names of types in these registries have the same number, and no two names of functions. -/
structure Written (c : Collection) (w : Workspace) (u : List String → Registry) : Prop where
  text : ∀ q, IsStored c w q → ∀ text, w.tree.find? q = some (.file text) →
    text = Document.toText (u q) (some indentation)
  wellFormed : ∀ q, IsStored c w q → (u q).WellFormed fun _ => True
  names : ∀ q, IsStored c w q → ∀ t ∈ (Document.typeTable (u q)).items, t.id.WellFormed
  types : ∀ qs : List (List String), (∀ q ∈ qs, IsStored c w q) →
    c.hash.Separates (qs.flatMap fun q => (Document.typeTable (u q)).keys)
  functions : ∀ qs : List (List String), (∀ q ∈ qs, IsStored c w q) →
    c.hash.Separates (qs.flatMap fun q => (u q).functions.keys)

/-- The registry is what a registry file restores, or one without records. -/
def IsRestored (c : Collection) (w : Workspace) (u : List String → Registry) (r : Registry) :
    Prop :=
  r = .empty c.hash ∨ ∃ q, IsStored c w q ∧ Document.Restores c.hash (u q) r

private theorem restores_of_text {hash : NameHash} {v r : Registry}
    (hv : v.WellFormed fun _ => True)
    (hnames : ∀ t ∈ (Document.typeTable v).items, t.id.WellFormed)
    (htypes : hash.Separates (Document.typeTable v).keys)
    (hfunctions : hash.Separates v.functions.keys)
    (h : Document.ofText hash (Document.toText v (some indentation)) = .ok r) :
    Document.Restores hash v r := by
  have hblank : Json.IsBlank (some indentation) := Json.isBlank_blanks (some 2)
  have hparse : ∃ j, Json.parse (Document.toText v (some indentation)) = .ok j := by
    cases hj : Json.parse (Document.toText v (some indentation)) with
    | ok j => exact ⟨j, rfl⟩
    | error e =>
      rw [Document.ofText, hj] at h
      cases e <;> cases h
  obtain ⟨j, hj⟩ := hparse
  exact Document.restores_of_ofText (Document.isShort_of_parse hblank hv hnames hj) hnames htypes
    hfunctions hblank h

private theorem exists_stored_type {n : String} (hr : IsRestored c w u r) (hn : n ∈ r.types.keys) :
    ∃ q, IsStored c w q ∧ n ∈ (Document.typeTable (u q)).keys := by
  rcases hr with rfl | ⟨q, hq, hrestores⟩
  · cases hn
  · exact ⟨q, hq, hrestores.types ▸ hn⟩

private theorem exists_stored_function {n : String} (hr : IsRestored c w u r)
    (hn : n ∈ r.functions.keys) : ∃ q, IsStored c w q ∧ n ∈ (u q).functions.keys := by
  rcases hr with rfl | ⟨q, hq, hrestores⟩
  · cases hn
  · exact ⟨q, hq, hrestores.functions ▸ hn⟩

namespace Written
variable (h : Written c w u)
include h

/-- The registry files that are left where others went were written too. -/
theorem of_lacks {D : List String → Prop} (hlacks : Lacks c w v D) : Written c v u := by
  have hsame : ∀ q text, v.tree.find? q = some (.file text) →
      w.tree.find? q = some (.file text) := by
    intro q text hfile
    by_cases hD : D q
    · rw [hlacks.gone q hD] at hfile
      cases hfile
    · exact hlacks.same q hD ▸ hfile
  have hstored : ∀ q, IsStored c v q → IsStored c w q := by
    rintro q ⟨hplace, text, hfile⟩
    refine ⟨?_, text, hsame q text hfile⟩
    rw [hlacks.registry_iff, hlacks.site] at hplace
    exact hplace.imp_left And.left
  exact ⟨fun q hq text hfile => h.text q (hstored q hq) text (hsame q text hfile),
    fun q hq => h.wellFormed q (hstored q hq), fun q hq => h.names q (hstored q hq),
    fun qs hqs => h.types qs fun q hq => hstored q (hqs q hq),
    fun qs hqs => h.functions qs fun q hq => hstored q (hqs q hq)⟩

/-- What is read from a registry file is restored from what it was written of. -/
theorem restored (hq : IsRegistry w.tree w.site.cwd c.output (path.fold w.site.cwd) ∨
      path.fold w.site.cwd = c.own w.site.cwd)
    (hread : (read path c.hash patience).run w = .ok r v) : IsRestored c w u r := by
  obtain ⟨-, -, -, text, htext, hof⟩ := run_read_ok_iff.1 hread
  obtain ⟨q, hplace, hfile⟩ := read_eq_ok_iff.1 htext
  obtain rfl : q = path.fold w.site.cwd := locate_ok hplace
  have hstored : IsStored c w (path.fold w.site.cwd) := ⟨hq, text, hfile⟩
  obtain rfl := h.text _ hstored text hfile
  have hlines : Text.unifyNewlines (Document.toText (u (path.fold w.site.cwd))
      (some indentation)).toList = (Document.toText (u (path.fold w.site.cwd))
        (some indentation)).toList :=
    Json.unifyNewlines_print (some 2) (Document.encode _)
  rw [hlines, String.ofList_toList] at hof
  have htypes := h.types [path.fold w.site.cwd] (by simpa using hstored)
  have hfunctions := h.functions [path.fold w.site.cwd] (by simpa using hstored)
  rw [List.flatMap_cons, List.flatMap_nil, List.append_nil] at htypes hfunctions
  exact .inr ⟨_, hstored, restores_of_text (h.wellFormed _ hstored) (h.names _ hstored) htypes
    hfunctions hof⟩

theorem restored_all {files : List Path}
    (hfiles : ∀ p ∈ files, IsRegistry w.tree w.site.cwd c.output (p.fold w.site.cwd))
    (hread : List.Forall₂ (fun p r => (read p c.hash patience).run w = .ok r w) files rs) :
    ∀ r ∈ rs, IsRestored c w u r := by
  induction hread with
  | nil => nofun
  | cons hfirst _ ih =>
    obtain ⟨hregistry, hothers⟩ := List.forall_mem_cons.1 hfiles
    exact List.forall_mem_cons.2 ⟨h.restored (.inl hregistry) hfirst, ih hothers⟩

/-- All that is read from registry files can be put together. -/
theorem combinable (hrs : ∀ r ∈ rs, IsRestored c w u r) : Registry.Combinable c.hash rs where
  hashes r hr := by
    rcases hrs r hr with rfl | ⟨q, -, hrestores⟩
    exacts [rfl, hrestores.hash]
  coherent r hr := by
    rcases hrs r hr with rfl | ⟨q, -, hrestores⟩
    exacts [Registry.coherent_empty _, hrestores.coherent]
  wellFormed r hr := by
    rcases hrs r hr with rfl | ⟨q, -, hrestores⟩
    exacts [Registry.wellFormed_empty _, hrestores.wellFormed]
  types := by
    intro a ha b hb
    obtain ⟨r, hr, ha⟩ := List.mem_flatMap.1 ha
    obtain ⟨s, hs, hb⟩ := List.mem_flatMap.1 hb
    obtain ⟨q, hq, ha⟩ := exists_stored_type (hrs r hr) ha
    obtain ⟨k, hk, hb⟩ := exists_stored_type (hrs s hs) hb
    exact h.types [q, k] (by simp [hq, hk]) a (by simp [ha]) b (by simp [hb])
  functions := by
    intro a ha b hb
    obtain ⟨r, hr, ha⟩ := List.mem_flatMap.1 ha
    obtain ⟨s, hs, hb⟩ := List.mem_flatMap.1 hb
    obtain ⟨q, hq, ha⟩ := exists_stored_function (hrs r hr) ha
    obtain ⟨k, hk, hb⟩ := exists_stored_function (hrs s hs) hb
    exact h.functions [q, k] (by simp [hq, hk]) a (by simp [ha]) b (by simp [hb])
  fields r hr d hd := by
    rcases hrs r hr with rfl | ⟨q, -, hrestores⟩
    · cases hd
    · exact hrestores.hash ▸ hrestores.numbers.fields d hd
  methods r hr d hd := by
    rcases hrs r hr with rfl | ⟨q, -, hrestores⟩
    · cases hd
    · exact hrestores.hash ▸ hrestores.numbers.methods d hd

end Written
end Introspect.Store
