import Introspect.Proofs.Json.Leaf
import Introspect.Proofs.Path
import Introspect.Registry.Basic

/-! Registries in which every value is of the kind that belongs at its place, with a condition on
the whole numbers among the values, and registries of any values that their documents can give
back. -/
namespace Introspect

/-- The value is of the kind that belongs there. -/
def Given.IsProper {α : Type} [Datum α] (g : Given α) : Prop := ∃ a, g = .proper a

/-- The number has no more digits than whole numbers are read with. -/
def IsShort (n : Int) : Prop := (Json.digitsOf n).length ≤ Text.longestWhole

/-- A proper number, for which `numbers` holds. -/
def Given.IsNumber (numbers : Int → Prop) (g : Given Int) : Prop := ∃ n, g = .proper n ∧ numbers n

/-- A proper number that may be missing. If it is there, `numbers` holds for it. -/
def Given.IsLine (numbers : Int → Prop) (g : Given (Option Int)) : Prop :=
  ∃ line, g = .proper line ∧ ∀ n ∈ line, numbers n

/-- The name is a text, and so is the namespace around it. -/
structure QualifiedName.WellFormed (q : QualifiedName) : Prop where
  name : q.givenName.IsProper
  scope : q.givenScope.IsProper

def TypeUse.WellFormed (u : TypeUse) : Prop := u.constness.IsProper

section records
variable (numbers : Int → Prop)

structure Metadata.WellFormed (m : Metadata) : Prop where
  file : m.file.Normal
  line : m.line.IsNumber numbers
  reflected : m.reflected.IsProper
  tags : ∀ n ∈ m.tags, n.value.IsProper
  attributes : ∀ e ∈ m.attributes.entries, e.2.value.IsProper
  comment : m.comment.IsProper

structure Field.WellFormed (f : Field) : Prop where
  use : f.use.WellFormed
  metadata : f.metadata.WellFormed numbers

structure Method.WellFormed (m : Method) : Prop where
  result : m.result.WellFormed
  arguments : ∀ u ∈ m.arguments, u.WellFormed
  metadata : m.metadata.WellFormed numbers

structure ClassRecord.WellFormed (c : ClassRecord) : Prop where
  metadata : c.metadata.WellFormed numbers
  abstractness : c.abstractness.IsProper
  fields : ∀ f ∈ c.fields, f.WellFormed numbers
  methods : ∀ m ∈ c.methods, m.WellFormed numbers
  bases : ∀ b ∈ c.bases, b.IsProper
  bodyLine : c.bodyLine.IsLine numbers

structure Enumerator.WellFormed (v : Enumerator) : Prop where
  name : v.name.IsProper
  value : v.value.IsNumber numbers
  metadata : v.metadata.WellFormed numbers

structure EnumRecord.WellFormed (e : EnumRecord) : Prop where
  metadata : e.metadata.WellFormed numbers
  values : ∀ v ∈ e.values, v.WellFormed numbers
  bodyLine : e.bodyLine.IsLine numbers

structure AliasRecord.WellFormed (a : AliasRecord) : Prop where
  metadata : a.metadata.WellFormed numbers
  targetClass : a.targetClass.IsProper
  targetEnum : a.targetEnum.IsProper

structure FunctionRecord.WellFormed (f : FunctionRecord) : Prop where
  id : f.id.WellFormed
  result : f.result.WellFormed
  arguments : ∀ u ∈ f.arguments, u.WellFormed
  metadata : f.metadata.WellFormed numbers

/-- Every record is made of proper values. Of the types only the registered ones are asked for: a
coherent registry mentions no others. -/
structure Registry.WellFormed (r : Registry) : Prop where
  types : ∀ t ∈ r.types.items, t.id.WellFormed
  classes : ∀ c ∈ r.classes.items, c.WellFormed numbers
  enums : ∀ e ∈ r.enums.items, e.WellFormed numbers
  aliases : ∀ a ∈ r.aliases.items, a.WellFormed numbers
  functions : ∀ f ∈ r.functions.items, f.WellFormed numbers

end records

/-- A name at the top is a text, and so there is a number for it. -/
def QualifiedName.Numbered (q : QualifiedName) : Prop := q.isGlobal → q.givenName.IsProper

structure ClassRecord.Legible (c : ClassRecord) : Prop where
  file : c.metadata.file.Normal
  fields : ∀ f ∈ c.fields, f.metadata.file.Normal
  methods : ∀ m ∈ c.methods, m.metadata.file.Normal

structure EnumRecord.Legible (e : EnumRecord) : Prop where
  file : e.metadata.file.Normal
  values : ∀ v ∈ e.values, v.metadata.file.Normal

structure FunctionRecord.Legible (f : FunctionRecord) : Prop where
  id : f.id.Numbered
  file : f.metadata.file.Normal

/-- Of whatever values the records are made, they are read from a document as they stand: paths
are in normal form, and there are numbers for names. -/
structure Registry.Legible (r : Registry) : Prop where
  types : ∀ t ∈ r.types.items, t.id.Numbered
  classes : ∀ c ∈ r.classes.items, c.Legible
  enums : ∀ e ∈ r.enums.items, e.Legible
  aliases : ∀ a ∈ r.aliases.items, a.metadata.file.Normal
  functions : ∀ f ∈ r.functions.items, f.Legible

theorem Registry.WellFormed.legible {numbers : Int → Prop} {r : Registry}
    (hr : r.WellFormed numbers) : r.Legible where
  types t ht _ := (hr.types t ht).name
  classes c hc :=
    ⟨(hr.classes c hc).metadata.file, fun f hf => ((hr.classes c hc).fields f hf).metadata.file,
      fun m hm => ((hr.classes c hc).methods m hm).metadata.file⟩
  enums e he :=
    ⟨(hr.enums e he).metadata.file, fun v hv => ((hr.enums e he).values v hv).metadata.file⟩
  aliases a ha := (hr.aliases a ha).metadata.file
  functions f hf := ⟨fun _ => (hr.functions f hf).id.name, (hr.functions f hf).metadata.file⟩

end Introspect
