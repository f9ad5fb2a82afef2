import Introspect.Record
import Introspect.Text.Blank
import Introspect.Text.Cut

/-! The annotations that mark declarations for reflection. With the marker `m` they read `m`,
`m,Tag`, `m,Key,Value`, `m-meta-runtime:Name,Value` and `m-meta-compile:Name,Value`. -/
namespace Introspect

/-- What one annotation says. -/
inductive Annotation where
  | mark
  | tag (note : Note)
  | attribute (name : String) (note : Note)
deriving DecidableEq

namespace Annotation

def lifetime? (s : List Char) : Option Lifetime :=
  if s = "runtime".toList then some .runtime
  else if s = "compile".toList then some .compile
  else none

/-- The part behind `m-meta-`: a lifetime, a colon, a name and perhaps a comma and a value. A
blank value leaves a tag; any other is trimmed. -/
def ofMeta? (s : List Char) : Option Annotation :=
  match Text.cutAt ':' s with
  | (_, none) => none
  | (kind, some payload) =>
    (lifetime? kind).map fun lifetime =>
      let p := Text.cutAt ',' payload
      let value := Text.trim (p.2.getD [])
      if value.isEmpty then .tag ⟨String.ofList p.1, lifetime⟩
      else .attribute (String.ofList p.1) ⟨String.ofList value, lifetime⟩

/-- The part behind the first comma: a tag, or a key, a comma and a value that is kept as it is. -/
def ofPlain (s : List Char) : Annotation :=
  match Text.cutAt ',' s with
  | (_, none) => .tag ⟨String.ofList s, .runtime⟩
  | (key, some value) => .attribute (String.ofList key) ⟨String.ofList value, .runtime⟩

/-- What an annotation says under a marker; nothing when it is not meant for reflection. -/
def parse? (marker s : String) : Option Annotation :=
  if s = marker then some .mark
  else match Text.afterPrefix? (marker ++ "-meta-") s with
    | some r => ofMeta? r.toList
    | none =>
      if Text.startsWith (marker ++ ",") s then
        some (ofPlain ((Text.cutAt ',' s.toList).2.getD []))
      else none

/-- Enters an annotation into metadata. A later attribute of the same name replaces the value. -/
def apply (m : Metadata) : Annotation → Metadata
  | .mark => { m with reflected := true }
  | .tag n => { m with reflected := true, tags := m.tags ++ [n] }
  | .attribute k n => { m with reflected := true, attributes := m.attributes.insert k n }

end Annotation

/-- The metadata after one annotation string, and whether it was meant for reflection. -/
def Metadata.annotate (marker : String) (m : Metadata) (s : String) : Metadata × Bool :=
  match Annotation.parse? marker s with
  | none => (m, false)
  | some a => (a.apply m, true)

/-- The metadata after a list of annotation strings. -/
def Metadata.annotateAll (marker : String) (m : Metadata) (l : List String) : Metadata :=
  l.foldl (fun m s => (m.annotate marker s).1) m

end Introspect
