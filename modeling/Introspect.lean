import Introspect.Main
import Introspect.Proofs.Diagnostic
import Introspect.Proofs.Json.RoundTrip
import Introspect.Proofs.Document.RoundTrip
import Introspect.Proofs.Registry.Coherence
import Introspect.Proofs.Registry.Order
import Introspect.Proofs.Registry.Redefinition
import Introspect.Proofs.Reflection.Reach
import Introspect.Proofs.Reflection.Repetition
import Introspect.Proofs.Reflection.Alignment
import Introspect.Proofs.Store.Append
import Introspect.Proofs.Pass.Commute
import Introspect.Proofs.Store.Place
import Introspect.Proofs.Store.Find
import Introspect.Proofs.Pass.Registries
import Introspect.Proofs.Pass.Module
import Introspect.Proofs.Store.Source
import Introspect.Proofs.Store.Collect
import Introspect.Proofs.Store.Gather
import Introspect.Proofs.Reflection.Links
import Introspect.Proofs.Reflection.Visits
import Introspect.Proofs.Reflection.Nesting
import Introspect.Proofs.Document.Rereading
import Introspect.Proofs.Store.Emit
import Introspect.Proofs.Store.Regather
import Introspect.Proofs.Document.Length
import Introspect.Proofs.Reflection.Again
import Introspect.Proofs.Reflection.Pruning
import Introspect.Proofs.Document.Entries
import Introspect.Proofs.Document.Decoded
import Introspect.Proofs.Document.Refusal
import Introspect.Proofs.Emission.Dependence
import Introspect.Proofs.Emission.Lines
import Introspect.Proofs.Emission.Getters
import Introspect.Proofs.Emission.References
import Introspect.Proofs.Emission.MacroNames
import Introspect.Proofs.Registry.Ancestors
import Introspect.Proofs.Emission.Arrays
import Introspect.Proofs.Emission.Initialisers
import Introspect.Proofs.Registry.Targets
import Introspect.Proofs.Annotation
import Introspect.Proofs.Comment
import Introspect.Proofs.Reflection.ClassKey
import Introspect.Proofs.Store.Attempt
import Introspect.Proofs.Document.Building
import Introspect.Proofs.Document.References
import Introspect.Proofs.Document.Reordering
import Introspect.Proofs.Pass.CleanUp
import Introspect.Proofs.Containment
import Introspect.Proofs.Settings.Layers
import Introspect.Proofs.Emission.SuperClass
import Introspect.Proofs.Reflection.ParameterKind
