import DeferredTyping.Config.Toml
import DeferredTyping.Inference.Typer
import DeferredTyping.Proofs.Applicability
import DeferredTyping.Proofs.Branches
import DeferredTyping.Proofs.Calls
import DeferredTyping.Proofs.Clashes
import DeferredTyping.Proofs.Composition
import DeferredTyping.Proofs.DeclaredParameters
import DeferredTyping.Proofs.Deferral
import DeferredTyping.Proofs.Delegation
import DeferredTyping.Proofs.DriverSettings
import DeferredTyping.Proofs.Exactness
import DeferredTyping.Proofs.Extraction
import DeferredTyping.Proofs.Grafting
import DeferredTyping.Proofs.Handouts
import DeferredTyping.Proofs.Independence
import DeferredTyping.Proofs.Inheritance
import DeferredTyping.Proofs.LastChance
import DeferredTyping.Proofs.Layout
import DeferredTyping.Proofs.Locals
import DeferredTyping.Proofs.MethodHistories
import DeferredTyping.Proofs.MethodLookup
import DeferredTyping.Proofs.ParentGraph
import DeferredTyping.Proofs.Permanence
import DeferredTyping.Proofs.Printing
import DeferredTyping.Proofs.Publication
import DeferredTyping.Proofs.Receivers
import DeferredTyping.Proofs.Reregistration
import DeferredTyping.Proofs.Settings
import DeferredTyping.Proofs.Signatures
import DeferredTyping.Proofs.Splicing
import DeferredTyping.Proofs.Termination
