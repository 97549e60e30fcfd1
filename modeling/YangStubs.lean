import YangStubs.Main
import YangStubs.Proofs.Emit.Members
import YangStubs.Proofs.Model.Augmented
import YangStubs.Proofs.Model.Facets
import YangStubs.Proofs.Model.Sharing
import YangStubs.Proofs.Schema.Extensions
import YangStubs.Proofs.Schema.ImportOrder
import YangStubs.Proofs.Schema.LoadOrder
import YangStubs.Proofs.Schema.Predicates
import YangStubs.Proofs.Schema.Refusal
import YangStubs.Proofs.Tool.Writing
import YangStubs.Proofs.View.Fields
import YangStubs.Proofs.View.Outlines
import YangStubs.Proofs.View.TypeNames
import YangStubs.Proofs.Naming.Conventions
import YangStubs.Proofs.Model.Derived
import YangStubs.Proofs.Backend.Anchoring
