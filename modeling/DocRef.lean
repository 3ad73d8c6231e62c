import DocRef.Main
import DocRef.Node.Written
import DocRef.Proofs.CanonicalId.Canonical
import DocRef.Proofs.CanonicalId.Collisions
import DocRef.Proofs.CanonicalId.Constructed
import DocRef.Proofs.CanonicalId.RoundTrip
import DocRef.Proofs.Catalog.Acceptance
import DocRef.Proofs.Catalog.Agreement
import DocRef.Proofs.Catalog.Growth
import DocRef.Proofs.Catalog.Order
import DocRef.Proofs.Command.Check
import DocRef.Proofs.Diagnostic
import DocRef.Proofs.Grammar.Agreement
import DocRef.Proofs.Grammar.Faults
import DocRef.Proofs.Grammar.Spacing
import DocRef.Proofs.Inheritance.Monotone
import DocRef.Proofs.Node.Written
import DocRef.Proofs.Project.Walk
import DocRef.Proofs.Resolution.Letters
import DocRef.Proofs.Resolution.Replacement
import DocRef.Proofs.Resolution.Suffixes
import DocRef.Proofs.Resolution.UniqueFit
import DocRef.Proofs.Token.Markers
