import GuardedData.Main
import GuardedData.Heap.Equality
import GuardedData.Heap.Rendering
import GuardedData.Record
import GuardedData.Schema.Encoding
import GuardedData.Proofs.Check.Acceptance
import GuardedData.Proofs.Check.Places
import GuardedData.Proofs.Guard.Access
import GuardedData.Proofs.Guard.Program
import GuardedData.Proofs.Heap.Forest
import GuardedData.Proofs.Guard.Validity
import GuardedData.Proofs.Guard.Branches
import GuardedData.Proofs.Guard.Origins
import GuardedData.Proofs.Guard.Memory
import GuardedData.Proofs.Guard.Coherence
import GuardedData.Proofs.Check.FirstFailure
import GuardedData.Proofs.Guard.Writes
import GuardedData.Proofs.Guard.Transparency
import GuardedData.Proofs.Schema.RoundTrip
import GuardedData.Proofs.Guard.Modes
import GuardedData.Proofs.Schema.Composition
import GuardedData.Proofs.Schema.TwoReadings
import GuardedData.Proofs.Record.Rebuilding
import GuardedData.Proofs.Check.Declared
import GuardedData.Proofs.Check.Unfolding
import GuardedData.Proofs.Heap.JsonImage
import GuardedData.Proofs.Cli.Outcome
import GuardedData.Proofs.Guard.Admission
import GuardedData.Proofs.Check.Widening
import GuardedData.Proofs.Check.Rearrangement
import GuardedData.Proofs.Check.PathText
import GuardedData.Proofs.Guard.Commuting
import GuardedData.Proofs.Schema.Encodings
import GuardedData.Proofs.Schema.KeyOrder
import GuardedData.Proofs.Check.Equals
import GuardedData.Proofs.Guard.KeyForms
import GuardedData.Proofs.Record.Outcome
import GuardedData.Proofs.Record.Clients
import GuardedData.Proofs.Schema.DeclaredFields
