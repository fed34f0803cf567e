import StackMachine.Artifact.Encode
import StackMachine.Main
import StackMachine.Proofs.Machine.Operation
import StackMachine.Proofs.Machine.Calling
import StackMachine.Proofs.Machine.Transition
import StackMachine.Proofs.Machine.Control
import StackMachine.Proofs.Machine.CallReturn
import StackMachine.Proofs.Library.Failure
import StackMachine.Proofs.Machine.Failure
import StackMachine.Proofs.Artifact.Reading
import StackMachine.Proofs.Artifact.RoundTrip
import StackMachine.Proofs.Artifact.Layout
import StackMachine.Proofs.Artifact.Acceptance
import StackMachine.Proofs.Artifact.Stability
import StackMachine.Proofs.Artifact.Prefix
import StackMachine.Proofs.Store.CanonicalText
import StackMachine.Proofs.Store.Prototypes
import StackMachine.Proofs.Artifact.Portions
import StackMachine.Proofs.Store.Scoping
import StackMachine.Proofs.Machine.Reloading
import StackMachine.Proofs.Machine.Traces
import StackMachine.Proofs.Machine.ImplicitReturn
import StackMachine.Proofs.Machine.Faults
import StackMachine.Proofs.Machine.DepthLimit
import StackMachine.Proofs.Store.Holding
import StackMachine.Proofs.Library.Effect
import StackMachine.Proofs.Machine.Effect
import StackMachine.Proofs.Machine.Indexes
import StackMachine.Proofs.Machine.Confinement
import StackMachine.Proofs.Store.Cells
import StackMachine.Proofs.Machine.EntryWrite
import StackMachine.Proofs.Machine.Footprint
import StackMachine.Proofs.Machine.LimitedOutput
import StackMachine.Proofs.Machine.ScopeChains
import StackMachine.Proofs.Artifact.Problems
import StackMachine.Proofs.Text.ByteOrder
import StackMachine.Proofs.Store.Writes
import StackMachine.Proofs.Library.Pairs
import StackMachine.Proofs.Machine.ObjectHistories
import StackMachine.Proofs.Machine.ArgumentBinding
import StackMachine.Proofs.Machine.Copying
import StackMachine.Proofs.Library.Splitting
import StackMachine.Proofs.Binary64.Exact
import StackMachine.Proofs.Binary64.FixedText
import StackMachine.Proofs.Library.NumberText
import StackMachine.Proofs.Machine.Remainder
import StackMachine.Proofs.Text.Lines
import StackMachine.Proofs.Listing
import StackMachine.Proofs.Binary64.Positions
import StackMachine.Proofs.Library.Slicing
import StackMachine.Proofs.Store.ArrayEdits
