import DBusMarshal.Execution
import DBusMarshal.Layout
import DBusMarshal.Main
import DBusMarshal.VarList
import DBusMarshal.Wire
import DBusMarshal.Proofs.Emission
import DBusMarshal.Proofs.Writing
import DBusMarshal.Proofs.Conformance
import DBusMarshal.Proofs.Supply
import DBusMarshal.Proofs.Steps
import DBusMarshal.Proofs.Simulation
import DBusMarshal.Proofs.Iteration
import DBusMarshal.Proofs.Delivery
import DBusMarshal.Proofs.Scoping
import DBusMarshal.Proofs.Spelling
import DBusMarshal.Proofs.Typing
import DBusMarshal.Proofs.Acceptance
import DBusMarshal.Proofs.Operations
import DBusMarshal.Proofs.Confinement
import DBusMarshal.Proofs.Shortage
import DBusMarshal.Proofs.Composition
import DBusMarshal.Proofs.Outcomes
import DBusMarshal.Proofs.Capture
import DBusMarshal.Proofs.Fields
import DBusMarshal.Proofs.Envelope
import DBusMarshal.Proofs.Appending
import DBusMarshal.Proofs.Bookkeeping
import DBusMarshal.Proofs.Frozen
import DBusMarshal.Proofs.Pointers
import DBusMarshal.Proofs.Columns
import DBusMarshal.Proofs.Renaming
import DBusMarshal.Proofs.Rendering
import DBusMarshal.Proofs.Erasure
import DBusMarshal.Proofs.Termination
import DBusMarshal.Proofs.Damage
import DBusMarshal.Proofs.Encodings
import DBusMarshal.Proofs.Splicing
import DBusMarshal.Proofs.Arguments
import DBusMarshal.Proofs.Concatenation
import DBusMarshal.Proofs.Promotion
import DBusMarshal.Proofs.Formats
