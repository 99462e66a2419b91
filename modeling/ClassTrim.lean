import ClassTrim.Assembly
import ClassTrim.Engine
import ClassTrim.Provenance.Consistency
import ClassTrim.Simulation.Group
import ClassTrim.Proofs.DeadStore.Behaviour
import ClassTrim.Proofs.Retirement.Representation
import ClassTrim.Proofs.Hierarchy
import ClassTrim.Proofs.Usage.Fields
import ClassTrim.Proofs.ClassGroup
import ClassTrim.Proofs.Usage.Methods
import ClassTrim.Proofs.DeadStore.Census
import ClassTrim.Proofs.Engine.Edits
import ClassTrim.Proofs.Engine.Ledger
import ClassTrim.Proofs.Engine.Weight
import ClassTrim.Proofs.Engine.Steady
import ClassTrim.Proofs.Engine.Fixpoint
import ClassTrim.Proofs.Machine.Soundness
import ClassTrim.Proofs.Usage.Inherited
import ClassTrim.Proofs.DeadStore.Residue
import ClassTrim.Proofs.Engine.Sweep
import ClassTrim.Proofs.Usage.Rewriting
import ClassTrim.Proofs.Engine.Rounds
import ClassTrim.Proofs.Engine.Tolerance
import ClassTrim.Proofs.Engine.Order
import ClassTrim.Proofs.Simulation.Driven
import ClassTrim.Proofs.Retirement.Locality
import ClassTrim.Proofs.DeadStore.Facts
import ClassTrim.Proofs.Retirement.Atomicity
import ClassTrim.Proofs.Hierarchy.Preorder
import ClassTrim.Proofs.Simulation.Contract
import ClassTrim.Proofs.Hierarchy.FieldLookup
import ClassTrim.Proofs.Hierarchy.MethodLookup
import ClassTrim.Proofs.Descriptor.Grammar
import ClassTrim.Proofs.Hierarchy.Specificity
import ClassTrim.Proofs.Simulation.Slots
import ClassTrim.Proofs.Descriptor.Positions
import ClassTrim.Proofs.Descriptor.Agreement
import ClassTrim.Proofs.Machine.Words
import ClassTrim.Proofs.Provenance.Copies
import ClassTrim.Proofs.Provenance.Origins
import ClassTrim.Proofs.Retirement.Moves
import ClassTrim.Proofs.Simulation.Folding
import ClassTrim.Proofs.Retirement.Descent
import ClassTrim.Proofs.Retirement.Landing
import ClassTrim.Proofs.Retirement.Rejection
import ClassTrim.Proofs.Retirement.Reports
import ClassTrim.Proofs.Assembly
import ClassTrim.Proofs.DeadStore.Limits
import ClassTrim.Proofs.Retirement.Duplications
import ClassTrim.Proofs.Body.Identity
import ClassTrim.Proofs.Hierarchy.Ancestry
import ClassTrim.Proofs.Simulation.Seeding
