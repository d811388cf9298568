import Offside.Main
import Offside.Program
import Offside.Proofs.Runs.Coverage
import Offside.Proofs.Runs.Faults
import Offside.Proofs.Runs.Indexing
import Offside.Proofs.Runs.Limits
import Offside.Proofs.Runs.Preservation
import Offside.Proofs.Runs.Resolution
import Offside.Proofs.Runs.Restoration
import Offside.Proofs.Scope.Closures
import Offside.Proofs.Runs.Isolation
import Offside.Proofs.Runs.Reuse
import Offside.Proofs.Runs.Termination
import Offside.Proofs.Syntax.Earliest
import Offside.Proofs.Token.Rebuilding
import Offside.Proofs.Typing.Coercion
import Offside.Proofs.Typing.CommonType
import Offside.Proofs.Typing.Inference
import Offside.Proofs.Runs.Locations
import Offside.Proofs.Syntax.SourceOrder
import Offside.Proofs.Runs.Compound
import Offside.Proofs.Runs.InputOrder
import Offside.Proofs.Number.General
import Offside.Proofs.Runs.Layout
import Offside.Proofs.Execution.Offsets
import Offside.Proofs.Runs.Frames
import Offside.Proofs.Syntax.Progress
