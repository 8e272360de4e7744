import Lc3.Instruction.Lemmas
import Lc3.Memory.Lemmas
import Lc3.Trap.Script
import Lc3.Trap.Recorder
import Lc3.Machine.Command
import Lc3.Proofs.Decoding
import Lc3.Proofs.Execution
import Lc3.Proofs.Reference
import Lc3.Proofs.Refinement
import Lc3.Proofs.Failure
import Lc3.Proofs.Editing
import Lc3.Proofs.Atomicity
import Lc3.Proofs.Calling
import Lc3.Proofs.Running
import Lc3.Proofs.Sessions
import Lc3.Proofs.Replacement
import Lc3.Proofs.Visibility
import Lc3.Proofs.Contracts
import Lc3.Proofs.Executions
import Lc3.Proofs.Results
import Lc3.Proofs.Calls
import Lc3.Proofs.Reporting
import Lc3.Proofs.Loading
import Lc3.Proofs.Addressing
import Lc3.Proofs.Consistency
import Lc3.Proofs.Feeding
import Lc3.Proofs.Checking
import Lc3.Proofs.Restoring
import Lc3.Proofs.Significance
import Lc3.Proofs.Straightline
import Lc3.Proofs.Halting
import Lc3.Proofs.Fields
import Lc3.Proofs.Linkage
