import Timeshare.Main
import Timeshare.Files.Tree
import Timeshare.Proofs.Storage.Refinement
import Timeshare.Proofs.Storage.InPlace
import Timeshare.Proofs.Kernel.Isolation
import Timeshare.Proofs.Kernel.Context
import Timeshare.Proofs.Kernel.Slicing
import Timeshare.Proofs.Session.Control
import Timeshare.Proofs.Session.Accounting
import Timeshare.Proofs.Kernel.Capacity
import Timeshare.Proofs.Kernel.FailedCreation
import Timeshare.Proofs.Kernel.Scheduling
import Timeshare.Proofs.Kernel.Outcome
import Timeshare.Proofs.Kernel.Lifecycle
import Timeshare.Proofs.Kernel.StackConfinement
import Timeshare.Proofs.Kernel.Shutdown
import Timeshare.Proofs.Session.Output
import Timeshare.Proofs.Checked.History
import Timeshare.Proofs.Process.Refinement
import Timeshare.Proofs.Kernel.Completion
import Timeshare.Proofs.Kernel.Metering
import Timeshare.Proofs.Machine.Division
import Timeshare.Proofs.Kernel.Termination
import Timeshare.Proofs.Kernel.FirstProcess
import Timeshare.Proofs.Machine.Encoding
import Timeshare.Proofs.Program.Text
import Timeshare.Proofs.Program.InPlace
import Timeshare.Proofs.Session.Script
