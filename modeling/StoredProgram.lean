import StoredProgram.Command
import StoredProgram.Main
import StoredProgram.Proofs.Assembly.Renumbering
import StoredProgram.Proofs.Assembly.RoundTrip
import StoredProgram.Proofs.Image.Bytes
import StoredProgram.Proofs.Listing.Lines
import StoredProgram.Proofs.Machine.Failure
import StoredProgram.Proofs.Machine.Functions
import StoredProgram.Proofs.Machine.Printing
import StoredProgram.Proofs.Machine.PrintingProgram
import StoredProgram.Proofs.Machine.Reset
import StoredProgram.Proofs.Machine.Tracing
import StoredProgram.Proofs.Memory.Literal
import StoredProgram.Proofs.Machine.Perform
import StoredProgram.Proofs.Machine.Frame
import StoredProgram.Proofs.Machine.Faults
import StoredProgram.Proofs.Input
import StoredProgram.Proofs.Machine.Reading
import StoredProgram.Proofs.Machine.History
import StoredProgram.Proofs.Assembly.Append
import StoredProgram.Proofs.Machine.Bodies
import StoredProgram.Proofs.Machine.RunningOff
import StoredProgram.Proofs.Command.Pipeline
import StoredProgram.Proofs.Assembly.Grammar
import StoredProgram.Proofs.Machine.CorruptedPool
import StoredProgram.Proofs.Assembly.Immediate
import StoredProgram.Proofs.Machine.Assignment
import StoredProgram.Proofs.Machine.Recursion
import StoredProgram.Proofs.Memory.Links
import StoredProgram.Proofs.Machine.Halves
