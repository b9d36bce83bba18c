import TapeMachine.CommandLine.Files
import TapeMachine.Main
import TapeMachine.Terminal.Dialogue
import TapeMachine.Proofs.Program.Matching
import TapeMachine.Proofs.Program.Expansion
import TapeMachine.Proofs.Program.Unmatched
import TapeMachine.Proofs.Tape.Access
import TapeMachine.Proofs.Tape.Strip
import TapeMachine.Proofs.Tape.Growth
import TapeMachine.Proofs.Stream.Attempts
import TapeMachine.Proofs.Machine.Walk
import TapeMachine.Proofs.Machine.Folding
import TapeMachine.Proofs.Machine.Retest
import TapeMachine.Proofs.Machine.Placement
import TapeMachine.Proofs.Structured.Refinement
import TapeMachine.Proofs.Debug.Calls
import TapeMachine.Proofs.Debug.Reachable
import TapeMachine.Proofs.Machine.Limit
import TapeMachine.Proofs.Program.RoundTrip
import TapeMachine.Proofs.Debug.Independence
import TapeMachine.Proofs.Debug.Following
import TapeMachine.Proofs.Debug.Failing
import TapeMachine.Proofs.Debug.Exhausted
import TapeMachine.Proofs.Debug.Handover
import TapeMachine.Proofs.CommandLine.DebugCommand
import TapeMachine.Proofs.CommandLine.ShellLines
import TapeMachine.Proofs.Terminal.Ending
import TapeMachine.Proofs.Program.FoldedBrackets
import TapeMachine.Proofs.Program.RunLength
import TapeMachine.Proofs.Machine.Reflection
import TapeMachine.Proofs.Debug.Retrying
import TapeMachine.Proofs.Program.Indentation
import TapeMachine.Proofs.Debug.InputOrder
import TapeMachine.Proofs.Debug.FullScreen
import TapeMachine.Proofs.Program.Comments
import TapeMachine.Proofs.Tape.Views
import TapeMachine.Proofs.Tape.Words
import TapeMachine.Proofs.Debug.Suspension
import TapeMachine.Proofs.Debug.Suspension
