import Brainfuck.Api.Body
import Brainfuck.Api.DryRun
import Brainfuck.Api.Field
import Brainfuck.Api.Payload
import Brainfuck.Api.Problem
import Brainfuck.Api.Route
import Brainfuck.Api.Service
import Brainfuck.Api.Store
import Brainfuck.Binary64
import Brainfuck.Binary64.Shortest
import Brainfuck.CommandLine.Debugger
import Brainfuck.CommandLine.Interpreter
import Brainfuck.CommandLine.Options
import Brainfuck.CommandLine.Server
import Brainfuck.CommandLine.Verbosity
import Brainfuck.Datum
import Brainfuck.Debugger.Breakpoints
import Brainfuck.Debugger.Command
import Brainfuck.Debugger.Console
import Brainfuck.Debugger.Rendering
import Brainfuck.Debugger.Session
import Brainfuck.Event
import Brainfuck.Fault
import Brainfuck.Files.Directory
import Brainfuck.Files.MediaType
import Brainfuck.Files.Path
import Brainfuck.Index
import Brainfuck.Input
import Brainfuck.Instruction
import Brainfuck.Json.Basic
import Brainfuck.Json.Compact
import Brainfuck.Json.Reader
import Brainfuck.Machine.Basic
import Brainfuck.Machine.Run
import Brainfuck.Machine.Snapshot
import Brainfuck.Machine.Stepper
import Brainfuck.Main
import Brainfuck.Program
import Brainfuck.Program.Loading
import Brainfuck.Proofs.Access
import Brainfuck.Proofs.Alike
import Brainfuck.Proofs.Atomicity
import Brainfuck.Proofs.Balance
import Brainfuck.Proofs.Block
import Brainfuck.Proofs.Bounds
import Brainfuck.Proofs.Breakpoints
import Brainfuck.Proofs.Budget
import Brainfuck.Proofs.Calls
import Brainfuck.Proofs.Change
import Brainfuck.Proofs.Completion
import Brainfuck.Proofs.Console
import Brainfuck.Proofs.Conversation
import Brainfuck.Proofs.Creation
import Brainfuck.Proofs.Cycle
import Brainfuck.Proofs.Delivery
import Brainfuck.Proofs.DryRun
import Brainfuck.Proofs.Evaluation
import Brainfuck.Proofs.Excerpt
import Brainfuck.Proofs.Exhaustion
import Brainfuck.Proofs.Extension
import Brainfuck.Proofs.Failures
import Brainfuck.Proofs.Faulting
import Brainfuck.Proofs.Fidelity
import Brainfuck.Proofs.Foretelling
import Brainfuck.Proofs.FrontEnds
import Brainfuck.Proofs.Guise
import Brainfuck.Proofs.History
import Brainfuck.Proofs.Ignoring
import Brainfuck.Proofs.Inertness
import Brainfuck.Proofs.Input
import Brainfuck.Proofs.Interleaving
import Brainfuck.Proofs.Isolation
import Brainfuck.Proofs.Job
import Brainfuck.Proofs.Journal
import Brainfuck.Proofs.Jump
import Brainfuck.Proofs.Judges
import Brainfuck.Proofs.Legibility
import Brainfuck.Proofs.Loading
import Brainfuck.Proofs.LockStep
import Brainfuck.Proofs.Matching
import Brainfuck.Proofs.Numeral
import Brainfuck.Proofs.Obedience
import Brainfuck.Proofs.Outcome
import Brainfuck.Proofs.Pairs
import Brainfuck.Proofs.Pool
import Brainfuck.Proofs.Quoted
import Brainfuck.Proofs.Reads
import Brainfuck.Proofs.Refusals
import Brainfuck.Proofs.Report
import Brainfuck.Proofs.Response
import Brainfuck.Proofs.Restart
import Brainfuck.Proofs.Rotation
import Brainfuck.Proofs.Run
import Brainfuck.Proofs.Safety
import Brainfuck.Proofs.Service
import Brainfuck.Proofs.Session
import Brainfuck.Proofs.Sifting
import Brainfuck.Proofs.Statuses
import Brainfuck.Proofs.Stepper
import Brainfuck.Proofs.Steps
import Brainfuck.Proofs.Stopping
import Brainfuck.Proofs.Store
import Brainfuck.Proofs.StraightLine
import Brainfuck.Proofs.Strides
import Brainfuck.Proofs.Structured
import Brainfuck.Proofs.Tape
import Brainfuck.Proofs.Termination
import Brainfuck.Proofs.Trace
import Brainfuck.Proofs.Transitions
import Brainfuck.Proofs.Usage
import Brainfuck.Proofs.Utf8
import Brainfuck.Proofs.Verdict
import Brainfuck.Proofs.Walk
import Brainfuck.Proofs.Window
import Brainfuck.Proofs.Workspace
import Brainfuck.Setting
import Brainfuck.Sink
import Brainfuck.Tape
import Brainfuck.Text.Blank
import Brainfuck.Text.Case
import Brainfuck.Text.Cased
import Brainfuck.Text.Digit
import Brainfuck.Text.Encoding
import Brainfuck.Text.Lines
import Brainfuck.Text.Numeral
import Brainfuck.Text.Point
import Brainfuck.Text.Printable
import Brainfuck.Text.Quoted
import Brainfuck.Text.Ranges
import Brainfuck.Text.Utf8
import Brainfuck.Text.Words
