import Intcode.Arcade
import Intcode.Camera
import Intcode.Channel.Basic
import Intcode.Channel.Endpoint
import Intcode.Channel.Fifo
import Intcode.Channel.Joystick
import Intcode.Channel.Tape
import Intcode.Channel.Wire
import Intcode.Chart
import Intcode.Circuit.Chain
import Intcode.Circuit.Phases
import Intcode.Circuit.Ring
import Intcode.CommandLine.Arguments
import Intcode.CommandLine.Execution
import Intcode.CommandLine.FileTree
import Intcode.CommandLine.Request
import Intcode.Device.Basic
import Intcode.Device.Loop
import Intcode.Disassembly
import Intcode.Droid.Controller
import Intcode.Droid.Maze
import Intcode.Fault
import Intcode.Hull
import Intcode.Instruction
import Intcode.Machine.Basic
import Intcode.Machine.Plan
import Intcode.Machine.Record
import Intcode.Machine.Run
import Intcode.Main
import Intcode.Memory
import Intcode.Plane
import Intcode.Processor
import Intcode.Program
import Intcode.Relay
import Intcode.Schedule
import Intcode.Settings
import Intcode.Shell.Command
import Intcode.Shell.Report
import Intcode.Shell.Session
import Intcode.Text.Align
import Intcode.Text.Blank
import Intcode.Text.Extending
import Intcode.Text.Numeral
import Intcode.Text.Quoted
import Intcode.Text.Ranges
import Intcode.Text.Unprintable
import Intcode.Warning
import Intcode.Word
import Intcode.Proofs.Machine.FailedStep
import Intcode.Proofs.Machine.Ideal
import Intcode.Proofs.Machine.Storage
import Intcode.Proofs.Instruction
import Intcode.Proofs.Channel.Contents
import Intcode.Proofs.Machine.Run
import Intcode.Proofs.Machine.Faults
import Intcode.Proofs.Processor.Act
import Intcode.Proofs.Circuit.Life
import Intcode.Proofs.Circuit.Row
import Intcode.Proofs.Circuit.Report
import Intcode.Proofs.Circuit.Chain
import Intcode.Proofs.Circuit.Orderings
import Intcode.Proofs.Circuit.Phases
import Intcode.Proofs.Relay.Phase
import Intcode.Proofs.Schedule
import Intcode.Proofs.Circuit.Ring
import Intcode.Proofs.Device.Coroutine
import Intcode.Proofs.Device.Loop
import Intcode.Proofs.Machine.Refinement
import Intcode.Proofs.Machine.Simulation
import Intcode.Proofs.Machine.Tracing
import Intcode.Proofs.Droid.Maze
import Intcode.Proofs.Droid.Search
import Intcode.Proofs.Droid.Mapping
import Intcode.Proofs.Droid.Ending
import Intcode.Proofs.Droid.Steering
import Intcode.Proofs.Circuit.Linked
import Intcode.Proofs.Circuit.Release
import Intcode.Proofs.Machine.Address
import Intcode.Proofs.Machine.Pieces
import Intcode.Proofs.Channel.Use
import Intcode.Proofs.Device.Closing
import Intcode.Proofs.Relay.Joining
import Intcode.Proofs.Machine.Among
import Intcode.Proofs.Processor.Living
import Intcode.Proofs.Processor.Lifecycle
import Intcode.Proofs.Processor.Audience
import Intcode.Proofs.Processor.Listening
import Intcode.Proofs.Device.Ledger
import Intcode.Proofs.Device.Waiting
import Intcode.Proofs.Channel.Clones
import Intcode.Proofs.Machine.Interchange
import Intcode.Proofs.Disassembly.Text
import Intcode.Proofs.Disassembly.Line
import Intcode.Proofs.Disassembly.Listing
import Intcode.Proofs.Disassembly.Execution
import Intcode.Proofs.Memory
import Intcode.Proofs.Listing
import Intcode.Proofs.Program
import Intcode.Proofs.Text.Numeral
import Intcode.Proofs.Text.Blank
import Intcode.Proofs.Shell.Line
import Intcode.Proofs.Shell.Stepping
import Intcode.Proofs.Arcade
import Intcode.Proofs.Hull
import Intcode.Proofs.Camera.Decoding
import Intcode.Proofs.Camera.Scaffold
import Intcode.Proofs.Shell.Transcript
import Intcode.Proofs.Picture
import Intcode.Proofs.Memory.Parts
import Intcode.Proofs.Instruction.Digits
