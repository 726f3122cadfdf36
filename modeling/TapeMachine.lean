import TapeMachine.Action
import TapeMachine.Program.Basic
import TapeMachine.Program.Scan
import TapeMachine.Program.Listing
import TapeMachine.Program.Canonical
import TapeMachine.Tape
import TapeMachine.Stream
import TapeMachine.Machine
import TapeMachine.Charwise
import TapeMachine.Text.Blank
import TapeMachine.Text.Split
import TapeMachine.Text.Numeral
import TapeMachine.Duration
import TapeMachine.Settings.Basic
import TapeMachine.Settings.Value
import TapeMachine.Settings.Bindings
import TapeMachine.Settings.Resolve
import TapeMachine.Settings.Load
import TapeMachine.Disk
import TapeMachine.Disk.Tree
import TapeMachine.ProgramFile
import TapeMachine.Interpretation
import TapeMachine.Diagnostics
import TapeMachine.Cli.Log
import TapeMachine.Cli.Run
import TapeMachine.Cli.Arguments
import TapeMachine.Cli.Unix
import TapeMachine.Main
import TapeMachine.Proofs.Grammar
import TapeMachine.Proofs.Scanning
import TapeMachine.Proofs.Tape
import TapeMachine.Proofs.Words
import TapeMachine.Proofs.WordTape
import TapeMachine.Proofs.Growth
import TapeMachine.Proofs.InfiniteRow
import TapeMachine.Proofs.Simulation
import TapeMachine.Proofs.Session
import TapeMachine.Proofs.Streams
import TapeMachine.Proofs.Folding
import TapeMachine.Proofs.Refinement
import TapeMachine.Proofs.Composition
import TapeMachine.Proofs.Canonical
import TapeMachine.Proofs.Filtering
import TapeMachine.Proofs.Conservation
import TapeMachine.Proofs.Listing
import TapeMachine.Proofs.EndOfInput
import TapeMachine.Proofs.Exchange
import TapeMachine.Proofs.Interruption
import TapeMachine.Proofs.Failure
import TapeMachine.Proofs.FaultySink
import TapeMachine.Proofs.Flushing
import TapeMachine.Proofs.Echo
import TapeMachine.Proofs.LinearLoop
import TapeMachine.Proofs.Narrowing
import TapeMachine.Proofs.Numerals
import TapeMachine.Proofs.SettingTexts
import TapeMachine.Proofs.TextLines
import TapeMachine.Proofs.Sections
import TapeMachine.Proofs.Layering
import TapeMachine.Proofs.CommandLine
import TapeMachine.Proofs.InlineAndFile
import TapeMachine.Proofs.WrittenSettings
import TapeMachine.Proofs.Caret
