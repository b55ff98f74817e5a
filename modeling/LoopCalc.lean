import LoopCalc.Main
import LoopCalc.Source.Probe
import LoopCalc.Proofs.Parsing.Blocks
import LoopCalc.Proofs.Grammar.Places
import LoopCalc.Proofs.Parsing.Agreement
import LoopCalc.Proofs.Parsing.ImplicitClosing
import LoopCalc.Proofs.Layout.Page
import LoopCalc.Proofs.Layout.RoundTrip
import LoopCalc.Proofs.Session.Mirror
import LoopCalc.Proofs.Number.Rounding
import LoopCalc.Proofs.Number.Decimals
import LoopCalc.Proofs.Number.Texts
import LoopCalc.Proofs.Session.PrintedNumbers
import LoopCalc.Proofs.Execution.Ranges
import LoopCalc.Proofs.Execution.StaticLoops
import LoopCalc.Proofs.Execution.Traces
import LoopCalc.Proofs.Session.Phases
import LoopCalc.Proofs.Session.Frame
import LoopCalc.Proofs.Parsing.Joining
import LoopCalc.Proofs.Parsing.Walking
import LoopCalc.Proofs.Parsing.Failing
import LoopCalc.Proofs.Parsing.ViablePrefixes
import LoopCalc.Proofs.Session.History
import LoopCalc.Proofs.Session.Warnings
import LoopCalc.Proofs.Parsing.Moving
import LoopCalc.Proofs.Parsing.Resuming
import LoopCalc.Proofs.Execution.Aborts
import LoopCalc.Proofs.Session.Errors
import LoopCalc.Proofs.Workbench.Failures
import LoopCalc.Proofs.CommandLine.Headless
import LoopCalc.Proofs.Execution.Counting
import LoopCalc.Proofs.Session.Refusals
import LoopCalc.Proofs.Highlight.Gaps
import LoopCalc.Proofs.Highlight.Agreement
import LoopCalc.Proofs.Execution.Simulation
import LoopCalc.Proofs.Execution.Endings
import LoopCalc.Proofs.Execution.FrozenBounds
import LoopCalc.Proofs.Execution.LastLocations
import LoopCalc.Proofs.Execution.Silencing
import LoopCalc.Proofs.Session.Marks
import LoopCalc.Proofs.Execution.Renaming
import LoopCalc.Proofs.Parsing.Strides
import LoopCalc.Proofs.Session.SingleLines
import LoopCalc.Proofs.Workbench.Editing
import LoopCalc.Proofs.Screen.Windows
import LoopCalc.Proofs.Workbench.Frames
import LoopCalc.Proofs.CommandLine.Arguments
import LoopCalc.Proofs.Parsing.Values
import LoopCalc.Proofs.Parsing.Comments
import LoopCalc.Proofs.Parsing.Lookahead
