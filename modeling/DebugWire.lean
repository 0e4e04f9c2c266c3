import DebugWire.Address
import DebugWire.Breakpoints
import DebugWire.Client.Basic
import DebugWire.Client.Pair
import DebugWire.Client.Wait
import DebugWire.Engine.Basic
import DebugWire.Engine.Relay
import DebugWire.Fault
import DebugWire.Hex
import DebugWire.Json.Basic
import DebugWire.Json.Parser
import DebugWire.Json.Printer
import DebugWire.Listing.Basic
import DebugWire.Listing.Reader
import DebugWire.Log
import DebugWire.Machine.Basic
import DebugWire.Machine.Checked
import DebugWire.Machine.Snapshot
import DebugWire.Main
import DebugWire.Number.Basic
import DebugWire.Number.Digits
import DebugWire.Number.Literal
import DebugWire.Number.Text
import DebugWire.Options.Basic
import DebugWire.Options.Names
import DebugWire.Options.Value
import DebugWire.Options.Word
import DebugWire.Project.Config
import DebugWire.Project.Files
import DebugWire.Project.Path
import DebugWire.Project.Target
import DebugWire.Prompt.Console
import DebugWire.Prompt.Display
import DebugWire.Prompt.Line
import DebugWire.Proofs.Address
import DebugWire.Proofs.Breakpoints
import DebugWire.Proofs.Breakpoints.History
import DebugWire.Proofs.Client.Abandoned
import DebugWire.Proofs.Client.Attached
import DebugWire.Proofs.Client.Exchange
import DebugWire.Proofs.Client.Hearing
import DebugWire.Proofs.Client.Listeners
import DebugWire.Proofs.Client.ReadBack
import DebugWire.Proofs.Client.Resolution
import DebugWire.Proofs.Client.Sending
import DebugWire.Proofs.Client.Settling
import DebugWire.Proofs.Client.Signals
import DebugWire.Proofs.Client.Splitting
import DebugWire.Proofs.Client.Transparency
import DebugWire.Proofs.Client.Waiting
import DebugWire.Proofs.Engine.Emission
import DebugWire.Proofs.Engine.Faults
import DebugWire.Proofs.Engine.Handling
import DebugWire.Proofs.Engine.Listening
import DebugWire.Proofs.Engine.Observing
import DebugWire.Proofs.Engine.Pieces
import DebugWire.Proofs.Engine.Poking
import DebugWire.Proofs.Engine.Queries
import DebugWire.Proofs.Engine.Refusing
import DebugWire.Proofs.Engine.Registers
import DebugWire.Proofs.Engine.Stepping
import DebugWire.Proofs.Engine.Storage
import DebugWire.Proofs.Engine.Suspension
import DebugWire.Proofs.Engine.Termination
import DebugWire.Proofs.Hex
import DebugWire.Proofs.Json.Controls
import DebugWire.Proofs.Json.Layout
import DebugWire.Proofs.Json.Members
import DebugWire.Proofs.Json.Numerals
import DebugWire.Proofs.Json.RoundTrip
import DebugWire.Proofs.Listing.Lookup
import DebugWire.Proofs.Listing.Validation
import DebugWire.Proofs.Machine.Calls
import DebugWire.Proofs.Machine.Memory
import DebugWire.Proofs.Machine.Ranges
import DebugWire.Proofs.Machine.Snapshot
import DebugWire.Proofs.Machine.Sound
import DebugWire.Proofs.Machine.Storage
import DebugWire.Proofs.Machine.Validation
import DebugWire.Proofs.Number.Counting
import DebugWire.Proofs.Number.Decimal
import DebugWire.Proofs.Number.Digits
import DebugWire.Proofs.Number.Ordering
import DebugWire.Proofs.Number.Reading
import DebugWire.Proofs.Number.Rounding
import DebugWire.Proofs.Project.Paths
import DebugWire.Proofs.Project.Stability
import DebugWire.Proofs.Project.Stored
import DebugWire.Proofs.Prompt.Line
import DebugWire.Proofs.Script.Building
import DebugWire.Proofs.Session.Draining
import DebugWire.Proofs.Session.Encoding
import DebugWire.Proofs.Session.Noise
import DebugWire.Proofs.Session.Outcome
import DebugWire.Proofs.Session.Refinement
import DebugWire.Proofs.Session.Relaying
import DebugWire.Proofs.Session.Serving
import DebugWire.Proofs.Session.Silence
import DebugWire.Proofs.Text.Utf8
import DebugWire.Proofs.Text.Words
import DebugWire.Proofs.Tool.Init
import DebugWire.Proofs.Tool.Scripts
import DebugWire.Proofs.Wire.Canonical
import DebugWire.Proofs.Wire.Chunk
import DebugWire.Proofs.Wire.Codec
import DebugWire.Proofs.Wire.CommandChunks
import DebugWire.Proofs.Wire.CommandStream
import DebugWire.Proofs.Wire.Drain
import DebugWire.Proofs.Wire.EventStream
import DebugWire.Proofs.Wire.Extension
import DebugWire.Proofs.Wire.Fields
import DebugWire.Proofs.Wire.Fragmentation
import DebugWire.Proofs.Wire.Grammar
import DebugWire.Proofs.Wire.Lines
import DebugWire.Proofs.Wire.Noise
import DebugWire.Proofs.Wire.Printable
import DebugWire.Proofs.Wire.Tiling
import DebugWire.Script.Basic
import DebugWire.Session.Basic
import DebugWire.Session.Sink
import DebugWire.StandIn.Basic
import DebugWire.StandIn.Launch
import DebugWire.StandIn.Shell
import DebugWire.Text.Blank
import DebugWire.Text.Case
import DebugWire.Text.Units
import DebugWire.Text.Utf8
import DebugWire.Tool.Attach
import DebugWire.Tool.Basic
import DebugWire.Tool.Frames
import DebugWire.Tool.Init
import DebugWire.Tool.Problem
import DebugWire.Tool.Reach
import DebugWire.Tool.Report
import DebugWire.Tool.Scripts
import DebugWire.Wire.Chunk
import DebugWire.Wire.Command
import DebugWire.Wire.Decoding
import DebugWire.Wire.Event
import DebugWire.Wire.Key
import DebugWire.Wire.Printable
import DebugWire.Wire.Reader
import DebugWire.Wire.Register
import DebugWire.Wire.Tag
import DebugWire.Proofs.Hex.Reading
import DebugWire.Proofs.Number.Natural
import DebugWire.Proofs.Hex.Rows
