import BuildServer.Word
import BuildServer.Limit
import BuildServer.Proofs.Pairs
import BuildServer.Text.Alphanumeric
import BuildServer.Text.Basic
import BuildServer.Text.Invisible
import BuildServer.Text.Quoted
import BuildServer.Text.Set
import BuildServer.Text.Utf8
import BuildServer.Proofs.Text.Basic
import BuildServer.Proofs.Text.Utf8
import BuildServer.Binary64.Basic
import BuildServer.Binary64.Rounding
import BuildServer.Binary64.Shortest
import BuildServer.Binary64.Text
import BuildServer.Proofs.Binary64.Rounding
import BuildServer.Proofs.Binary64.Shortest
import BuildServer.Proofs.Binary64.Spacing
import BuildServer.Json.Document
import BuildServer.Json.Fault
import BuildServer.Json.Lexeme
import BuildServer.Json.Number
import BuildServer.Json.Reading
import BuildServer.Json.Writing
import BuildServer.Proofs.Json.Digits
import BuildServer.Proofs.Json.Doubles
import BuildServer.Proofs.Json.Grammar
import BuildServer.Proofs.Json.Nesting
import BuildServer.Proofs.Json.Numeral
import BuildServer.Proofs.Json.Quoting
import BuildServer.Proofs.Json.RoundTrip
import BuildServer.Proofs.Json.Scaling
import BuildServer.Proofs.Json.Scanning
import BuildServer.Proofs.Json.Spelling
import BuildServer.Value.Basic
import BuildServer.Value.Codable
import BuildServer.Value.Datum
import BuildServer.Value.Equality
import BuildServer.Value.Event
import BuildServer.Value.Wire
import BuildServer.Proofs.Value.Agreement
import BuildServer.Proofs.Value.Conversion
import BuildServer.Proofs.Value.Entries
import BuildServer.Proofs.Value.Floats
import BuildServer.Proofs.Value.Identity
import BuildServer.Proofs.Value.Meaning
import BuildServer.Proofs.Value.Reading
import BuildServer.Proofs.Value.RoundTrip
import BuildServer.Schema.Basic
import BuildServer.Schema.Mismatch
import BuildServer.Schema.Record
import BuildServer.Proofs.Schema.Bridge
import BuildServer.Proofs.Schema.Record
import BuildServer.Uri
import BuildServer.Protocol.Handshake
import BuildServer.Protocol.Method
import BuildServer.Protocol.Source
import BuildServer.Protocol.Target
import BuildServer.Protocol.Watch
import BuildServer.Proofs.Protocol.Extension
import BuildServer.Proofs.Protocol.RoundTrip
import BuildServer.Rpc.Error
import BuildServer.Rpc.Message
import BuildServer.Rpc.Reply
import BuildServer.Proofs.Rpc.RoundTrip
import BuildServer.Queue.Basic
import BuildServer.Queue.Completion
import BuildServer.Queue.Workbench
import BuildServer.Proofs.Queue.Completion
import BuildServer.Proofs.Queue.ConflictOrder
import BuildServer.Proofs.Queue.Confluence
import BuildServer.Proofs.Queue.Consistency
import BuildServer.Proofs.Queue.Eager
import BuildServer.Proofs.Queue.Progress
import BuildServer.Proofs.Queue.Run
import BuildServer.Proofs.Queue.Scan
import BuildServer.Proofs.Queue.Serial
import BuildServer.Backend.Call
import BuildServer.Backend.Kind
import BuildServer.Backend.Script
import BuildServer.Session.Basic
import BuildServer.Session.Body
import BuildServer.Session.Footprint
import BuildServer.Session.Phase
import BuildServer.Session.Rehearsal
import BuildServer.Session.Serve
import BuildServer.Proofs.Session.Act
import BuildServer.Proofs.Session.Closers
import BuildServer.Proofs.Session.Closing
import BuildServer.Proofs.Session.Course
import BuildServer.Proofs.Session.Ending
import BuildServer.Proofs.Session.Exit
import BuildServer.Proofs.Session.Footprint
import BuildServer.Proofs.Session.Handshake
import BuildServer.Proofs.Session.Lifecycle
import BuildServer.Proofs.Session.Order
import BuildServer.Proofs.Session.Phase
import BuildServer.Proofs.Session.Precedence
import BuildServer.Proofs.Session.Preparation
import BuildServer.Proofs.Session.Progress
import BuildServer.Proofs.Session.Queueing
import BuildServer.Proofs.Session.Rehearsal
import BuildServer.Proofs.Session.Reply
import BuildServer.Proofs.Session.Ruling
import BuildServer.Proofs.Session.Serving
import BuildServer.Proofs.Session.Shutdown
import BuildServer.Proofs.Session.Silence
import BuildServer.Proofs.Session.Step
import BuildServer.Proofs.Session.Teardown
import BuildServer.Frame.Basic
import BuildServer.Frame.Reader
import BuildServer.Frame.Writer
import BuildServer.Proofs.Frame.Format
import BuildServer.Proofs.Frame.Reading
import BuildServer.Proofs.Frame.RoundTrip
import BuildServer.Proofs.Frame.Truncation
import BuildServer.Connection
import BuildServer.Proofs.Connection.RoundTrip
import BuildServer.Settings.Basic
import BuildServer.Settings.Text
import BuildServer.Proofs.Settings.Defaults
import BuildServer.Telemetry
