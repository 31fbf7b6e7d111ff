import Courier.CommandLine.Form
import Courier.CommandLine.Programs
import Courier.Endpoint.Address
import Courier.Endpoint.Dialer
import Courier.Endpoint.Network
import Courier.EventLog
import Courier.Fault.Basic
import Courier.Fault.Kind
import Courier.Fault.SystemMessage
import Courier.Files.Basic
import Courier.Files.Listing
import Courier.Files.Tree
import Courier.Files.Walk
import Courier.Journal.Basic
import Courier.Journal.Record
import Courier.Json.Text
import Courier.Json.Value
import Courier.Machine
import Courier.Main
import Courier.Number.Double
import Courier.Path
import Courier.Pool.Basic
import Courier.Pool.Schedule
import Courier.Program.Client
import Courier.Program.Daemon
import Courier.Program.Outcome
import Courier.Proofs.Accounts
import Courier.Proofs.Admission
import Courier.Proofs.Agree
import Courier.Proofs.Anchors
import Courier.Proofs.Atomic
import Courier.Proofs.Chunks
import Courier.Proofs.Clear
import Courier.Proofs.Codec
import Courier.Proofs.Confinement
import Courier.Proofs.Course
import Courier.Proofs.Crowd
import Courier.Proofs.Cutoff
import Courier.Proofs.Cuts
import Courier.Proofs.Decimal
import Courier.Proofs.Deeds
import Courier.Proofs.Delivery
import Courier.Proofs.Disclosure
import Courier.Proofs.Effects
import Courier.Proofs.Elapsed
import Courier.Proofs.EventLines
import Courier.Proofs.Exchange
import Courier.Proofs.Folders
import Courier.Proofs.Growth
import Courier.Proofs.Harmless
import Courier.Proofs.Header
import Courier.Proofs.History
import Courier.Proofs.Intact
import Courier.Proofs.Journal
import Courier.Proofs.Json
import Courier.Proofs.Layers
import Courier.Proofs.Leftovers
import Courier.Proofs.Limits
import Courier.Proofs.Lines
import Courier.Proofs.Load
import Courier.Proofs.Location
import Courier.Proofs.Lookup
import Courier.Proofs.Outcomes
import Courier.Proofs.Outside
import Courier.Proofs.Overrides
import Courier.Proofs.Pacing
import Courier.Proofs.Parents
import Courier.Proofs.Path
import Courier.Proofs.Receive
import Courier.Proofs.Receiver
import Courier.Proofs.Recognition
import Courier.Proofs.RecordLine
import Courier.Proofs.Records
import Courier.Proofs.Refusal
import Courier.Proofs.Remote
import Courier.Proofs.Renaming
import Courier.Proofs.Retries
import Courier.Proofs.RoundTrip
import Courier.Proofs.Saving
import Courier.Proofs.Segments
import Courier.Proofs.Send
import Courier.Proofs.Sender
import Courier.Proofs.Served
import Courier.Proofs.Service
import Courier.Proofs.Session
import Courier.Proofs.Sharing
import Courier.Proofs.Signals
import Courier.Proofs.Spelling
import Courier.Proofs.Staged
import Courier.Proofs.Stream
import Courier.Proofs.Surroundings
import Courier.Proofs.Tally
import Courier.Proofs.Tasks
import Courier.Proofs.Toml
import Courier.Proofs.Tree
import Courier.Proofs.Turns
import Courier.Proofs.Unaware
import Courier.Proofs.Unmixed
import Courier.Proofs.Unseen
import Courier.Proofs.Utf8
import Courier.Proofs.Wakeups
import Courier.Proofs.Walk
import Courier.Proofs.Willing
import Courier.Remote
import Courier.Session.Course
import Courier.Session.Resolve
import Courier.Session.Run
import Courier.Settings.Basic
import Courier.Settings.File
import Courier.Settings.Text
import Courier.Stream.Ambient
import Courier.Stream.Inbound
import Courier.Stream.Outbound
import Courier.Text.Blank
import Courier.Text.Decimal
import Courier.Text.Lines
import Courier.Text.Printable
import Courier.Text.Quoted
import Courier.Text.Utf8
import Courier.Time.Clock
import Courier.Time.Timestamp
import Courier.Toml.Reader
import Courier.Toml.Scalar
import Courier.Toml.Table
import Courier.Traffic.Basic
import Courier.Traffic.Service
import Courier.Transfer.Content
import Courier.Transfer.Error
import Courier.Transfer.Pace
import Courier.Transfer.Receive
import Courier.Transfer.Receiver
import Courier.Transfer.Report
import Courier.Transfer.Send
import Courier.Transfer.Sender
import Courier.Transfer.Share
import Courier.Transfer.Staged
import Courier.Wire.Header
