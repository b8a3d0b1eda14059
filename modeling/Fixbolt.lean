import Fixbolt.Codec.Parse
import Fixbolt.Codec.Template
import Fixbolt.Codec.Timestamp
import Fixbolt.Dict.Tables
import Fixbolt.Session.Machine
import Fixbolt.Codec.Group
import Fixbolt.Session.Ledger
import Fixbolt.Session.Refine
import Fixbolt.Properties.Setting
import Fixbolt.Properties.Count
import Fixbolt.Properties.Outbound
import Fixbolt.Properties.Delivery
import Fixbolt.Lib.Slots
import Fixbolt.Properties.Gap
import Fixbolt.Properties.Queue
import Fixbolt.Properties.Parting
import Fixbolt.Properties.Replay
import Fixbolt.Engine.Journal
import Fixbolt.Session.Errands
import Fixbolt.Properties.Recovery
import Fixbolt.Lib.Tiling
import Fixbolt.Session.Resend
import Fixbolt.Properties.Tiling
import Fixbolt.Properties.Current
import Fixbolt.Session.Arithmetic
import Fixbolt.Properties.Range
import Fixbolt.Lib.Streaming
import Fixbolt.Codec.Wire
import Fixbolt.Codec.Framed
import Fixbolt.Codec.Encode
import Fixbolt.Codec.Layout
import Fixbolt.Codec.Readback
import Fixbolt.Codec.Pairing
import Fixbolt.Properties.Encoding
import Fixbolt.Properties.Window
import Fixbolt.Lib.Fifo
import Fixbolt.Lib.LittleEndian
import Fixbolt.Engine.Framer
import Fixbolt.Engine.Connection
import Fixbolt.Engine.Retire
import Fixbolt.Engine.Ring
import Fixbolt.Engine.Dispatch
import Fixbolt.Engine.Redact
import Fixbolt.Engine.FileJournal
import Fixbolt.Properties.Dispatch
import Fixbolt.Properties.Redaction
import Fixbolt.Properties.Reopen
import Fixbolt.Properties.Retire
import Fixbolt.Properties.Cutting
import Fixbolt.Properties.Connection
import Fixbolt.Properties.Ring
import Fixbolt.Properties.Framing
import Fixbolt.Sbe.Wire
import Fixbolt.Sbe.Group
import Fixbolt.Properties.Measuring
import Fixbolt.Engine.Presession
import Fixbolt.Properties.Scanning
import Fixbolt.Engine.Events
import Fixbolt.Properties.Draining
import Fixbolt.Engine.SqliteJournal
import Fixbolt.Properties.Restart
import Fixbolt.Lib.Sweep
import Fixbolt.Engine.Engine
import Fixbolt.Properties.LoggingOn
import Fixbolt.Properties.Identity
import Fixbolt.Properties.Stopping
import Fixbolt.Lib.Recurrence
import Fixbolt.Session.Timing
import Fixbolt.Properties.Schedule
import Fixbolt.Codec.Fitting
import Fixbolt.Session.Saying
import Fixbolt.Session.Speech
import Fixbolt.Properties.Speaking
import Fixbolt.Properties.Heartbeat
import Fixbolt.Lib.Calendar
import Fixbolt.Lib.Digits
import Fixbolt.Codec.TimestampCache
import Fixbolt.Properties.Timestamps
import Fixbolt.Properties.Deferral
import Fixbolt.Codec.Regions
import Fixbolt.Properties.Grouping
import Fixbolt.Session.Adding
import Fixbolt.Session.Spending
import Fixbolt.Properties.Refusing
import Fixbolt.Properties.Answering
import Fixbolt.Engine.Reconnect
import Fixbolt.Properties.Backoff
import Fixbolt.Codec.Decimal
import Fixbolt.Properties.Decimals
import Fixbolt.Engine.JournalReader
import Fixbolt.Properties.Readers
import Fixbolt.Engine.Orders
import Fixbolt.Properties.Ordering
import Fixbolt.Properties.Walking
import Fixbolt.Engine.Dialing
import Fixbolt.Properties.Redialing
import Fixbolt.Engine.MessageLog
import Fixbolt.Properties.Logging
import Fixbolt.Engine.Pumping
import Fixbolt.Properties.Admitting
import Fixbolt.Lib.Writing
import Fixbolt.Sbe.Encode
import Fixbolt.Properties.Templating
import Fixbolt.Lib.Trapping
import Fixbolt.Codec.Offsets
import Fixbolt.Properties.Panicking
import Fixbolt.Lib.Stepping
import Fixbolt.Engine.Observe
import Fixbolt.Properties.Observing
import Fixbolt.Engine.Waker
import Fixbolt.Properties.Waking
import Fixbolt.Engine.Shard
import Fixbolt.Properties.Routing
import Fixbolt.Codec.Integer
import Fixbolt.Properties.Agreeing
import Fixbolt.Lib.Exposition
import Fixbolt.Metrics.Series
import Fixbolt.Metrics.Encode
import Fixbolt.Properties.Printing
import Fixbolt.Properties.Scraping
import Fixbolt.Engine.Accounts
import Fixbolt.Properties.Accounting
import Fixbolt.Properties.Grammar
import Fixbolt.Properties.Closures
import Fixbolt.Properties.Silence
