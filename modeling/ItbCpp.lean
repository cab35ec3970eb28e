import ItbCpp.Lib.Prog
import ItbCpp.Lib.Buffer
import ItbCpp.Lib.FormUrl
import ItbCpp.Ffi
import ItbCpp.Opts
import ItbCpp.BufCall
import ItbCpp.RetryOnce
import ItbCpp.Pipeline
import ItbCpp.Constructors
import ItbCpp.Footprint
import ItbCpp.Strings
import ItbCpp.Session
import ItbCpp.Pump
import ItbCpp.Counts
import ItbCpp.Lib.Ownership
import ItbCpp.Objects
import ItbCpp.Ownership
import ItbCpp.Lib.Interleave
import ItbCpp.Stepwise
import ItbCpp.Loop.State
import ItbCpp.Loop.Threads
import ItbCpp.Loop.Discipline
import ItbCpp.Loop.Maintenance
import ItbCpp.Loop.Iteration
import ItbCpp.Loop.Startup
import ItbCpp.Loop.Isolation
import ItbCpp.Agreement
import ItbCpp.Masters
import ItbCpp.Secrets
import ItbCpp.Adversary
import ItbCpp.PumpAlloc
import ItbCpp.Lib.Protocol
import ItbCpp.Loop.Conduct
import ItbCpp.Loop.Stages
import ItbCpp.Loop.Shutdown
import ItbCpp.Loop.Progress
import ItbCpp.Loop.Accounting
import ItbCpp.Loop.Walk
import ItbCpp.Loop.Reports
import ItbCpp.Loop.Attribution
import ItbCpp.Diagnostics
import ItbCpp.Lib.CNumber
import ItbCpp.Loop.Flags
import ItbCpp.Loop.Sizes
import ItbCpp.Lib.Delimited
import ItbCpp.Loop.Records
import ItbCpp.Lib.Json
import ItbCpp.Loop.PoolFigures
import ItbCpp.Loop.Summary
import ItbCpp.Lib.Trail
import ItbCpp.Loop.Stopping
import ItbCpp.Lib.Binary64
import ItbCpp.Lib.Strtod
import ItbCpp.Loop.Durations
import ItbCpp.Loop.Delivery
import ItbCpp.Loop.Pumping
import ItbCpp.Loop.Roundtrip
import ItbCpp.Capacity
import ItbCpp.Loop.Payload
import ItbCpp.Loop.Rendering
import ItbCpp.Lib.Hex
import ItbCpp.Loop.Mismatch
import ItbCpp.Eitb
import ItbCpp.Lib.Joint
import ItbCpp.Loop.Sessions
import ItbCpp.Loop.Alarms
import ItbCpp.Loop.Steady
import ItbCpp.Loop.Custody
import ItbCpp.Lib.Early
import ItbCpp.Loop.Settings
import ItbCpp.Loop.Sanity
import ItbCpp.Loop.Launch
import ItbCpp.Eitb.Files
import ItbCpp.Eitb.Passes
import ItbCpp.Eitb.Roundtrip
import ItbCpp.Eitb.Custody
import ItbCpp.Lib.Fuel
import ItbCpp.Eitb.Endings
import ItbCpp.Eitb.Messages
