import MyTeam.Agent.History
import MyTeam.Agent.Memory
import MyTeam.Async.Coroutine
import MyTeam.Async.Course
import MyTeam.Async.EventLoop
import MyTeam.Async.Generator
import MyTeam.Async.Semaphore
import MyTeam.Async.Transition
import MyTeam.Bash.Deadlines
import MyTeam.Bash.Device
import MyTeam.Bash.Discipline
import MyTeam.Bash.Extensions
import MyTeam.Bash.Ledger
import MyTeam.Bash.Life
import MyTeam.Bash.Output
import MyTeam.Bash.Pool
import MyTeam.Bash.Reading
import MyTeam.Bash.Results
import MyTeam.Bash.States
import MyTeam.Dispatch.BucketDispatcher
import MyTeam.Dispatch.Progress
import MyTeam.Dispatch.Safety
import MyTeam.Dispatch.Workers
import MyTeam.Kernel.Acts
import MyTeam.Kernel.AgentOS
import MyTeam.Kernel.Atomicity
import MyTeam.Kernel.Audit
import MyTeam.Kernel.Authentication
import MyTeam.Kernel.Authority
import MyTeam.Kernel.Buckets
import MyTeam.Kernel.Commands
import MyTeam.Kernel.Course
import MyTeam.Kernel.Effects
import MyTeam.Kernel.Environment
import MyTeam.Kernel.EventValidator
import MyTeam.Kernel.Grants
import MyTeam.Kernel.Homes
import MyTeam.Kernel.Instances
import MyTeam.Kernel.Journal
import MyTeam.Kernel.Ledger
import MyTeam.Kernel.Lifecycle
import MyTeam.Kernel.Plans
import MyTeam.Kernel.Process
import MyTeam.Kernel.Processing
import MyTeam.Kernel.Protocol
import MyTeam.Kernel.Raising
import MyTeam.Kernel.Reader
import MyTeam.Kernel.Recollection
import MyTeam.Kernel.Reinstall
import MyTeam.Kernel.Requests
import MyTeam.Kernel.Retirement
import MyTeam.Kernel.Robustness
import MyTeam.Kernel.Routing
import MyTeam.Kernel.Runs
import MyTeam.Kernel.Sandbox
import MyTeam.Kernel.Segments
import MyTeam.Kernel.Tables
import MyTeam.Kernel.Traffic
import MyTeam.Kernel.Uninstall
import MyTeam.Kernel.Wiring
import MyTeam.Legacy.Advances
import MyTeam.Legacy.Agent
import MyTeam.Legacy.AgentTools
import MyTeam.Legacy.AgentTree
import MyTeam.Legacy.Authority
import MyTeam.Legacy.Budget
import MyTeam.Legacy.Calendar
import MyTeam.Legacy.CalendarRuns
import MyTeam.Legacy.Cascade
import MyTeam.Legacy.Commit
import MyTeam.Legacy.Concurrency
import MyTeam.Legacy.ContextCompiler
import MyTeam.Legacy.ContextOrder
import MyTeam.Legacy.Cron
import MyTeam.Legacy.Expiry
import MyTeam.Legacy.Fencing
import MyTeam.Legacy.Files
import MyTeam.Legacy.Finality
import MyTeam.Legacy.Fold
import MyTeam.Legacy.Groups
import MyTeam.Legacy.Groupwise
import MyTeam.Legacy.Ingress
import MyTeam.Legacy.Injection
import MyTeam.Legacy.Intake
import MyTeam.Legacy.Integrations
import MyTeam.Legacy.Inverses
import MyTeam.Legacy.Settling
import MyTeam.Legacy.Leases
import MyTeam.Legacy.Mail
import MyTeam.Legacy.Mailboxes
import MyTeam.Legacy.Memory
import MyTeam.Legacy.MemoryStore
import MyTeam.Legacy.Occurrences
import MyTeam.Legacy.OrgEdges
import MyTeam.Legacy.OrgGraph
import MyTeam.Legacy.OrgMemory
import MyTeam.Legacy.OrgReplace
import MyTeam.Legacy.OrgRuns
import MyTeam.Legacy.OrgStructure
import MyTeam.Legacy.Outbox
import MyTeam.Legacy.OwnWrites
import MyTeam.Legacy.Patch
import MyTeam.Legacy.PatchApply
import MyTeam.Legacy.PatchScript
import MyTeam.Legacy.PatchStrict
import MyTeam.Legacy.PendingOps
import MyTeam.Legacy.Persistence
import MyTeam.Legacy.Positions
import MyTeam.Legacy.Predicate
import MyTeam.Legacy.PredicateCanon
import MyTeam.Legacy.PredicateForm
import MyTeam.Legacy.PredicateGate
import MyTeam.Legacy.PredicateGrammar
import MyTeam.Legacy.PredicateKeys
import MyTeam.Legacy.PredicateMembership
import MyTeam.Legacy.PredicateParse
import MyTeam.Legacy.PredicatePrint
import MyTeam.Legacy.PredicateText
import MyTeam.Legacy.PrivateOverlay
import MyTeam.Legacy.Quotas
import MyTeam.Legacy.Recall
import MyTeam.Legacy.RecallSync
import MyTeam.Legacy.Records
import MyTeam.Legacy.Replay
import MyTeam.Legacy.Resolution
import MyTeam.Legacy.Restarts
import MyTeam.Legacy.Rounds
import MyTeam.Legacy.Rulings
import MyTeam.Legacy.Scheduler
import MyTeam.Legacy.SeenRequests
import MyTeam.Legacy.SharedKB
import MyTeam.Legacy.Slots
import MyTeam.Legacy.TaskForest
import MyTeam.Legacy.Tasks
import MyTeam.Legacy.Tick
import MyTeam.Legacy.Transaction
import MyTeam.Legacy.TransactionBuffer
import MyTeam.Legacy.Turns
import MyTeam.Legacy.Undo.Entries
import MyTeam.Legacy.Undo.Files
import MyTeam.Legacy.Undo.Records
import MyTeam.Legacy.Undo.Tasks
import MyTeam.Legacy.Undo.Worlds
import MyTeam.Legacy.Versions
import MyTeam.Legacy.Waiting
import MyTeam.Legacy.Wakeups
import MyTeam.Legacy.Winners
import MyTeam.Llm.CacheMarks
import MyTeam.Llm.ChatPayload
import MyTeam.Llm.Device
import MyTeam.Llm.Envelope
import MyTeam.Llm.Messages
import MyTeam.Llm.MessagesPayload
import MyTeam.Llm.MessagesStream
import MyTeam.Llm.Parsers
import MyTeam.Llm.Parsing
import MyTeam.Llm.Reading
import MyTeam.Llm.Stream
import MyTeam.Llm.Transcript
import MyTeam.Order.Forest
import MyTeam.Order.Gapless
import MyTeam.Order.Search
import MyTeam.Order.Stable
import MyTeam.Py.Buckets
import MyTeam.Py.Decimal
import MyTeam.Py.Dict
import MyTeam.Py.Digits
import MyTeam.Py.Double
import MyTeam.Py.Format
import MyTeam.Py.Gather
import MyTeam.Py.Json
import MyTeam.Py.Lines
import MyTeam.Py.Number
import MyTeam.Py.Path
import MyTeam.Py.Utf8
import MyTeam.Py.Value
import MyTeam.Undo.Removal
import MyTeam.Undo.Stores
