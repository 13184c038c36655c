import Logryph.Infra.GoConv
import Logryph.Infra.GoStruct
import Logryph.LedgerOk
import Logryph.Tamper
import Logryph.Rotation
import Logryph.StorageFaults
import Logryph.Start
import Logryph.Redaction
import Logryph.Buffers
import Logryph.Passive
import Logryph.PoolHistory
import Logryph.WorkerOk
import Logryph.Alone
import Logryph.Wakeup
import Logryph.Shutdown
import Logryph.Accounting
import Logryph.Fork
import Logryph.AppendLog
import Logryph.Causal
import Logryph.ReadPaths
import Logryph.TaskStates
import Logryph.Verdict
import Logryph.Latency
import Logryph.ActiveTasks
import Logryph.RingQueue
import Logryph.Policy
import Logryph.NumericConditions
import Logryph.MemberNames
import Logryph.PolicyLoad
import Logryph.Framing
import Logryph.TraceCommand
import Logryph.HtmlReport
import Logryph.Replay
import Logryph.Rekey
import Logryph.KeyCommands
import Logryph.Backups
import Logryph.PolicyWatch
import Logryph.Export
import Logryph.Health
import Logryph.Processed
import Logryph.Snapshots
import Logryph.Deletion
import Logryph.Anchors
import Logryph.Quiescence
import Logryph.VerifyCommand
import Logryph.Sessions
import Logryph.RiskOrder
