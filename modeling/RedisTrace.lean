import RedisTrace.PortRuns
import RedisTrace.AddNode
import RedisTrace.Independence
import RedisTrace.Sessions
import RedisTrace.ReportNames
import RedisTrace.Capture
import RedisTrace.BareSegments
import RedisTrace.Enumeration
import RedisTrace.NameBuffers
import RedisTrace.PayloadAccess
import RedisTrace.Elapsed
import RedisTrace.CapturedBytes
import RedisTrace.FailedInserts
import RedisTrace.EnumerationEnd
import RedisTrace.NodeLives
import RedisTrace.ListFamilies
import RedisTrace.PortUpdates
import RedisTrace.PortVHash
import RedisTrace.Callbacks
import RedisTrace.LockDiscipline
import RedisTrace.SelfAddress
import RedisTrace.NodePool
import RedisTrace.Exchanges
import RedisTrace.Traffic
import RedisTrace.SeenBytes
import RedisTrace.Output
import RedisTrace.CaptureSessions
import RedisTrace.Address
import RedisTrace.Main
import RedisTrace.TableRuns
import RedisTrace.TableLocks
import RedisTrace.HashBalance
import RedisTrace.TableWalks
import RedisTrace.OverwrittenNode
import RedisTrace.NoTable
import RedisTrace.Overflows
import RedisTrace.Restarts
import RedisTrace.Losses
import RedisTrace.Viewpoints
