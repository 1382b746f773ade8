import GroundDB.HashMap.Chains
import GroundDB.HashMap.FindLowerBound
import GroundDB.HashMap.VacuumScan
import GroundDB.LogIndex.Indexing
import GroundDB.MemPool.Capacity
import GroundDB.MemPool.Handlers
import GroundDB.MemPool.PageIdTable
import GroundDB.MemPool.PointerPool
import GroundDB.MemPool.ThreadPool
import GroundDB.PageStore.FlushTarget
import GroundDB.PageStore.HeadLock
import GroundDB.PageStore.PageKeys
import GroundDB.PageStore.Recreate
import GroundDB.PageStore.VersionKeys
import GroundDB.Rdma.BatchPolling
import GroundDB.Rdma.Slots
import GroundDB.Rdma.SocketExchange
import GroundDB.Redo.GenericXLog
import GroundDB.Redo.ReplicaPins
import GroundDB.RelSize.Replica
import GroundDB.RelSize.Requests
import GroundDB.Wal.RemoteRead
import GroundDB.Wal.Ship
import GroundDB.Wal.WaitParse
import GroundDB.Wal.WakeupDeadline
import GroundDB.Wal.WriteGroups
import GroundDB.Worker.Protocol
import GroundDB.Worker.Stateless
