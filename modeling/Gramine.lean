import Gramine.Common.X86Cpu
import Gramine.Common.Errno
import Gramine.Library.OptionList
import Gramine.Pal.Error
import Gramine.Pal.LinuxSgx.Exception
import Gramine.Pal.LinuxSgx.DirRead
import Gramine.Pal.LinuxSgx.Topology
import Gramine.Pal.LinuxSgx.TrustedFiles
import Gramine.Pal.LinuxSgx.HandlePassing
import Gramine.LibOS.Fs.Sys
import Gramine.Library.IntervalList
import Gramine.LibOS.Bookkeep.Vma
import Gramine.LibOS.Bookkeep.VmaSteps
import Gramine.LibOS.Bookkeep.VmaInvariant
import Gramine.LibOS.Bookkeep.VmaCalls
import Gramine.LibOS.Bookkeep.VmaRun
import Gramine.LibOS.Bookkeep.VmaPageMap
import Gramine.LibOS.Bookkeep.VmaFailure
import Gramine.LibOS.Bookkeep.VmaPlacement
import Gramine.LibOS.Bookkeep.VmaUserRange
import Gramine.LibOS.Bookkeep.UserMemory
import Gramine.Library.FileBytes
import Gramine.LibOS.Fs.MemFile
import Gramine.Library.Doubling
import Gramine.LibOS.Bookkeep.HandleMap
import Gramine.LibOS.Bookkeep.FdTable
import Gramine.Pal.Memory
import Gramine.Common.ProtectedFiles.NodeCache
import Gramine.Library.GroupedLayout
import Gramine.Common.ProtectedFiles.NodeLayout
import Gramine.Library.SortedRange
import Gramine.Common.ProtectedFiles.SortNodes
import Gramine.Common.SlabMgr
import Gramine.LibOS.Fs.FileLock
import Gramine.LibOS.Fs.FileLockPosix
import Gramine.LibOS.Fs.FileLockInvariant
import Gramine.LibOS.Fs.FileLockMap
import Gramine.LibOS.Sys.Fcntl
import Gramine.Pal.VirtualMemory
import Gramine.LibOS.Sys.Brk
import Gramine.Common.MemMgr
import Gramine.LibOS.Lock
import Gramine.LibOS.Sys.Wait
import Gramine.Library.ByteCopy
import Gramine.Pal.LinuxSgx.UntrustedCopy
import Gramine.Pal.LinuxSgx.FileLookup
import Gramine.Pal.LinuxSgx.Edmm
import Gramine.Pal.LinuxSgx.Ocalls
import Gramine.Pal.LinuxSgx.OcallsConfined
import Gramine.Library.Interleaving
import Gramine.Library.Fairness
import Gramine.LibOS.Rwlock
import Gramine.LibOS.RwlockInvariant
import Gramine.LibOS.RwlockProgress
import Gramine.LibOS.RwlockLiveness
import Gramine.LibOS.Sys.Futex
import Gramine.LibOS.Sys.FutexWakeup
import Gramine.LibOS.Sys.FutexRequeue
import Gramine.LibOS.Bookkeep.SignalQueue
import Gramine.LibOS.Bookkeep.SignalDelivery
import Gramine.Library.ChunkedStream
import Gramine.Library.LittleEndian
import Gramine.LibOS.Ipc.Receive
import Gramine.LibOS.Ipc.Response
import Gramine.LibOS.Sys.Recvmsg
import Gramine.Library.BitMask
import Gramine.LibOS.Sys.Poll
import Gramine.Common.Strtol
import Gramine.Pal.EtcHostInfo
import Gramine.Common.Printf
import Gramine.Common.PathUtils
import Gramine.LibOS.Fs.SysPrint
import Gramine.Library.SearchTree
import Gramine.LibOS.Ipc.IdRanges
import Gramine.Library.Stored
import Gramine.LibOS.InitStack
import Gramine.LibOS.Rtld
import Gramine.LibOS.Fs.Eventfd
import Gramine.LibOS.Sys.Epoll
import Gramine.Library.TaggedWord
import Gramine.LibOS.Bookkeep.VmaCache
import Gramine.Library.TreeZipper
import Gramine.Common.AvlTree.Walk
import Gramine.Common.AvlTree.Rebalance
import Gramine.Common.AvlTree.History
import Gramine.Common.AvlTree.Balance
