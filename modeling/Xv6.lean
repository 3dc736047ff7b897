import Xv6.LogDisk
import Xv6.LogRecovery
import Xv6.GroupCommit
import Xv6.LogReservation
import Xv6.Dinode
import Xv6.InodeTable
import Xv6.InodeTableRefs
import Xv6.InodeTableSafety
import Xv6.Ring
import Xv6.BufferCache
import Xv6.BufferRefs
import Xv6.BufferCommit
import Xv6.BufferCacheSafety
import Xv6.Prog
import Xv6.Fs
import Xv6.Dir
import Xv6.DirOps
import Xv6.Sysfile
import Xv6.BlockOwner
import Xv6.InodeBlocks
import Xv6.FsInv
import Xv6.InodeOps
import Xv6.DirWrite
import Xv6.TableOps
import Xv6.Truncate
import Xv6.DirRead
import Xv6.DirLink
import Xv6.Namex
import Xv6.Pipe
import Xv6.PipeSleepers
import Xv6.PipeFifo
import Xv6.ProcSteps
import Xv6.ProcKill
import Xv6.ProcFamily
import Xv6.ProcWait
import Xv6.SleepWakeup
import Xv6.SleepLocks
import Xv6.SleepStates
import Xv6.LostWakeup
import Xv6.SpinProgress
import Xv6.VirtioDesc
import Xv6.Holdings
import Xv6.VirtioCalls
import Xv6.VirtioSteps
import Xv6.VirtioDevice
import Xv6.VirtioSafety
import Xv6.FileTable
import Xv6.FileRefs
import Xv6.FileOps
import Xv6.FileCalls
import Xv6.Radix
import Xv6.Vm
import Xv6.VmProc
import Xv6.VmTables
import Xv6.VmOps
import Xv6.VmUnmap
import Xv6.VmSpace
import Xv6.VmUser
import Xv6.VmCopy
import Xv6.VmInv
import Xv6.VmProcOps
import Xv6.VmExec
import Xv6.VmSafety
import Xv6.VmFork
import Xv6.VmMap
import Xv6.Console
import Xv6.ConsoleLine
import Xv6.UserMem
import Xv6.PipeRead
import Xv6.FileRead
import Xv6.ProcPids
import Xv6.Printf
import Xv6.PrintfAgree
import Xv6.Sh
import Xv6.ShGrammar
import Xv6.ShLex
import Xv6.ShParse
import Xv6.ShWords
import Xv6.WordBytes
import Xv6.VmCopyin
import Xv6.Exec
import Xv6.ExecCall
import Xv6.CallFrame
import Xv6.Create
import Xv6.FailedCalls
import Xv6.LogSleepers
import Xv6.ShRun
import Xv6.ShWiring
import Xv6.ShRedirs
import Xv6.UserPrint
import Xv6.Sixfive
import Xv6.Memdump
import Xv6.Grep
import Xv6.GrepMatch
import Xv6.GrepLines
import Xv6.LinkedCycle
import Xv6.Tiling
import Xv6.Umalloc
import Xv6.UmallocHeap
import Xv6.UmallocSpec
import Xv6.UmallocRun
import Xv6.UmallocLimits
import Xv6.UmallocSizes
import Xv6.UserString
import Xv6.Find
import Xv6.FindFiles
import Xv6.PrintInt
import Xv6.Memmove
import Xv6.BufferSupply
import Xv6.FileContents
