import UDos.Library.Outcome
import UDos.Library.Runs
import UDos.Library.Rotation
import UDos.Library.Storage
import UDos.Library.FirstMatch
import UDos.Library.Buffer
import UDos.Kernel.Printf
import UDos.Kernel.User
import UDos.Kernel.Scheduler
import UDos.Kernel.Cpu
import UDos.Kernel.Memory
import UDos.Kernel.Mm
import UDos.Kernel.FsHandle
import UDos.Kernel.FsTree
import UDos.Kernel.FsGrowth
import UDos.Kernel.FsCreate
import UDos.Kernel.Svc
import UDos.Rtl.Services
import UDos.Library.Segment
import UDos.Library.Extents
import UDos.Kernel.Pmm
import UDos.Kernel.PmmHeap
import UDos.Kernel.PmmAllocate
import UDos.Kernel.PmmRelease
import UDos.Kernel.PmmRuns
import UDos.Kernel.PmmCoalesce
import UDos.Kernel.PmmAligned
import UDos.Library.Words
import UDos.Library.Traced
import UDos.Kernel.Crypto
import UDos.Tools.Raw2mod
import UDos.Kernel.Exec
import UDos.Kernel.ExecSections
import UDos.Library.Heap
import UDos.Library.Arena
import UDos.Kernel.MmHeap
import UDos.Kernel.Registry
import UDos.Kernel.RegistryPath
import UDos.Kernel.SchedulerTables
import UDos.Kernel.SchedulerCounts
import UDos.Kernel.FsDrivers
import UDos.Kernel.Irq
import UDos.Library.Owners
import UDos.Kernel.Css
import UDos.Kernel.CssClients
import UDos.Kernel.CssOperations
import UDos.Library.CopyOrder
import UDos.Kernel.Move
import UDos.Kernel.Strings
import UDos.Rtl.Memory
import UDos.Kernel.Reallocate
import UDos.Kernel.PrintfMeaning
import UDos.Kernel.PrintfParse
import UDos.Kernel.FsWalk
import UDos.Library.Descent
import UDos.Kernel.FsPaths
import UDos.Kernel.FsSeparators
import UDos.Kernel.FsIndexing
import UDos.Kernel.FsRetarget
import UDos.Kernel.FsFile
import UDos.Kernel.FsSession
import UDos.Library.Assignments
import UDos.Kernel.FsOwners
import UDos.Kernel.SchedulerRuns
import UDos.Kernel.Hdebug
import UDos.Kernel.DevTerm
import UDos.Kernel.CssQueue
import UDos.Kernel.DevDisk
import UDos.Kernel.RegistryDestroy
import UDos.Kernel.RegistryReads
import UDos.Kernel.Tables
import UDos.Kernel.ThreadStack
import UDos.Library.Recorded
import UDos.Kernel.IrqHandlers
import UDos.Kernel.IrqFree
import UDos.Kernel.IrqDestroy
import UDos.Kernel.SvcStorage
import UDos.Rtl.Stubs
import UDos.Rtl.List
import UDos.Kernel.Zdsfs
import UDos.Library.Loops
import UDos.Kernel.ZdsfsScan
import UDos.Kernel.Debug
import UDos.Kernel.StringSearch
import UDos.Kernel.PmmRegions
import UDos.Kernel.Tokens
import UDos.Kernel.MmArrays
import UDos.Library.Patches
import UDos.Library.RoundRobin
import UDos.Programs.Loadzero
import UDos.Programs.LoadModule
import UDos.Programs.LoadInPlace
import UDos.Programs.LoadRelocation
import UDos.Programs.LoadEncoding
import UDos.Kernel.SchedulerQueues
import UDos.Kernel.SchedulerContexts
import UDos.Kernel.Handlers
import UDos.Kernel.Boot
import UDos.Kernel.StringBuild
import UDos.Kernel.Print
import UDos.Kernel.FsStreams
import UDos.Kernel.Probe
import UDos.Kernel.MmOnPmm
import UDos.Kernel.PmmAdjacent
import UDos.Kernel.CryptoBlocks
