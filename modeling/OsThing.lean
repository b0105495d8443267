import OsThing.Lib.Runs
import OsThing.Lib.Halving
import OsThing.Lib.Chain
import OsThing.Mem.Alloc
import OsThing.Fs.Mount
import OsThing.Proofs.KernelHeap
import OsThing.Proofs.MountTable
import OsThing.Task.Kernel
import OsThing.Proofs.TaskQueue
import OsThing.Ipc.Message
import OsThing.Proofs.Mailboxes
import OsThing.Lib.Bytes
import OsThing.Mem.Paging
import OsThing.Proofs.Frames
import OsThing.Fs.Ramfs
import OsThing.Proofs.FileBytes
import OsThing.Fs.Vfs
import OsThing.Fs.Calls
import OsThing.Proofs.Descriptors
import OsThing.Proofs.FileCount
import OsThing.Proofs.Offsets
import OsThing.Proofs.Reading
import OsThing.Proofs.WriteBounds
import OsThing.Proofs.Lookup
import OsThing.Proofs.Rights
import OsThing.Proofs.Termination
import OsThing.Proofs.DeadTasks
import OsThing.Ipc.Preemption
import OsThing.Proofs.Preemption
import OsThing.Proofs.Waiting
import OsThing.Mem.AddressSpaces
import OsThing.Proofs.AddressSpaces
import OsThing.Fs.RamfsStore
import OsThing.Proofs.RamfsTree
import OsThing.Proofs.DirContents
import OsThing.Fs.WorkingDir
import OsThing.Proofs.WorkingDir
import OsThing.Proofs.Creation
import OsThing.Proofs.OpenFrame
import OsThing.Proofs.UniqueNames
import OsThing.Proofs.Trails
import OsThing.Proofs.MountSeen
import OsThing.Drivers.Console
import OsThing.Proofs.Console
import OsThing.Lib.RoundRobin
import OsThing.Proofs.RoundRobin
import OsThing.Proofs.SignalDir
import OsThing.Mem.Tables
import OsThing.Proofs.Isolation
import OsThing.Proofs.PageWalks
import OsThing.Lib.DirTree
import OsThing.Proofs.Resolution
import OsThing.Proofs.Confinement
import OsThing.Kern.Symbols
import OsThing.Lib.KeyedLists
import OsThing.Proofs.Symbols
import OsThing.Lib.HalvingSearch
import OsThing.User.Alloc
import OsThing.Proofs.UserHeap
import OsThing.Kern.Elf
import OsThing.Proofs.Executables
import OsThing.Mem.Kmalloc
import OsThing.Proofs.Kmalloc
import OsThing.Proofs.Undo
import OsThing.Proofs.UserGrowth
import OsThing.Proofs.OnePage
import OsThing.Proofs.PageRanges
import OsThing.Proofs.EarlyMemory
import OsThing.Proofs.Shell
import OsThing.Proofs.WakeUp
import OsThing.Mem.PageStack
import OsThing.Proofs.PageStack
import OsThing.Proofs.BootFrames
import OsThing.Mem.Ranges
import OsThing.Proofs.Ranges
import OsThing.Lib.Ram
import OsThing.Proofs.Arguments
import OsThing.Mem.Memmap
import OsThing.Proofs.DemandMapping
import OsThing.Task.Breaks
import OsThing.Proofs.Breaks
import OsThing.Kern.Loading
import OsThing.Proofs.Loading
import OsThing.Kern.Exec
import OsThing.Proofs.Exec
import OsThing.Lib.Numbering
import OsThing.Proofs.BootIdentity
import OsThing.Task.Events
import OsThing.Proofs.Events
import OsThing.Proofs.CpuTime
import OsThing.Proofs.Signals
import OsThing.Proofs.Listing
import OsThing.Kern.Syscall
import OsThing.Proofs.Syscalls
import OsThing.Lib.Ring
import OsThing.Sys.Skio
import OsThing.Proofs.InputBuffer
import OsThing.Drivers.Keyboard
import OsThing.Proofs.Keyboard
import OsThing.Fs.PathBuffers
import OsThing.Proofs.PathBuffers
import OsThing.Fs.RamfsWrites
import OsThing.Proofs.RamfsWrites
import OsThing.Fs.CutPath
import OsThing.Proofs.FailedCreation
import OsThing.Lib.NameWalk
import OsThing.Proofs.MountFree
import OsThing.Proofs.MakingFiles
import OsThing.Proofs.Links
import OsThing.Proofs.TidyPaths
import OsThing.Proofs.Kputs
import OsThing.Proofs.ShiftKeys
import OsThing.Kern.Stdio
import OsThing.Lib.Numerals
import OsThing.Proofs.Numbers
import OsThing.Proofs.Printing
import OsThing.User.Stdio
import OsThing.Kern.Strings
import OsThing.Proofs.Memmove
import OsThing.Kern.Prompt
import OsThing.Proofs.Prompt
import OsThing.Sys.Kshell
import OsThing.Proofs.ShellCommands
import OsThing.Fs.Ext2
import OsThing.Proofs.Ext2Inodes
import OsThing.Proofs.Ext2Files
import OsThing.Proofs.Scrolling
import OsThing.Proofs.SymbolBins
import OsThing.Fs.Registry
import OsThing.Proofs.Registry
import OsThing.Fs.Fat
import OsThing.Proofs.FatGeometry
import OsThing.Fs.Ext2Listing
import OsThing.Proofs.Ext2Listing
import OsThing.Tools.Mkinitrd
import OsThing.Proofs.InitrdImage
import OsThing.User.Tvi
import OsThing.Proofs.Tvi
import OsThing.Mem.HeapSearch
import OsThing.Proofs.HeapSearch
import OsThing.Lib.Stack
import OsThing.Lib.Ia32
import OsThing.Lib.Descriptors
import OsThing.Lib.Leaky
import OsThing.Kern.Stubs
import OsThing.Kern.InitTables
import OsThing.Kern.Wrappers
import OsThing.Proofs.Memcpy
import OsThing.Proofs.Interrupts
import OsThing.Proofs.InitTables
import OsThing.Proofs.SystemCalls
import OsThing.Task.UserMode
import OsThing.Proofs.UserMode
import OsThing.Task.Faults
import OsThing.Proofs.Faults
import OsThing.Ipc.Daemons
import OsThing.Proofs.Daemons
import OsThing.User.Process
import OsThing.Proofs.Process
import OsThing.Lib.LineEdit
import OsThing.Kern.Typing
import OsThing.Proofs.Typing
import OsThing.Lib.Pic
import OsThing.Kern.Irqs
import OsThing.Proofs.Irqs
import OsThing.Proofs.ShellWords
import OsThing.Lib.Paper
import OsThing.Proofs.Screen
import OsThing.Sys.FileCommands
import OsThing.Proofs.FileCommands
import OsThing.User.Cat
import OsThing.Proofs.Cat
import OsThing.User.Login
import OsThing.Proofs.Login
