import Xv6Paging.Kernel.Riscv
import Xv6Paging.Kernel.Kalloc
import Xv6Paging.Kernel.PageTable
import Xv6Paging.Kernel.Inode
import Xv6Paging.Kernel.Proc
import Xv6Paging.Kernel.Evict
import Xv6Paging.Kernel.Trap
import Xv6Paging.Kernel.Vm
import Xv6Paging.Kernel.Exec
import Xv6Paging.Kernel.System
import Xv6Paging.Kernel.Log
import Xv6Paging.Kernel.Pipe
import Xv6Paging.Lib.Words
import Xv6Paging.Lib.Machine
import Xv6Paging.Lib.Ring
import Xv6Paging.Lib.Ledger
import Xv6Paging.Lib.Latest
import Xv6Paging.Proof.PageTable
import Xv6Paging.Proof.UserMemory
import Xv6Paging.Proof.SwapFile
import Xv6Paging.Proof.Memstat
import Xv6Paging.Proof.Evict
import Xv6Paging.Proof.Replay
import Xv6Paging.Proof.SwapSteps
import Xv6Paging.Proof.Faults
import Xv6Paging.Proof.Victim
import Xv6Paging.Proof.Books
import Xv6Paging.Proof.Calls
import Xv6Paging.Proof.Steps
import Xv6Paging.Proof.Space
import Xv6Paging.Proof.Break
import Xv6Paging.Proof.Contents
import Xv6Paging.Proof.Apart
import Xv6Paging.Proof.Fifo
import Xv6Paging.Proof.Memfull
import Xv6Paging.Proof.NewImage
import Xv6Paging.Proof.Loading
import Xv6Paging.Proof.Trees
import Xv6Paging.Proof.Tables
import Xv6Paging.Proof.LogCrash
import Xv6Paging.Proof.LogSpace
import Xv6Paging.Proof.Pipes
import Xv6Paging.Proof.Bcache
import Xv6Paging.Proof.Reaping
import Xv6Paging.Lib.Refs
import Xv6Paging.Lib.Triple
import Xv6Paging.Kernel.Files
import Xv6Paging.Proof.FileRefs
import Xv6Paging.Proof.FileCalls
import Xv6Paging.Proof.FileProcs
import Xv6Paging.Proof.InodeRefs
import Xv6Paging.Proof.SwapNames
import Xv6Paging.Proof.SwapPrograms
import Xv6Paging.Proof.SwapPrivacy
import Xv6Paging.Proof.EvictFrame
import Xv6Paging.Proof.ExecImage
import Xv6Paging.Proof.ExecSafe
import Xv6Paging.Kernel.ExecFs
import Xv6Paging.Proof.ExecFails
import Xv6Paging.Proof.AllOrNothing
import Xv6Paging.Proof.SwapFull
import Xv6Paging.Proof.FaultSafe
import Xv6Paging.Proof.FaultProgress
import Xv6Paging.Proof.CopyoutStore
import Xv6Paging.Lib.Bits
import Xv6Paging.Kernel.Fs
import Xv6Paging.Lib.Owners
import Xv6Paging.Kernel.VmBonus
import Xv6Paging.Proof.CleanFifo
import Xv6Paging.Proof.LiveEntries
import Xv6Paging.Proof.CopyExact
import Xv6Paging.Proof.CopyStrings
import Xv6Paging.Proof.InodeBlocks
import Xv6Paging.Proof.BlockAlloc
import Xv6Paging.Proof.InodeBytes
import Xv6Paging.Proof.TornWrites
import Xv6Paging.Proof.Directories
import Xv6Paging.Kernel.Namei
import Xv6Paging.Proof.PathLookup
import Xv6Paging.Proof.LiveInodes
import Xv6Paging.Proof.LinkCounts
import Xv6Paging.Proof.SwapCreate
import Xv6Paging.Proof.SwapLeftovers
import Xv6Paging.User.Umalloc
import Xv6Paging.Lib.Chain
import Xv6Paging.Proof.FreeList
import Xv6Paging.Proof.PageSlices
import Xv6Paging.Proof.Malloc
import Xv6Paging.Proof.MallocRuns
import Xv6Paging.Host.Mkfs
import Xv6Paging.Proof.MkfsBlocks
import Xv6Paging.Proof.MkfsImage
import Xv6Paging.Proof.MkfsAgrees
import Xv6Paging.Kernel.Itable
import Xv6Paging.Proof.InodeOps
import Xv6Paging.Proof.InodeTable
import Xv6Paging.Proof.MkfsOverrun
import Xv6Paging.Proof.BlockOwners
import Xv6Paging.Kernel.Virtio
import Xv6Paging.Kernel.Sleep
import Xv6Paging.Proof.Virtio
import Xv6Paging.Proof.Sleep
