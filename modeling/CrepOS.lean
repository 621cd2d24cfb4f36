import CrepOS.Library.Run
import CrepOS.Library.ByteMemory
import CrepOS.Library.LinkedList
import CrepOS.Library.RadixTree
import CrepOS.Library.PlacedTree
import CrepOS.Library.Ring
import CrepOS.Model.Memutils
import CrepOS.Model.Pmm
import CrepOS.Model.Vmm
import CrepOS.Model.PmmInit
import CrepOS.Model.Slab
import CrepOS.Model.Mmap
import CrepOS.Model.Msd
import CrepOS.Model.LibMap
import CrepOS.Model.LibVector
import CrepOS.Model.MapVectors
import CrepOS.Model.Fd
import CrepOS.Model.Ramfs
import CrepOS.Model.LibString
import CrepOS.Model.Vfs
import CrepOS.Model.NvmeQueue
import CrepOS.Model.Scheduler
import CrepOS.Model.Syscall
import CrepOS.Model.GsBase
import CrepOS.Interface.PageWalk
import CrepOS.Model.MmapTables
import CrepOS.Interface.PageRun
import CrepOS.Interface.KernelHalf
import CrepOS.Interface.MmapHalf
import CrepOS.Interface.SlabHeap
import CrepOS.Interface.MmapRun
import CrepOS.Interface.NvmeRun
import CrepOS.Interface.OpenFile
import CrepOS.Interface.FdRun
import CrepOS.Interface.FdBook
import CrepOS.Interface.ByteStore
import CrepOS.Interface.VfsNames
import CrepOS.Interface.VectorRun
import CrepOS.Interface.MapBindings
import CrepOS.Interface.SchedView
import CrepOS.Interface.SchedTurns
import CrepOS.Interface.SyscallRun
import CrepOS.Interface.GsRun
import CrepOS.Analysis.PmmScan
import CrepOS.Analysis.PmmExclusive
import CrepOS.Analysis.PmmManaged
import CrepOS.Analysis.MapFrames
import CrepOS.Analysis.MapPage
import CrepOS.Analysis.PageHistory
import CrepOS.Analysis.TableLayers
import CrepOS.Analysis.MapGrowth
import CrepOS.Analysis.DirectMap
import CrepOS.Analysis.KernelHalfShared
import CrepOS.Analysis.TablesKept
import CrepOS.Analysis.PageOwnership
import CrepOS.Analysis.MmapKernelHalf
import CrepOS.Analysis.DirectCover
import CrepOS.Analysis.SlabLayout
import CrepOS.Analysis.SlabInvariant
import CrepOS.Analysis.SlabAlloc
import CrepOS.Analysis.SlabFree
import CrepOS.Analysis.SlabExclusive
import CrepOS.Analysis.SlabRelease
import CrepOS.Analysis.SlabRealloc
import CrepOS.Analysis.MmapBitmap
import CrepOS.Analysis.SlabSizes
import CrepOS.Analysis.MmapDisjoint
import CrepOS.Analysis.MmapFirstFit
import CrepOS.Analysis.MsdExact
import CrepOS.Analysis.NvmePhase
import CrepOS.Analysis.FdOffset
import CrepOS.Analysis.FdIsolation
import CrepOS.Analysis.FdBookkeeping
import CrepOS.Analysis.RamfsStore
import CrepOS.Analysis.PathSplit
import CrepOS.Analysis.VfsLookup
import CrepOS.Analysis.VectorList
import CrepOS.Analysis.MapFinite
import CrepOS.Analysis.SchedExclusive
import CrepOS.Analysis.SchedOrder
import CrepOS.Analysis.SchedOvertaking
import CrepOS.Analysis.SyscallContext
import CrepOS.Analysis.StoredContexts
import CrepOS.Analysis.SwapgsDiscipline
import CrepOS.Model.Pci
import CrepOS.Interface.PciTree
import CrepOS.Analysis.PciScan
import CrepOS.Model.Tty
import CrepOS.Interface.Terminal
import CrepOS.Analysis.TtyTerminal
import CrepOS.Model.Smp
import CrepOS.Interface.SmpRun
import CrepOS.Analysis.SmpCores
import CrepOS.Interface.PmmFit
import CrepOS.Analysis.PmmFirstFit
import CrepOS.Library.BitCount
import CrepOS.Library.Ranges
import CrepOS.Analysis.PmmAccounts
import CrepOS.Analysis.PmmMetadata
import CrepOS.Interface.SlabCalls
import CrepOS.Analysis.SlabLists
import CrepOS.Analysis.SlabCounts
import CrepOS.Library.RouteLook
import CrepOS.Interface.TwinTables
import CrepOS.Analysis.TableFound
import CrepOS.Analysis.TwinTables
import CrepOS.Library.ByteBuffers
import CrepOS.Model.Ext2
import CrepOS.Interface.Ext2Tree
import CrepOS.Analysis.Ext2Inode
import CrepOS.Analysis.Ext2Lookup
import CrepOS.Interface.Ext2Run
import CrepOS.Analysis.Ext2Quiet
import CrepOS.Interface.Ext2Groups
import CrepOS.Analysis.Ext2Alloc
import CrepOS.Analysis.Ext2Free
import CrepOS.Interface.Ext2BlockMap
import CrepOS.Analysis.Ext2BlockMap
import CrepOS.Analysis.Ext2SetBlock
import CrepOS.Interface.MmapBits
import CrepOS.Analysis.MmapBounds
import CrepOS.Interface.MmapGrowth
import CrepOS.Analysis.MmapTermination
import CrepOS.Model.Munmap
import CrepOS.Interface.MunmapPages
import CrepOS.Analysis.MunmapPages
import CrepOS.Analysis.MunmapExact
import CrepOS.Analysis.SchedConserving
import CrepOS.Interface.ErrnoRun
import CrepOS.Analysis.ErrnoThread
import CrepOS.Model.UserStack
import CrepOS.Interface.UserStack
import CrepOS.Analysis.UserStack
import CrepOS.Model.VfsRemove
import CrepOS.Analysis.VfsRemove
import CrepOS.Model.Acpi
import CrepOS.Interface.AcpiTables
import CrepOS.Analysis.MadtScan
import CrepOS.Model.Ioapic
import CrepOS.Interface.IoapicRanges
import CrepOS.Analysis.IoapicMask
import CrepOS.Model.TtyPixels
import CrepOS.Analysis.GlyphCells
import CrepOS.Analysis.Ext2Resize
import CrepOS.Analysis.PciBars
import CrepOS.Model.Ahci
import CrepOS.Interface.AhciCommand
import CrepOS.Analysis.AhciEncoding
import CrepOS.Model.NvmeMsd
import CrepOS.Analysis.NvmeRouting
import CrepOS.Analysis.PathTokens
import CrepOS.Model.Partitions
import CrepOS.Interface.PartitionTables
import CrepOS.Analysis.PartitionScan
import CrepOS.Model.VfsMount
import CrepOS.Interface.MountedTree
import CrepOS.Analysis.VfsMount
import CrepOS.Model.Elf
import CrepOS.Model.SchedTask
import CrepOS.Interface.StartFailure
import CrepOS.Analysis.StartFailure
import CrepOS.Interface.DirInsertion
import CrepOS.Analysis.DirSearch
import CrepOS.Analysis.DirInsertion
import CrepOS.Interface.FreeCounts
import CrepOS.Analysis.FreeCounts
import CrepOS.Analysis.Powers
import CrepOS.Analysis.DescriptorTable
import CrepOS.Analysis.SlabMoves
import CrepOS.Analysis.SdtTables
import CrepOS.Analysis.Numerals
import CrepOS.Analysis.DoubleBuffering
import CrepOS.Analysis.RefreshCalls
import CrepOS.Analysis.DirWalks
import CrepOS.Analysis.StringRuns
import CrepOS.Analysis.PmmLock
import CrepOS.Analysis.SchedWaiting
import CrepOS.Analysis.Ext2Calls
import CrepOS.Interface.ElfImage
import CrepOS.Analysis.ElfImage
