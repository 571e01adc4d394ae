import RustKernel.Foundations.Producer
import RustKernel.Foundations.Run
import RustKernel.Foundations.Refinement
import RustKernel.Foundations.Bytes
import RustKernel.Machine.Address
import RustKernel.Machine.Slice
import RustKernel.Paging.Mapper
import RustKernel.Paging.RadixTable
import RustKernel.Paging.StoredTable
import RustKernel.Memory.MemoryMap
import RustKernel.Memory.PageTableFrameAllocator
import RustKernel.Memory.AllocationRuns
import RustKernel.Memory.MapHandoff
import RustKernel.Memory.HandoffLosses
import RustKernel.BootImage.Format
import RustKernel.BootImage.RoundTrip
import RustKernel.Loader.ElfFile
import RustKernel.Loader.Process
import RustKernel.Loader.Growth
import RustKernel.Loader.SegmentRuns
import RustKernel.Loader.ElfLayout
import RustKernel.Loader.Setup
import RustKernel.Loader.KernelPass
import RustKernel.Loader.SegmentPass
import RustKernel.Loader.Completion
import RustKernel.Loader.CopyConfinement
import RustKernel.Loader.SegmentImage
import RustKernel.Loader.ActiveCopy
import RustKernel.Loader.SpilledCopies
import RustKernel.Loader.CopyTargets
import RustKernel.Loader.LoadedImage
import RustKernel.Loader.ZeroTail
import RustKernel.Loader.Isolation
import RustKernel.Loader.KernelAgreement
import RustKernel.Loader.Window
import RustKernel.Loader.Coverage
import RustKernel.Loader.ProcessIds
import RustKernel.Kernel.ProcessManager
import RustKernel.Kernel.Pci
import RustKernel.Foundations.Output
import RustKernel.Foundations.Ranges
import RustKernel.Iso.Entries
import RustKernel.Iso.Plan
import RustKernel.Iso.Layout
import RustKernel.Iso.Writers
import RustKernel.Iso.PathTable
import RustKernel.Foundations.NextFit
import RustKernel.Iso.Records
import RustKernel.Iso.Extents
import RustKernel.Iso.ExtentFit
import RustKernel.Iso.ExtentDecode
import RustKernel.Iso.Scan
import RustKernel.Foundations.BlockMove
import RustKernel.Machine.MemoryMove
import RustKernel.Paging.Translation
import RustKernel.Paging.Reports
import RustKernel.Kernel.MapVirt
import RustKernel.Kernel.BootWindow
import RustKernel.Kernel.MapPhys
import RustKernel.Kernel.IdentityRegion
import RustKernel.Kernel.HeapInit
import RustKernel.Foundations.Intervals
import RustKernel.Memory.AllocateSize
import RustKernel.Foundations.Recording
import RustKernel.Kernel.PciEnumeration
import RustKernel.Kernel.PciArithmetic
import RustKernel.Foundations.FileRegions
import RustKernel.Iso.Image
import RustKernel.Iso.Placement
import RustKernel.Iso.ImageContents
import RustKernel.Iso.BootChain
import RustKernel.Foundations.Placed
import RustKernel.Iso.Merge
import RustKernel.Iso.PathTableOrder
import RustKernel.Iso.PathTableRoom
import RustKernel.Iso.RecordLengths
import RustKernel.Iso.ParentRecords
import RustKernel.Foundations.LastWrite
import RustKernel.Kernel.RedirectionEntry
import RustKernel.Kernel.IoApic
import RustKernel.Machine.Stack
import RustKernel.Kernel.CpuSnapshot
import RustKernel.Kernel.BarRegisters
import RustKernel.Kernel.BarDecoding
import RustKernel.Kernel.BarProbing
import RustKernel.Foundations.Utf8
import RustKernel.Iso.NameConversion
import RustKernel.BootImage.FileNames
import RustKernel.KernelApi.WideLiteral
import RustKernel.Iso.ChsAddress
import RustKernel.Iso.RecordSizes
import RustKernel.Iso.BootPatch
import RustKernel.Iso.Places
import RustKernel.Iso.BlockArithmetic
import RustKernel.Iso.SerialNumbers
import RustKernel.Foundations.Ownership
import RustKernel.Loader.FrameOwners
import RustKernel.Kernel.AddressSpaces
import RustKernel.Loader.SettledSegments
import RustKernel.Kernel.ProcessMemory
import RustKernel.Kernel.ActiveTable
import RustKernel.Memory.Supply
import RustKernel.Kernel.UsableMemory
import RustKernel.Foundations.Cost
import RustKernel.Loader.FrameBudget
import RustKernel.Foundations.TiledFile
import RustKernel.Iso.ContinuationAreas
import RustKernel.Iso.ExtentStores
import RustKernel.Iso.ImageFront
import RustKernel.Iso.ExtentContents
import RustKernel.Iso.Mount
import RustKernel.Boot.LoaderRun
import RustKernel.Boot.Handover
import RustKernel.Kernel.HeapFrames
import RustKernel.Boot.KernelSpace
import RustKernel.Boot.Jump
import RustKernel.Memory.SortedHandoff
import RustKernel.Boot.JumpReached
import RustKernel.Boot.KernelStart
import RustKernel.Boot.BootFiles
import RustKernel.Boot.ImageInMemory
import RustKernel.Kernel.InterruptReturn
import RustKernel.Kernel.InterruptWindow
