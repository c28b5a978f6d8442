import AnotherPs4.Bin.GuestThread
import AnotherPs4.Bin.PatchedData
import AnotherPs4.Bin.Syscalls
import AnotherPs4.Common.Alignment
import AnotherPs4.Congruential.Period
import AnotherPs4.Formats.Psf
import AnotherPs4.Formats.PsfFormat
import AnotherPs4.Formats.PsfRoundTrip
import AnotherPs4.Gpu.CommandProcessor
import AnotherPs4.Gpu.PacketStream
import AnotherPs4.Gpu.Walk
import AnotherPs4.Hle.DirectAgreement
import AnotherPs4.Hle.DirectMemory
import AnotherPs4.Hle.Dispatcher
import AnotherPs4.Hle.ExportEffects
import AnotherPs4.Hle.ExportRuns
import AnotherPs4.Hle.Gnm
import AnotherPs4.Hle.Guards
import AnotherPs4.Hle.GuestCalls
import AnotherPs4.Hle.Libc
import AnotherPs4.Hle.Libraries
import AnotherPs4.Hle.Recovery
import AnotherPs4.Hle.Stdio
import AnotherPs4.Hle.StubRuns
import AnotherPs4.Hle.Stubs
import AnotherPs4.Hle.ThreadCreate
import AnotherPs4.Hle.ThreadFs
import AnotherPs4.Hle.WholeItems
import AnotherPs4.Kernel.EventQueue
import AnotherPs4.Kernel.MemorySyscalls
import AnotherPs4.Kernel.MountOrder
import AnotherPs4.Linker.Bounds
import AnotherPs4.Linker.CodePatches
import AnotherPs4.Linker.DamagedImages
import AnotherPs4.Linker.Definitions
import AnotherPs4.Linker.DynlibLimits
import AnotherPs4.Linker.Imports
import AnotherPs4.Linker.Linker
import AnotherPs4.Linker.LoadBias
import AnotherPs4.Linker.Loading
import AnotherPs4.Linker.Module
import AnotherPs4.Linker.Order
import AnotherPs4.Linker.Segments
import AnotherPs4.Linker.TableEncoding
import AnotherPs4.Linker.TlsIndices
import AnotherPs4.Loader.Dynamic
import AnotherPs4.Loader.Elf
import AnotherPs4.Loader.Opened
import AnotherPs4.Loader.RoundTrip
import AnotherPs4.Loader.SegmentData
import AnotherPs4.Loader.Symbols
import AnotherPs4.Loader.Wrapping
import AnotherPs4.Memory.Calls
import AnotherPs4.Memory.FirstRoom
import AnotherPs4.Memory.Flexible
import AnotherPs4.Memory.Fragmentation
import AnotherPs4.Memory.GpuMapping
import AnotherPs4.Memory.Merging
import AnotherPs4.Memory.Ownership
import AnotherPs4.Memory.PhysicalRuns
import AnotherPs4.Memory.Placement
import AnotherPs4.Memory.Protection
import AnotherPs4.Memory.Releases
import AnotherPs4.Memory.UserRegion
import AnotherPs4.Memory.VirtualRuns
import AnotherPs4.Rust.Cursor
import AnotherPs4.Rust.Path
