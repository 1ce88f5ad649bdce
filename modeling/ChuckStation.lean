import ChuckStation.Alignment
import ChuckStation.AssociationLists
import ChuckStation.AudioRing
import ChuckStation.BinaryFormats
import ChuckStation.BinarySearch
import ChuckStation.BoundedLogs
import ChuckStation.Buckets
import ChuckStation.BytePatches
import ChuckStation.ByteStreams
import ChuckStation.Bytes
import ChuckStation.CircularBuffers
import ChuckStation.CommandCodec
import ChuckStation.CommandLists
import ChuckStation.CommandProcessor
import ChuckStation.CommandTruncation
import ChuckStation.ConcatenatedTables
import ChuckStation.ConditionVariables
import ChuckStation.Config
import ChuckStation.CpuAddSub
import ChuckStation.CpuAddresses
import ChuckStation.CpuArithmetic
import ChuckStation.CpuBreakpoints
import ChuckStation.CpuCallStack
import ChuckStation.CpuCodeBytes
import ChuckStation.CpuCodeReads
import ChuckStation.CpuConditions
import ChuckStation.CpuConfinement
import ChuckStation.CpuContext
import ChuckStation.CpuDecode
import ChuckStation.CpuDisassembly
import ChuckStation.CpuDivision
import ChuckStation.CpuEffects
import ChuckStation.CpuEncodings
import ChuckStation.CpuExec
import ChuckStation.CpuFaults
import ChuckStation.CpuFetch
import ChuckStation.CpuFlagValues
import ChuckStation.CpuFlags
import ChuckStation.CpuGuestPrograms
import ChuckStation.CpuInstructions
import ChuckStation.CpuIsolation
import ChuckStation.CpuMultiplication
import ChuckStation.CpuNarrowWords
import ChuckStation.CpuOperandSize
import ChuckStation.CpuPrograms
import ChuckStation.CpuPushPop
import ChuckStation.CpuReports
import ChuckStation.CpuRun
import ChuckStation.CpuShifts
import ChuckStation.CpuSpecs
import ChuckStation.CpuStatistics
import ChuckStation.CpuStep
import ChuckStation.CpuStream
import ChuckStation.CycleSearch
import ChuckStation.DebuggerBreakpoints
import ChuckStation.DebuggerObjects
import ChuckStation.DependencyOrder
import ChuckStation.DoubleWords
import ChuckStation.DynamicLinker
import ChuckStation.ElfImage
import ChuckStation.EventBrowser
import ChuckStation.EventHandlers
import ChuckStation.EventHistory
import ChuckStation.EventRing
import ChuckStation.Execution
import ChuckStation.ExecutionAgreement
import ChuckStation.ExitReports
import ChuckStation.Filesystem
import ChuckStation.FilesystemFlags
import ChuckStation.FilesystemOps
import ChuckStation.FilesystemPaths
import ChuckStation.FilesystemReadOnly
import ChuckStation.FilesystemSandbox
import ChuckStation.FilesystemStreams
import ChuckStation.GpuDestroyedFences
import ChuckStation.GpuFences
import ChuckStation.GpuHeap
import ChuckStation.HandleAliases
import ChuckStation.HandleCounters
import ChuckStation.HostPath
import ChuckStation.HostTree
import ChuckStation.ImageReleases
import ChuckStation.InputMapping
import ChuckStation.InputProfiles
import ChuckStation.InputStreams
import ChuckStation.IpcChannels
import ChuckStation.IpcPorts
import ChuckStation.KernelHandles
import ChuckStation.KernelObjects
import ChuckStation.KernelTimers
import ChuckStation.KernelWakeups
import ChuckStation.LinkerRelocations
import ChuckStation.LoaderBounds
import ChuckStation.LoaderEffects
import ChuckStation.LoaderFailure
import ChuckStation.LoaderLayout
import ChuckStation.LoaderMap
import ChuckStation.LoaderPaths
import ChuckStation.LoaderRanges
import ChuckStation.LoaderWrites
import ChuckStation.MachineTriples
import ChuckStation.MemoryAccounting
import ChuckStation.MemoryManager
import ChuckStation.MemoryMirror
import ChuckStation.MemoryOutcomes
import ChuckStation.MemoryProtection
import ChuckStation.MemoryReleases
import ChuckStation.MemoryStatistics
import ChuckStation.MemoryTable
import ChuckStation.MemoryWindows
import ChuckStation.MessageQueue
import ChuckStation.MessageQueueWakeups
import ChuckStation.Metrics
import ChuckStation.MetricsConcurrent
import ChuckStation.ModuleRegistry
import ChuckStation.ModuleRelocations
import ChuckStation.Monitor
import ChuckStation.MonitorTokens
import ChuckStation.MonitorWakeups
import ChuckStation.NumberTexts
import ChuckStation.NumberedLists
import ChuckStation.Observations
import ChuckStation.OperationResults
import ChuckStation.OperationRuns
import ChuckStation.OrderedMaps
import ChuckStation.ParamSfo
import ChuckStation.PathGrammar
import ChuckStation.ProcessLocks
import ChuckStation.ProcessManager
import ChuckStation.ProgramBreak
import ChuckStation.ReflectedCrc
import ChuckStation.RegistryCounts
import ChuckStation.RegistryRuns
import ChuckStation.ReleaseLedger
import ChuckStation.RelocationBounds
import ChuckStation.RelocationNarrowing
import ChuckStation.RelocationTwice
import ChuckStation.RelocationValues
import ChuckStation.RuntimeAlternation
import ChuckStation.RuntimeEvents
import ChuckStation.RuntimeInit
import ChuckStation.RuntimeManager
import ChuckStation.RuntimeRuns
import ChuckStation.SaveStateAtomic
import ChuckStation.SaveStateChecksum
import ChuckStation.SaveStateFormat
import ChuckStation.SaveStateHostile
import ChuckStation.SaveStateLoad
import ChuckStation.SaveStateRestore
import ChuckStation.SaveStateRoundTrip
import ChuckStation.SaveStateWrites
import ChuckStation.ShaderAgreement
import ChuckStation.ShaderCache
import ChuckStation.ShaderCapacity
import ChuckStation.ShaderDisk
import ChuckStation.ShaderEviction
import ChuckStation.ShaderStaleness
import ChuckStation.ShaderTruncation
import ChuckStation.SharedMemory
import ChuckStation.StackSystem
import ChuckStation.SymbolTables
import ChuckStation.SyscallAccesses
import ChuckStation.SyscallPrograms
import ChuckStation.Syscalls
import ChuckStation.TextLines
import ChuckStation.ThreadLifeCycle
import ChuckStation.ThreadPool
import ChuckStation.ThreadPoolWakeups
import ChuckStation.ThreadStorage
import ChuckStation.TopologicalSort
import ChuckStation.Traces
import ChuckStation.WaitQueues
import ChuckStation.WordOverflow
import ChuckStation.X86Blocks
import ChuckStation.X86Format
import ChuckStation.X86Programs
import ChuckStation.LoadedPrograms
