import RenderScript.Cpu.LaunchBounds
import RenderScript.Group.TraversalBounds
import RenderScript.Group.GroupExecution
import RenderScript.Allocation.AllocationRoundTrip
import RenderScript.Cpu.SlicePartition
import RenderScript.Cpu.WorkerPool
import RenderScript.Types.LevelArrays
import RenderScript.Client.ClientElement
import RenderScript.Element.UnpaddedSize
import RenderScript.Objects.SharedTables
import RenderScript.Objects.ReferenceCounts
import RenderScript.Objects.ObjectList
import RenderScript.Objects.ZeroUserRefs
import RenderScript.Client.MessageChannel
import RenderScript.A3D.FileLoad
import RenderScript.Commands.CommandExchangeProperties
import RenderScript.Programs.Program
import RenderScript.IoBuffers.WindowBuffers
import RenderScript.IoBuffers.GrallocConsumer
import RenderScript.A3D.FailedLoadsProperties
import RenderScript.Cpu.ScriptInit
import RenderScript.Programs.ShaderTargets
import RenderScript.Allocation.ClientPointers
import RenderScript.Client.ClientCopies
import RenderScript.Allocation.YuvCopies
import RenderScript.Allocation.AllocationCopies
import RenderScript.Allocation.ElementData
import RenderScript.Programs.ShaderUniforms
import RenderScript.Allocation.MipmapShapes
import RenderScript.Allocation.AllocationTeardown
import RenderScript.Intrinsics.Histogram
import RenderScript.Intrinsics.RowKernels
import RenderScript.Runtime.Atomics
import RenderScript.Runtime.Matrix4x4
import RenderScript.Runtime.Sampling
import RenderScript.Linkloader.ArchiveReader
import RenderScript.Linkloader.ArmRelocation
import RenderScript.Linkloader.GlobalOffsetTable
