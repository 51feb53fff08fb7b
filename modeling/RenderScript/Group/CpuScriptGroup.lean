import RenderScript.Foundation.ByteMemory
import RenderScript.Cpu.Launch
import RenderScript.Group.ScriptGroup

/-!
# Script groups of the CPU driver

`CpuScriptGroupImpl` of rsCpuScriptGroup.cpp. `execute` collects the kernels that
can run. Without field dependencies it launches all of them at once through
`scriptGroupRoot`, otherwise it launches them one after another. Kernels are
pointwise: each output cell is computed from the input cell at the same place.
-/

namespace RenderScript.Group
open RenderScript.Cpu ByteMemory

/-- Bytes of the output cell at `x`, `y`, from the bytes of the input cell. -/
abbrev PointKernel := UInt32 → UInt32 → List UInt8 → Nat → UInt8

structure Driver where
  allocation : Allocation → LaunchAllocation
  mIsThreadable : Script → Bool
  hasObjectSlots : Script → Bool
  kernel : ScriptKernelID → PointKernel

/-- One index of the parallel arrays of `ScriptList`. -/
structure ScriptEntry where
  kernel : ScriptKernelID
  ain : Option Allocation
  inExt : Bool
  aout : Option Allocation
  outExt : Bool
  deriving DecidableEq

def collectKernel (mInputs mOutputs : List GroupIo) (n : Node) (k : ScriptKernelID) :
    Option ScriptEntry :=
  let run := executeKernel mInputs mOutputs n k
  if k.mHasKernelOutput == run.aout.isSome && k.mHasKernelInput == run.ain.isSome then
    some {
      kernel := k, ain := run.ain, inExt := mInputs.any (·.mKernel == k), aout := run.aout
      outExt := mOutputs.any (·.mKernel == k) }
  else none

def collect (mNodes : List Node) (mInputs mOutputs : List GroupIo) : List ScriptEntry :=
  mNodes.flatMap fun n => n.mKernels.filterMap (collectKernel mInputs mOutputs n)

def fieldDep (driver : Driver) (mNodes : List Node) : Bool :=
  mNodes.any fun n =>
    n.mKernels.head?.any (fun k => driver.hasObjectSlots k.mScript) ||
      n.mKernels.any fun k =>
        driver.hasObjectSlots k.mScript ||
          n.mOutputs.any fun l => l.mSource == k && l.mDstField.isSome

def kernelTransfers (kernel : PointKernel) (call : OuterCall) : List Transfer :=
  call.invocations.map fun invocation => {
    src := { start := invocation.inPtr, length := call.instep.toNat }
    dst := { start := invocation.outPtr, length := call.outstep.toNat }
    fn := kernel invocation.x invocation.y }

/-- Where `scriptGroupRoot` lets a kernel start: external allocations by row, the
others by worker, as long as there are enough rows for the workers. -/
def rootPtr (a : LaunchAllocation) (ext : Bool) (p : RsForEachStubParamStruct) : Nat :=
  if ext then a.mallocPtr + a.stride * p.y.toNat
  else if a.dimY > p.lid then a.mallocPtr + a.stride * p.lid.toNat
  else a.mallocPtr

/-- The call that `scriptGroupRoot` makes for one entry of its list. -/
def rootCall (driver : Driver) (entry : ScriptEntry) (call : OuterCall) : OuterCall where
  p := { call.p with
    ptrIn := (entry.ain.map fun a => (driver.allocation a).mallocPtr).getD 0
    inPtr := (entry.ain.map fun a => rootPtr (driver.allocation a) entry.inExt call.p).getD 0
    ptrOut := (entry.aout.map fun a => (driver.allocation a).mallocPtr).getD 0
    outPtr := (entry.aout.map fun a => rootPtr (driver.allocation a) entry.outExt call.p).getD 0 }
  x1 := call.x1
  x2 := call.x2
  instep := .ofNat ((entry.ain.map fun a => (driver.allocation a).elementSizeBytes).getD 0)
  outstep := .ofNat ((entry.aout.map fun a => (driver.allocation a).elementSizeBytes).getD 0)

def scriptGroupRoot (driver : Driver) (sl : List ScriptEntry) (call : OuterCall) :
    List Transfer :=
  sl.flatMap fun entry => kernelTransfers (driver.kernel entry.kernel) (rootCall driver entry call)

def launchOf (driver : Driver) (entry : ScriptEntry) : MTLaunchStruct :=
  (forEachMtlsSetup (driver.mIsThreadable entry.kernel.mScript)
    (entry.ain.map driver.allocation) (entry.aout.map driver.allocation) none).1

/-- The transfers of one launch of `scriptGroupRoot`, set up for the first kernel.
Without kernels the source reads past the end of its arrays. -/
def FusedRun (driver : Driver) (sl : List ScriptEntry) (mCount : UInt32) (mInForEach : Bool)
    (trace : List Transfer) : Prop :=
  ∃ first rest, sl = first :: rest ∧
    (launchOf driver first).LaunchThreads (scriptGroupRoot driver sl) mCount mInForEach trace

def FieldDepRun (driver : Driver) (mCount : UInt32) (mInForEach : Bool) :
    List ScriptEntry → List Transfer → Prop
  | [], trace => trace = []
  | entry :: rest, trace => ∃ first others, trace = first ++ others ∧
      (launchOf driver entry).LaunchThreads (kernelTransfers (driver.kernel entry.kernel))
        mCount mInForEach first ∧
      FieldDepRun driver mCount mInForEach rest others

/-- `execute` of the driver: one of the two ways, chosen by `fieldDep`. -/
def ExecuteRun (driver : Driver) (mNodes : List Node) (mInputs mOutputs : List GroupIo)
    (mCount : UInt32) (mInForEach : Bool) (trace : List Transfer) : Prop :=
  if fieldDep driver mNodes then
    FieldDepRun driver mCount mInForEach (collect mNodes mInputs mOutputs) trace
  else
    FusedRun driver (collect mNodes mInputs mOutputs) mCount mInForEach trace

end RenderScript.Group
