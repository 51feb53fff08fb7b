import RenderScript.Foundation.TicketPool

/-!
# Kernel launches of the CPU reference driver

`forEachMtlsSetup` of rsCpuScript.cpp and `launchThreads`, `wc_xy` and `wc_x` of
rsCpuCore.cpp. A launch makes calls of an expanded kernel, each over a run of
cells of one row. The serial branch makes them in four nested loops. The threaded
branch lets every worker draw slice numbers from `mSliceNum`.
-/

namespace RenderScript.Cpu

def rsMin (in1 in2 : UInt32) : UInt32 := if in1 > in2 then in2 else in1

def rsMax (in1 in2 : UInt32) : UInt32 := if in1 < in2 then in2 else in1

/-- What a launch reads of an `Allocation`: level 0 of its driver state and its
type. A null `mallocPtr` is address 0; `size_t` quantities are naturals. -/
structure LaunchAllocation where
  mallocPtr : Nat
  stride : Nat
  dimX : UInt32
  dimY : UInt32
  dimZ : UInt32
  elementSizeBytes : Nat

/-- The sub-range of an `RsScriptCall`; its strategy and array bounds are never read. -/
structure RsScriptCall where
  xStart : UInt32
  xEnd : UInt32
  yStart : UInt32
  yEnd : UInt32
  zStart : UInt32
  zEnd : UInt32

/-- `in`, `out` and `ar[0]` are `inPtr`, `outPtr` and `ar0`. The defaults are the
zeros of the `memset` that starts every setup. -/
structure RsForEachStubParamStruct where
  inPtr : Nat := 0
  outPtr : Nat := 0
  y : UInt32 := 0
  z : UInt32 := 0
  ar0 : UInt32 := 0
  lid : UInt32 := 0
  dimX : UInt32 := 0
  dimY : UInt32 := 0
  dimZ : UInt32 := 0
  ptrIn : Nat := 0
  ptrOut : Nat := 0
  eStrideIn : UInt32 := 0
  eStrideOut : UInt32 := 0
  yStrideIn : UInt32 := 0
  yStrideOut : UInt32 := 0

structure MTLaunchStruct where
  fep : RsForEachStubParamStruct := {}
  mSliceSize : UInt32 := 0
  isThreadable : Bool := false
  xStart : UInt32 := 0
  xEnd : UInt32 := 0
  yStart : UInt32 := 0
  yEnd : UInt32 := 0
  zStart : UInt32 := 0
  zEnd : UInt32 := 0
  arrayStart : UInt32 := 0
  arrayEnd : UInt32 := 0

/-- Bounds of one dimension, and whether the setup returns early because the
requested range is empty after clamping. -/
def clampRange (dim : UInt32) : Option (UInt32 × UInt32) → (UInt32 × UInt32) × Bool
  | none => ((0, dim), false)
  | some (start, stop) =>
    if stop = 0 then ((0, dim), false)
    else ((rsMin dim start, rsMin dim stop), decide (rsMin dim start ≥ rsMin dim stop))

def forEachMtlsSetup (mIsThreadable : Bool) (ain aout : Option LaunchAllocation)
    (sc : Option RsScriptCall) : MTLaunchStruct × Option String :=
  if ain.any (·.mallocPtr == 0) then
    ({}, some "rsForEach called with null in allocations")
  else if aout.any (·.mallocPtr == 0) then
    ({}, some "rsForEach called with null out allocations")
  else
    match ain <|> aout with
    | none => ({}, some "rsForEach called with null allocations")
    | some driving =>
      let fep : RsForEachStubParamStruct := { dimX := driving.dimX, dimY := driving.dimY, dimZ := driving.dimZ }
      let x := clampRange fep.dimX (sc.map fun call => (call.xStart, call.xEnd))
      let mtls : MTLaunchStruct := { fep := fep, xStart := x.1.1, xEnd := x.1.2 }
      if x.2 then (mtls, none) else
      let y := clampRange fep.dimY (sc.map fun call => (call.yStart, call.yEnd))
      let mtls := { mtls with yStart := y.1.1, yEnd := y.1.2 }
      if y.2 then (mtls, none) else
      let z := clampRange fep.dimZ (sc.map fun call => (call.zStart, call.zEnd))
      let mtls := { mtls with zStart := z.1.1, zEnd := z.1.2 }
      if z.2 then (mtls, none) else
      ({ mtls with
          xEnd := rsMax 1 mtls.xEnd, yEnd := rsMax 1 mtls.yEnd, zEnd := rsMax 1 mtls.zEnd, arrayEnd := rsMax 1 mtls.arrayEnd
          mSliceSize := 1
          isThreadable := mIsThreadable
          fep := { fep with
            ptrIn := (ain.map (·.mallocPtr)).getD 0, eStrideIn := .ofNat ((ain.map (·.elementSizeBytes)).getD 0)
            yStrideIn := .ofNat ((ain.map (·.stride)).getD 0)
            ptrOut := (aout.map (·.mallocPtr)).getD 0
            eStrideOut := .ofNat ((aout.map (·.elementSizeBytes)).getD 0)
            yStrideOut := .ofNat ((aout.map (·.stride)).getD 0) } }, none)

/-- The values of a counter in `for (c = start; c < stop; c++)`. -/
def counter (start stop : UInt32) : List UInt32 :=
  (List.range' start.toNat (stop.toNat - start.toNat)).map UInt32.ofNat

/-- The arguments of one call of an `outer_foreach_t`. -/
structure OuterCall where
  p : RsForEachStubParamStruct
  x1 : UInt32
  x2 : UInt32
  instep : UInt32
  outstep : UInt32

/-- The kernel on one cell, with the addresses of its input and its output. -/
structure Invocation where
  x : UInt32
  y : UInt32
  z : UInt32
  ar0 : UInt32
  inPtr : Nat
  outPtr : Nat
  deriving DecidableEq

/-- An expanded kernel steps through its run of cells, moving both pointers. -/
def OuterCall.invocations (call : OuterCall) : List Invocation :=
  (counter call.x1 call.x2).map fun x => {
    x := x, y := call.p.y, z := call.p.z, ar0 := call.p.ar0
    inPtr := call.p.inPtr + (x.toNat - call.x1.toNat) * call.instep.toNat
    outPtr := call.p.outPtr + (x.toNat - call.x1.toNat) * call.outstep.toNat }

def MTLaunchStruct.serialCall (mtls : MTLaunchStruct) (ar z y : UInt32) : OuterCall :=
  let offset := mtls.fep.dimY * mtls.fep.dimZ * ar + mtls.fep.dimY * z + y
  { p := { mtls.fep with
      ar0 := ar, z := z, y := y, outPtr := mtls.fep.ptrOut + (mtls.fep.yStrideOut * offset).toNat +
        (mtls.fep.eStrideOut * mtls.xStart).toNat
      inPtr := mtls.fep.ptrIn + (mtls.fep.yStrideIn * offset).toNat +
        (mtls.fep.eStrideIn * mtls.xStart).toNat }
    x1 := mtls.xStart
    x2 := mtls.xEnd
    instep := mtls.fep.eStrideIn
    outstep := mtls.fep.eStrideOut }

/-- The serial branch of `launchThreads`. -/
def MTLaunchStruct.serialCalls (mtls : MTLaunchStruct) : List OuterCall :=
  (counter mtls.arrayStart mtls.arrayEnd).flatMap fun ar =>
    (counter mtls.zStart mtls.zEnd).flatMap fun z =>
      (counter mtls.yStart mtls.yEnd).map fun y => mtls.serialCall ar z y

/-- The call `wc_xy` makes for row `y`. -/
def MTLaunchStruct.rowCall (mtls : MTLaunchStruct) (idx y : UInt32) : OuterCall where
  p := { mtls.fep with
    lid := idx, y := y, outPtr := mtls.fep.ptrOut + (mtls.fep.yStrideOut * y).toNat +
      (mtls.fep.eStrideOut * mtls.xStart).toNat
    inPtr := mtls.fep.ptrIn + (mtls.fep.yStrideIn * y).toNat +
      (mtls.fep.eStrideIn * mtls.xStart).toNat }
  x1 := mtls.xStart
  x2 := mtls.xEnd
  instep := mtls.fep.eStrideIn
  outstep := mtls.fep.eStrideOut

/-- One slice of `wc_xy` on worker `idx`; no value when the worker returns. -/
def MTLaunchStruct.wc_xy (mtls : MTLaunchStruct) (idx slice : UInt32) :
    Option (List OuterCall) :=
  let yStart := mtls.yStart + slice * mtls.mSliceSize
  let yEnd := rsMin (yStart + mtls.mSliceSize) mtls.yEnd
  if yEnd ≤ yStart then none else some ((counter yStart yEnd).map (mtls.rowCall idx))

/-- The call `wc_x` makes for the cells from `xStart` to `xEnd`. -/
def MTLaunchStruct.columnCall (mtls : MTLaunchStruct) (idx xStart xEnd : UInt32) : OuterCall where
  p := { mtls.fep with
    lid := idx, outPtr := mtls.fep.ptrOut + (mtls.fep.eStrideOut * xStart).toNat
    inPtr := mtls.fep.ptrIn + (mtls.fep.eStrideIn * xStart).toNat }
  x1 := xStart
  x2 := xEnd
  instep := mtls.fep.eStrideIn
  outstep := mtls.fep.eStrideOut

/-- One slice of `wc_x` on worker `idx`; no value when the worker returns. -/
def MTLaunchStruct.wc_x (mtls : MTLaunchStruct) (idx slice : UInt32) :
    Option (List OuterCall) :=
  let xStart := mtls.xStart + slice * mtls.mSliceSize
  let xEnd := rsMin (xStart + mtls.mSliceSize) mtls.xEnd
  if xEnd ≤ xStart then none else some [mtls.columnCall idx xStart xEnd]

/-- The slice size of `launchThreads` for a dimension; no value when a division
by zero stops the process. -/
def sliceSize (mCount dim strideOut strideIn : UInt32) : Option UInt32 :=
  let parts := (mCount + 1) * 4
  let stride := if strideOut ≠ 0 then strideOut else strideIn
  if parts = 0 ∨ stride = 0 then none
  else
    let size := rsMin (dim / parts) (16 * 1024 / stride)
    some (if size < 1 then 1 else size)

def MTLaunchStruct.sliced (mtls : MTLaunchStruct) (mCount : UInt32) : Option MTLaunchStruct :=
  let size :=
    if mtls.fep.dimY > 1 then
      sliceSize mCount mtls.fep.dimY mtls.fep.yStrideOut mtls.fep.yStrideIn
    else
      sliceSize mCount mtls.fep.dimX mtls.fep.eStrideOut mtls.fep.eStrideIn
  size.map fun size => { mtls with mSliceSize := size }

def MTLaunchStruct.slice (mtls : MTLaunchStruct) (idx slice : UInt32) :
    Option (List OuterCall) :=
  if mtls.fep.dimY > 1 then mtls.wc_xy idx slice else mtls.wc_x idx slice

/-- Workers that run the callback: only the caller on the path for small launches. -/
def MTLaunchStruct.callbackWorkers (mtls : MTLaunchStruct) (mCount : UInt32) : Nat :=
  if mtls.fep.dimY ≤ 1 ∧ mtls.xEnd ≤ mtls.xStart + mtls.mSliceSize then 1
  else mCount.toNat + 1

section

variable {α : Type} (micro : OuterCall → List α)

/-- The tickets are the values of `mSliceNum`; `micro` says which steps a kernel
call consists of. -/
def MTLaunchStruct.job (mtls : MTLaunchStruct) : TicketPool.Job α where
  stop ticket := (mtls.slice 0 (.ofNat ticket)).isNone
  work idx ticket := ((mtls.slice (.ofNat idx) (.ofNat ticket)).getD []).flatMap micro

def MTLaunchStruct.serialTrace (mtls : MTLaunchStruct) : List α :=
  mtls.serialCalls.flatMap micro

/-- A complete run of the threaded branch with `mCount` helpers. -/
def MTLaunchStruct.ThreadedRun (mtls : MTLaunchStruct) (mCount : UInt32) (trace : List α) :
    Prop :=
  ∃ sliced, mtls.sliced mCount = some sliced ∧
    TicketPool.Completes (sliced.job micro) (sliced.callbackWorkers mCount) trace

/-- `launchThreads`: every order in which the steps of a launch may happen. -/
def MTLaunchStruct.LaunchThreads (mtls : MTLaunchStruct) (mCount : UInt32) (mInForEach : Bool)
    (trace : List α) : Prop :=
  if mCount ≥ 1 ∧ mtls.isThreadable ∧ ¬ mInForEach then mtls.ThreadedRun micro mCount trace
  else trace = mtls.serialTrace micro

end

end RenderScript.Cpu
