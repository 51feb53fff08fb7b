import RenderScript.Cpu.LaunchProperties
import RenderScript.Group.CpuScriptGroup

/-!
# Launches of pointwise kernels over allocations of equal dimensions

Cells of allocations as memory regions, and the transfers a launch of one kernel
makes between them.
-/

namespace RenderScript.Group
open RenderScript.Cpu ByteMemory List Option

variable {trace : List Transfer} {a : Allocation} {x y : Nat} {α : Type} {mCount : UInt32}

def extent (dim : UInt32) : Nat := max 1 dim.toNat

def cell (driver : Driver) (a : Allocation) (x y : Nat) : Region where
  start := (driver.allocation a).mallocPtr + (driver.allocation a).stride * y +
    x * (driver.allocation a).elementSizeBytes
  length := (driver.allocation a).elementSizeBytes

def rowCount (dimY dimZ : UInt32) : Nat := extent dimY * extent dimZ

theorem extent_le_rowCount (dimY dimZ : UInt32) : extent dimY ≤ rowCount dimY dimZ :=
  Nat.le_mul_of_pos_right _ (lt_of_lt_of_le one_pos (le_max_left _ _))

def storage (driver : Driver) (dimY dimZ : UInt32) (a : Allocation) : Region where
  start := (driver.allocation a).mallocPtr
  length := (driver.allocation a).stride * rowCount dimY dimZ

/-- The allocations of a group: mapped, of equal dimensions, with rows that hold
their cells, and without common bytes. -/
structure Layout (driver : Driver) (dimX dimY dimZ : UInt32) (used : Allocation → Prop) : Prop where
  dims : ∀ a, used a → (driver.allocation a).dimX = dimX ∧ (driver.allocation a).dimY = dimY ∧
    (driver.allocation a).dimZ = dimZ
  mapped : ∀ a, used a → (driver.allocation a).mallocPtr ≠ 0
  elements : ∀ a, used a → (driver.allocation a).elementSizeBytes < 2 ^ 32
  rows : ∀ a, used a →
    extent dimX * (driver.allocation a).elementSizeBytes ≤ (driver.allocation a).stride
  apart : ∀ a, used a → ∀ b, used b → a ≠ b →
    (storage driver dimY dimZ a).Apart (storage driver dimY dimZ b)

section

variable {driver : Driver} {dimX dimY dimZ : UInt32} {used : Allocation → Prop}

theorem Layout.within_row (layout : Layout driver dimX dimY dimZ used) (isUsed : used a) (column : x < extent dimX) :
    x * (driver.allocation a).elementSizeBytes + (driver.allocation a).elementSizeBytes ≤ (driver.allocation a).stride := by
  have fits := layout.rows a isUsed
  have bounded : (x + 1) * (driver.allocation a).elementSizeBytes ≤
      extent dimX * (driver.allocation a).elementSizeBytes := Nat.mul_le_mul_right _ column
  rw [Nat.succ_mul] at bounded
  omega

theorem Layout.cell_in_storage (layout : Layout driver dimX dimY dimZ used)
    (isUsed : used a) (column : x < extent dimX) (row : y < rowCount dimY dimZ)
    {location : Nat} (inside : (cell driver a x y).Holds location) :
    (storage driver dimY dimZ a).Holds location := by
  have fits := layout.within_row isUsed column
  have bounded : (driver.allocation a).stride * (y + 1) ≤
      (driver.allocation a).stride * rowCount dimY dimZ := Nat.mul_le_mul_left _ row
  rw [Nat.mul_succ] at bounded
  simp only [Region.Holds, cell, storage] at inside ⊢
  omega

theorem Layout.cell_apart (layout : Layout driver dimX dimY dimZ used) {b : Allocation}
    (isUsed : used a) (otherUsed : used b) {x' y' : Nat} (column : x < extent dimX)
    (row : y < rowCount dimY dimZ) (column' : x' < extent dimX) (row' : y' < rowCount dimY dimZ)
    (ne : a ≠ b ∨ x ≠ x' ∨ y ≠ y') : (cell driver a x y).Apart (cell driver b x' y') := by
  intro loc inside otherInside
  by_cases eq : a = b
  · subst eq
    have fits := layout.within_row isUsed column
    have fits' := layout.within_row isUsed column'
    simp only [Region.Holds, cell] at inside otherInside
    rcases lt_trichotomy y y' with before | equal | after
    · have apart : (driver.allocation a).stride * (y + 1) ≤ (driver.allocation a).stride * y' := Nat.mul_le_mul_left _ before
      rw [Nat.mul_succ] at apart
      omega
    · subst equal
      rcases lt_trichotomy x x' with left | equal | right
      · have apart : (x + 1) * (driver.allocation a).elementSizeBytes ≤
            x' * (driver.allocation a).elementSizeBytes := Nat.mul_le_mul_right _ left
        rw [Nat.succ_mul] at apart
        omega
      · simp [equal] at ne
      · have apart : (x' + 1) * (driver.allocation a).elementSizeBytes ≤
            x * (driver.allocation a).elementSizeBytes := Nat.mul_le_mul_right _ right
        rw [Nat.succ_mul] at apart
        omega
    · have apart : (driver.allocation a).stride * (y' + 1) ≤ (driver.allocation a).stride * y := Nat.mul_le_mul_left _ after
      rw [Nat.mul_succ] at apart
      omega
  · exact layout.apart a isUsed b otherUsed eq loc (layout.cell_in_storage isUsed column row inside)
      (layout.cell_in_storage otherUsed column' row' otherInside)

end

def cells (dimX dimY : UInt32) : List (Nat × Nat) :=
  (List.range (extent dimY)).flatMap fun y => (List.range (extent dimX)).map fun x => (x, y)

theorem mem_cells {dimX dimY : UInt32} {place : Nat × Nat} :
    place ∈ cells dimX dimY ↔ place.1 < extent dimX ∧ place.2 < extent dimY := by
  obtain ⟨x, y⟩ := place
  simp only [cells, mem_flatMap, mem_range, List.mem_map, Prod.mk.injEq]
  constructor
  · intro found
    obtain ⟨row, inside, col, bounded, rfl, rfl⟩ := found
    exact ⟨bounded, inside⟩
  · intro bounds
    exact ⟨y, bounds.2, x, bounds.1, rfl, rfl⟩

theorem nodup_cells (dimX dimY : UInt32) : (cells dimX dimY).Nodup := by
  rw [cells, nodup_flatMap]
  constructor
  · intro y _
    exact nodup_range.map fun first second eq => (Prod.mk.inj eq).1
  · refine List.Nodup.pairwise_of_forall_ne nodup_range ?_
    intro y _ y' _ ne place inRow inOther
    obtain ⟨x, -, rfl⟩ := List.mem_map.mp inRow
    obtain ⟨x', -, eq⟩ := List.mem_map.mp inOther
    exact ne (Prod.mk.inj eq).2.symm

def ScriptEntry.Uses (entry : ScriptEntry) (a : Allocation) : Prop :=
  entry.ain = some a ∨ entry.aout = some a

def optionCell (driver : Driver) (a : Option Allocation) (x y : Nat) : Region :=
  a.elim { start := 0, length := 0 } fun a => cell driver a x y

def entryTransfer (driver : Driver) (entry : ScriptEntry) (place : Nat × Nat) : Transfer where
  src := optionCell driver entry.ain place.1 place.2
  dst := optionCell driver entry.aout place.1 place.2
  fn := driver.kernel entry.kernel (.ofNat place.1) (.ofNat place.2)

def optionSize (driver : Driver) (field : LaunchAllocation → Nat) (a : Option Allocation) : Nat :=
  (a.map fun a => field (driver.allocation a)).getD 0

def wholeLaunch (driver : Driver) (dimX dimY dimZ : UInt32) (entry : ScriptEntry) :
    MTLaunchStruct where
  fep := {
    dimX := dimX, dimY := dimY, dimZ := dimZ, ptrIn := optionSize driver (·.mallocPtr) entry.ain
    eStrideIn := .ofNat (optionSize driver (·.elementSizeBytes) entry.ain)
    yStrideIn := .ofNat (optionSize driver (·.stride) entry.ain)
    ptrOut := optionSize driver (·.mallocPtr) entry.aout
    eStrideOut := .ofNat (optionSize driver (·.elementSizeBytes) entry.aout)
    yStrideOut := .ofNat (optionSize driver (·.stride) entry.aout) }
  mSliceSize := 1
  isThreadable := driver.mIsThreadable entry.kernel.mScript
  xEnd := rsMax 1 dimX
  yEnd := rsMax 1 dimY
  zEnd := rsMax 1 dimZ
  arrayEnd := 1

section

variable {mInForEach : Bool} {driver : Driver} {dimX dimY dimZ planes : UInt32} {used : Allocation → Prop}
  {micro : OuterCall → List α}
  {entry : ScriptEntry}

theorem launchOf_eq (layout : Layout driver dimX dimY dimZ used) (uses : ∀ a, entry.Uses a → used a) (some : ∃ a, entry.Uses a) :
    launchOf driver entry = wholeLaunch driver dimX dimY dimZ entry := by
  cases input : entry.ain with
  | none =>
    cases output : entry.aout with
    | none =>
      obtain ⟨a, isUsed⟩ := some
      rcases isUsed with read | written
      · rw [input] at read
        cases read
      · rw [output] at written
        cases written
    | some b =>
      have isUsed := uses b (.inr output)
      obtain ⟨sameX, sameY, sameZ⟩ := layout.dims b isUsed
      simp [launchOf, wholeLaunch, forEachMtlsSetup, input, output, layout.mapped b isUsed,
        clampRange, optionSize, sameX, sameY, sameZ, rsMax]
  | some a =>
    have isUsed := uses a (.inl input)
    obtain ⟨sameX, sameY, sameZ⟩ := layout.dims a isUsed
    cases output : entry.aout with
    | none =>
      simp [launchOf, wholeLaunch, forEachMtlsSetup, input, output, layout.mapped a isUsed,
        clampRange, optionSize, sameX, sameY, sameZ, rsMax]
    | some b =>
      simp [launchOf, wholeLaunch, forEachMtlsSetup, input, output, layout.mapped a isUsed,
        layout.mapped b (uses b (.inr output)), clampRange, optionSize, sameX, sameY, sameZ,
        rsMax]

theorem toNat_rsMax_one (dim : UInt32) : (rsMax 1 dim).toNat = extent dim := by
  rw [toNat_rsMax, UInt32.toNat_one, extent]

theorem wholeLaunch_prepared (driver : Driver) (dimX dimY dimZ : UInt32) (entry : ScriptEntry) :
    (wholeLaunch driver dimX dimY dimZ entry).Prepared where
  xRange := by
    rw [UInt32.lt_iff_toNat_lt]
    simp [wholeLaunch]
  yRange := by
    rw [UInt32.lt_iff_toNat_lt]
    simp [wholeLaunch]
  zRange := by
    rw [UInt32.lt_iff_toNat_lt]
    simp [wholeLaunch]
  singleRow := by
    intro single
    have small : dimY.toNat ≤ 1 := UInt32.le_iff_toNat_le.mp single
    refine ⟨rfl, ?_⟩
    rw [← UInt32.toNat_inj]
    simp [wholeLaunch]
    omega
  arrayRange := ⟨rfl, rfl⟩
  origin := ⟨rfl, rfl, rfl⟩

theorem wholeLaunch_flat (driver : Driver) (dimX dimY : UInt32) (entry : ScriptEntry) (flat : dimZ ≤ 1) :
    (wholeLaunch driver dimX dimY dimZ entry).zStart = 0 ∧ (wholeLaunch driver dimX dimY dimZ entry).zEnd = 1 := by
  have small : dimZ.toNat ≤ 1 := UInt32.le_iff_toNat_le.mp flat
  refine ⟨rfl, ?_⟩
  rw [← UInt32.toNat_inj]
  simp [wholeLaunch]
  omega

theorem extent_lt (dim : UInt32) : extent dim < 2 ^ 32 := by
  have small := dim.toNat_lt
  rw [extent]
  omega

def RowsFit (driver : Driver) (dimY : UInt32) (a : Allocation) : Prop :=
  (driver.allocation a).stride * (extent dimY - 1) < 2 ^ 32

theorem stepped_eq_optionCell (layout : Layout driver dimX dimY dimZ used) {a : Option Allocation}
    (uses : ∀ b, a = some b → used b ∧ RowsFit driver dimY b) {x y : Nat} (row : y < extent dimY) :
    ({ start := optionSize driver (·.mallocPtr) a + (UInt32.ofNat (optionSize driver (·.stride) a) * UInt32.ofNat y).toNat +
          (UInt32.ofNat (optionSize driver (·.elementSizeBytes) a) * 0).toNat +
          x * (UInt32.ofNat (optionSize driver (·.elementSizeBytes) a)).toNat
       length := (UInt32.ofNat (optionSize driver (·.elementSizeBytes) a)).toNat } : Region) =
      optionCell driver a x y := by
  cases a with
  | none => simp [optionSize, optionCell]
  | some b =>
    obtain ⟨isUsed, fits⟩ := uses b rfl
    have elem := layout.elements b isUsed
    have offset : (driver.allocation b).stride * y < 2 ^ 32 := by
      have bounded : (driver.allocation b).stride * y ≤
          (driver.allocation b).stride * (extent dimY - 1) := Nat.mul_le_mul_left _ (by omega)
      exact bounded.trans_lt fits
    simp only [optionSize, optionCell, cell, map_some, getD_some, elim_some,
      UInt32.toNat_mul, UInt32.toNat_ofNat', Nat.mod_eq_of_lt elem, Nat.mod_mul_mod,
      Nat.mul_mod_mod, Nat.mod_eq_of_lt offset]
    simp

theorem serialTrace_eq_cells (layout : Layout driver dimX dimY dimZ used)
    (uses : ∀ a, entry.Uses a → used a ∧ RowsFit driver dimY a) (flat : planes ≤ 1) :
    (wholeLaunch driver dimX dimY planes entry).serialTrace (kernelTransfers (driver.kernel entry.kernel)) =
      (cells dimX dimY).map (entryTransfer driver entry) := by
  rw [MTLaunchStruct.serialTrace, serialCalls_flat (wholeLaunch_prepared _ _ _ _ _)
    (wholeLaunch_flat driver dimX dimY entry flat), flatMap_map, cells, map_flatMap]
  simp only [wholeLaunch, toNat_rsMax_one, UInt32.toNat_zero, Nat.sub_zero, ← range_eq_range']
  refine flatMap_congr fun y row => ?_
  have inside := mem_range.mp row
  simp only [kernelTransfers, OuterCall.invocations, MTLaunchStruct.serialCall, counter,
    toNat_rsMax_one, UInt32.toNat_zero, Nat.sub_zero, List.map_map, ← range_eq_range']
  refine map_congr_left fun x col => ?_
  have bounded := mem_range.mp col
  have small : x < 2 ^ 32 := bounded.trans (extent_lt dimX)
  have input := @stepped_eq_optionCell driver dimX dimY dimZ used layout _ (fun b eq => uses b (.inl eq)) x y inside
  have output := @stepped_eq_optionCell driver dimX dimY dimZ used layout _ (fun b eq => uses b (.inr eq)) x y inside
  simp only [Function.comp_apply, entryTransfer, ← input, ← output, UInt32.toNat_ofNat',
    Nat.mod_eq_of_lt small, UInt32.mul_zero, zero_add]

def Threads (driver : Driver) (entry : ScriptEntry) (mCount : UInt32) (mInForEach : Bool) : Prop :=
  mCount ≥ 1 ∧ driver.mIsThreadable entry.kernel.mScript = true ∧ ¬ mInForEach = true

theorem launchThreads_wholeLaunch (micro : OuterCall → List α) (mCount : UInt32) (mInForEach : Bool) (trace : List α) :
    (wholeLaunch driver dimX dimY dimZ entry).LaunchThreads micro mCount mInForEach trace ↔
      (Threads driver entry mCount mInForEach ∧ (wholeLaunch driver dimX dimY dimZ entry).ThreadedRun micro mCount trace) ∨
        (¬ Threads driver entry mCount mInForEach ∧ trace = (wholeLaunch driver dimX dimY dimZ entry).serialTrace micro) := by
  have eq : (mCount ≥ 1 ∧ (wholeLaunch driver dimX dimY dimZ entry).isThreadable = true ∧
      ¬ mInForEach = true) ↔ Threads driver entry mCount mInForEach := Iff.rfl
  by_cases threads : Threads driver entry mCount mInForEach
  · rw [MTLaunchStruct.LaunchThreads, if_pos (eq.mpr threads)]
    simp [threads]
  · rw [MTLaunchStruct.LaunchThreads, if_neg fun taken => threads (eq.mp taken)]
    simp [threads]

theorem stepsBy_kernelTransfers (mtls : MTLaunchStruct) (kernel : PointKernel) :
    mtls.StepsBy (kernelTransfers kernel) fun invocation => {
      src := { start := invocation.inPtr, length := mtls.fep.eStrideIn.toNat }
      dst := { start := invocation.outPtr, length := mtls.fep.eStrideOut.toNat }
      fn := kernel invocation.x invocation.y } := by
  intro call input output
  rw [kernelTransfers, input, output]

/-- The slice size exists, and the slices that the workers draw cover their range. -/
def SlicesCover (mtls : MTLaunchStruct) (mCount : UInt32) : Prop :=
  ∃ sliced ∈ mtls.sliced mCount, sliced.Covers (sliced.callbackWorkers mCount)

instance (mtls : MTLaunchStruct) (mCount : UInt32) : Decidable (SlicesCover mtls mCount) :=
  inferInstanceAs (Decidable (∃ sliced ∈ mtls.sliced mCount, _))

def IgnoresPlanes {α : Type} (micro : OuterCall → List α) : Prop :=
  ∀ (call : OuterCall) (dimZ : UInt32),
    micro { call with p := { call.p with dimZ := dimZ } } = micro call

def slicedLaunch (driver : Driver) (dimX dimY dimZ : UInt32) (entry : ScriptEntry)
    (size : UInt32) : MTLaunchStruct :=
  { wholeLaunch driver dimX dimY dimZ entry with mSliceSize := size }

theorem sliced_wholeLaunch {sliced : MTLaunchStruct}
    (chosen : (wholeLaunch driver dimX dimY dimZ entry).sliced mCount = some sliced) :
    sliced = slicedLaunch driver dimX dimY dimZ entry sliced.mSliceSize ∧ ∀ planes,
      (wholeLaunch driver dimX dimY planes entry).sliced mCount =
        some (slicedLaunch driver dimX dimY planes entry sliced.mSliceSize) := by
  obtain ⟨size, found, rfl⟩ := map_eq_some_iff.mp chosen
  exact ⟨rfl, fun planes => map_eq_some_iff.mpr ⟨size, found, rfl⟩⟩

theorem job_slicedLaunch (ignores : IgnoresPlanes micro) (size : UInt32) :
    (slicedLaunch driver dimX dimY dimZ entry size).job micro = (slicedLaunch driver dimX dimY 0 entry size).job micro := by
  have parts : ∀ job other : TicketPool.Job α, job.stop = other.stop → job.work = other.work → job = other := by
    intro job other sameStop sameWork
    cases job
    cases other
    cases sameStop
    cases sameWork
    rfl
  by_cases rows : dimY > 1
  · apply parts
    · funext ticket
      rw [job_stop_rows micro rows, job_stop_rows micro rows]
      rfl
    · funext idx ticket
      rw [job_work_rows micro rows, job_work_rows micro rows]
      exact flatMap_congr fun y _ => ignores ((slicedLaunch driver dimX dimY 0 entry size).rowCall (.ofNat idx) (.ofNat y)) dimZ
  · apply parts
    · funext ticket
      rw [job_stop_columns micro rows, job_stop_columns micro rows]
      rfl
    · funext idx ticket
      rw [job_work_columns micro rows, job_work_columns micro rows]
      exact if_congr Iff.rfl rfl (ignores ((slicedLaunch driver dimX dimY 0 entry size).columnCall _ _ _) dimZ)

theorem threadedRun_plane (ignores : IgnoresPlanes micro) {trace : List α}
    (run : (wholeLaunch driver dimX dimY dimZ entry).ThreadedRun micro mCount trace)
    (covers : SlicesCover (wholeLaunch driver dimX dimY dimZ entry) mCount) :
    ∃ sliced, (wholeLaunch driver dimX dimY 0 entry).sliced mCount = some sliced ∧ sliced.Covers (sliced.callbackWorkers mCount) ∧
      TicketPool.Completes (sliced.job micro) (sliced.callbackWorkers mCount) trace := by
  obtain ⟨sliced, chosen, completes⟩ := run
  obtain ⟨again, chosenAgain, covered⟩ := covers
  rw [mem_def, chosen] at chosenAgain
  cases chosenAgain
  obtain ⟨eq, planes⟩ := sliced_wholeLaunch chosen
  refine ⟨_, planes 0, ?_, ?_⟩
  · rw [eq] at covered
    exact covered
  · rw [eq, job_slicedLaunch ignores] at completes
    exact completes

theorem ignoresPlanes_kernelTransfers (kernel : PointKernel) : IgnoresPlanes (kernelTransfers kernel) := fun _ _ => rfl

theorem launch_perm_cells (layout : Layout driver dimX dimY dimZ used) (uses : ∀ a, entry.Uses a → used a ∧ RowsFit driver dimY a)
    (flat : dimZ ≤ 1 ∨ Threads driver entry mCount mInForEach) (covers : Threads driver entry mCount mInForEach →
      SlicesCover (wholeLaunch driver dimX dimY dimZ entry) mCount) (run : (wholeLaunch driver dimX dimY dimZ entry).LaunchThreads
      (kernelTransfers (driver.kernel entry.kernel)) mCount mInForEach trace) :
    trace ~ (cells dimX dimY).map (entryTransfer driver entry) := by
  rcases (launchThreads_wholeLaunch _ _ _ _).mp run with ⟨threads, threaded⟩ | ⟨serial, rfl⟩
  · obtain ⟨sliced, chosen, covered, completes⟩ := threadedRun_plane (ignoresPlanes_kernelTransfers _) threaded (covers threads)
    have single : (0 : UInt32) ≤ 1 := by decide
    have prepared := (wholeLaunch_prepared driver dimX dimY 0 entry).sliced chosen
    have plane : sliced.zStart = 0 ∧ sliced.zEnd = 1 := by
      rw [(sliced_eq chosen).2]
      exact wholeLaunch_flat driver dimX dimY entry single
    rw [← serialTrace_eq_cells layout uses single, ← serialTrace_sliced _ chosen]
    exact covered.perm_serialTrace prepared plane (sliced_eq chosen).1
      (callbackWorkers_pos _ mCount) (stepsBy_kernelTransfers _ _) completes
  · have single : dimZ ≤ 1 := flat.resolve_right serial
    rw [serialTrace_eq_cells layout uses single]

theorem exists_launch (micro : OuterCall → List α)
    (covers : Threads driver entry mCount mInForEach → SlicesCover (wholeLaunch driver dimX dimY dimZ entry) mCount) :
    ∃ trace, (wholeLaunch driver dimX dimY dimZ entry).LaunchThreads micro mCount mInForEach trace := by
  simp only [launchThreads_wholeLaunch]
  by_cases threads : Threads driver entry mCount mInForEach
  · obtain ⟨sliced, chosen, -⟩ := covers threads
    obtain ⟨trace, completes⟩ := @exists_completes_job _ micro sliced (sliced_eq chosen).1 _
    exact ⟨trace, .inl ⟨threads, sliced, chosen, completes⟩⟩
  · exact ⟨_, .inr ⟨threads, rfl⟩⟩

end

abbrev CellStore := Allocation → List UInt8

def contents (driver : Driver) (memory : Memory) (x y : Nat) : CellStore := fun a =>
  read memory (cell driver a x y)

def entryStep (driver : Driver) (x y : Nat) (entry : ScriptEntry) (store : CellStore) : CellStore :=
  match entry.aout with
  | none => store
  | some a => Function.update store a ((List.range (driver.allocation a).elementSizeBytes).map
      (driver.kernel entry.kernel (.ofNat x) (.ofNat y) (entry.ain.elim [] store)))

section

variable {driver : Driver} {dimX dimY dimZ : UInt32} {used : Allocation → Prop}
  {entry : ScriptEntry}

theorem Layout.optionCell_apart (layout : Layout driver dimX dimY dimZ used)
    {a b : Option Allocation} (isUsed : ∀ c, a = some c → used c)
    (otherUsed : ∀ c, b = some c → used c) {x' y' : Nat} (column : x < extent dimX)
    (row : y < rowCount dimY dimZ) (column' : x' < extent dimX) (row' : y' < rowCount dimY dimZ) (ne : x ≠ x' ∨ y ≠ y') :
    (optionCell driver a x y).Apart (optionCell driver b x' y') := by
  intro loc inside otherInside
  cases a with
  | none => simp [optionCell, Region.Holds] at inside
  | some c =>
    cases b with
    | none => simp [optionCell, Region.Holds] at otherInside
    | some d =>
      exact layout.cell_apart (isUsed c rfl) (otherUsed d rfl) column row column' row'
        (.inr ne) loc inside otherInside

theorem entryTransfer_spares (layout : Layout driver dimX dimY dimZ used) (uses : ∀ a, entry.Uses a → used a) :
    ∀ place ∈ cells dimX dimY, ∀ other ∈ cells dimX dimY, place ≠ other →
      (entryTransfer driver entry place).Spares (entryTransfer driver entry other) := by
  intro place mem other mem' ne
  have planes := extent_le_rowCount dimY dimZ
  obtain ⟨col, row⟩ := mem_cells.mp mem
  obtain ⟨column', row'⟩ := mem_cells.mp mem'
  replace row := row.trans_le planes
  replace row' := row'.trans_le planes
  have apart : place.1 ≠ other.1 ∨ place.2 ≠ other.2 := by
    by_contra eq
    simp only [not_or, not_not] at eq
    exact ne (Prod.ext eq.1 eq.2)
  exact ⟨layout.optionCell_apart (fun c eq => uses c (.inr eq))
      (fun c eq => uses c (.inl eq)) col row column' row' apart,
    layout.optionCell_apart (fun c eq => uses c (.inr eq)) (fun c eq => uses c (.inr eq)) col row column' row' apart⟩

theorem read_optionCell (driver : Driver) (memory : Memory) (a : Option Allocation) (x y : Nat) :
    read memory (optionCell driver a x y) = a.elim [] (contents driver memory x y) := by
  cases a with
  | none => rfl
  | some b => rfl

theorem launch_effect (layout : Layout driver dimX dimY dimZ used) (uses : ∀ a, entry.Uses a → used a)
    (transfers : trace ~ (cells dimX dimY).map (entryTransfer driver entry)) (memory : Memory) (isUsed : used a)
    (column : x < extent dimX) (row : y < rowCount dimY dimZ) :
    contents driver (TicketPool.performs Transfer.run trace memory) x y a =
      if y < extent dimY then entryStep driver x y entry (contents driver memory x y) a
      else contents driver memory x y a := by
  have planes := extent_le_rowCount dimY dimZ
  have spares := entryTransfer_spares layout uses
  rw [performs_perm_separated spares transfers]
  have unwritten : (∀ b, entry.aout = some b → b ≠ a ∨ extent dimY ≤ y) →
      contents driver (TicketPool.performs Transfer.run ((cells dimX dimY).map (entryTransfer driver entry)) memory) x y a =
        contents driver memory x y a := by
    intro elsewhere
    apply read_performs_apart
    intro transfer performed
    obtain ⟨place, mem, rfl⟩ := List.mem_map.mp performed
    obtain ⟨otherColumn, otherRow⟩ := mem_cells.mp mem
    cases output : entry.aout with
    | none =>
      intro loc inside
      simp [entryTransfer, output, optionCell, Region.Holds] at inside
    | some b =>
      simp only [entryTransfer, output]
      apply layout.cell_apart (uses b (.inr output)) isUsed otherColumn (otherRow.trans_le planes) column row
      rcases elsewhere b output with other | deep
      · exact .inl other
      · exact .inr (.inr (by omega))
  split
  · rename_i inPlane
    cases output : entry.aout with
    | none =>
      simp only [entryStep, output]
      apply unwritten
      simp [output]
    | some b =>
      simp only [entryStep, output]
      by_cases eq : a = b
      · subst eq
        have result := read_performs_separated (nodup_cells dimX dimY) spares memory
          (mem_cells.mpr ⟨column, inPlane⟩ : (x, y) ∈ cells dimX dimY)
        simp only [Transfer.result, entryTransfer, output, read_optionCell] at result
        rw [Function.update_self]
        exact result
      · rw [Function.update_of_ne eq]
        apply unwritten
        intro c writes
        rw [output] at writes
        cases writes
        exact .inl (Ne.symm eq)
  · exact unwritten fun b _ => .inr (by omega)

end

end RenderScript.Group
