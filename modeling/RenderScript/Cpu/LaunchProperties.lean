import RenderScript.Foundation.WrappedSlices
import RenderScript.Cpu.Launch

/-!
# Threaded and serial launches

Both branches of `launchThreads` are compared as multisets of kernel invocations.
The workers' slices are instances of the wrapped slices of the library, so a
launch either tiles its range or has a slice that wraps at `2 ^ 32`.
-/

namespace RenderScript.Cpu
open WrappedSlices
open List hiding isEmpty

variable {α : Type} {requested : Option (UInt32 × UInt32)} {trace : List Invocation}
  {dim start stop mCount value z stride : UInt32} {column later workers ticket slice x y middle : Nat} {mtls : MTLaunchStruct}

@[simp] theorem toNat_rsMin (in1 in2 : UInt32) : (rsMin in1 in2).toNat = min in1.toNat in2.toNat := by
  rw [rsMin]
  split <;> rename_i order <;> rw [gt_iff_lt, UInt32.lt_iff_toNat_lt] at order <;> omega

@[simp] theorem toNat_rsMax (in1 in2 : UInt32) : (rsMax in1 in2).toNat = max in1.toNat in2.toNat := by
  rw [rsMax]
  split <;> rename_i order <;> rw [UInt32.lt_iff_toNat_lt] at order <;> omega

/-!
## Launch descriptions
-/

structure MTLaunchStruct.Prepared (mtls : MTLaunchStruct) : Prop where
  xRange : mtls.xStart < mtls.xEnd
  yRange : mtls.yStart < mtls.yEnd
  zRange : mtls.zStart < mtls.zEnd
  singleRow : mtls.fep.dimY ≤ 1 → mtls.yStart = 0 ∧ mtls.yEnd = 1
  arrayRange : mtls.arrayStart = 0 ∧ mtls.arrayEnd = 1
  origin : mtls.fep.y = 0 ∧ mtls.fep.z = 0 ∧ mtls.fep.ar0 = 0

theorem clampRange_lt (clamped : clampRange dim requested = ((start, stop), false)) : start < rsMax 1 stop := by
  rw [UInt32.lt_iff_toNat_lt, toNat_rsMax, UInt32.toNat_one]
  unfold clampRange at clamped
  split at clamped
  · cases clamped
    simp
  · split at clamped
    · cases clamped
      simp
    · simp only [Prod.mk.injEq, ge_iff_le, decide_eq_false_iff_not, UInt32.not_le] at clamped
      obtain ⟨⟨rfl, rfl⟩, ordered⟩ := clamped
      rw [UInt32.lt_iff_toNat_lt] at ordered
      omega

theorem clampRange_single (clamped : clampRange dim requested = ((start, stop), false)) (single : dim ≤ 1) :
    start = 0 ∧ rsMax 1 stop = 1 := by
  have ordered := clampRange_lt clamped
  have bounded : stop ≤ dim := by
    unfold clampRange at clamped
    rw [UInt32.le_iff_toNat_le]
    split at clamped
    · cases clamped
      simp
    · split at clamped
      · cases clamped
        simp
      · simp only [Prod.mk.injEq] at clamped
        obtain ⟨⟨-, rfl⟩, -⟩ := clamped
        rw [toNat_rsMin]
        exact min_le_left _ _
  rw [UInt32.le_iff_toNat_le, UInt32.toNat_one] at single
  rw [UInt32.le_iff_toNat_le] at bounded
  rw [UInt32.lt_iff_toNat_lt, toNat_rsMax, UInt32.toNat_one] at ordered
  rw [← UInt32.toNat_inj, ← UInt32.toNat_inj, toNat_rsMax, UInt32.toNat_zero, UInt32.toNat_one]
  omega

theorem prepared_of_setup {mIsThreadable : Bool} {ain aout : Option LaunchAllocation}
    {sc : Option RsScriptCall} {error : Option String} (setup : forEachMtlsSetup mIsThreadable ain aout sc = (mtls, error))
    (threadable : mtls.isThreadable = true) : mtls.Prepared := by
  unfold forEachMtlsSetup at setup
  iterate 3
    split at setup
    · cases setup
      simp at threadable
  dsimp only at setup
  iterate 3
    split at setup
    · cases setup
      simp at threadable
  rename_i driving _ xKept yKept zKept
  cases setup
  rw [Bool.not_eq_true] at xKept yKept zKept
  exact {
    xRange := clampRange_lt (Prod.ext rfl xKept), yRange := clampRange_lt (Prod.ext rfl yKept)
    zRange := clampRange_lt (Prod.ext rfl zKept)
    singleRow := clampRange_single (Prod.ext rfl yKept)
    arrayRange := ⟨rfl, rfl⟩
    origin := ⟨rfl, rfl, rfl⟩ }

theorem sliceSize_pos {strideOut strideIn size : UInt32}
    (chosen : sliceSize mCount dim strideOut strideIn = some size) : 0 < size := by
  simp only [sliceSize] at chosen
  generalize (if strideOut ≠ 0 then strideOut else strideIn) = stride at chosen
  split at chosen
  · cases chosen
  · simp only [Option.some.injEq] at chosen
    rw [UInt32.lt_iff_toNat_lt, UInt32.toNat_zero, ← chosen]
    split
    · decide
    · rename_i large
      rw [UInt32.lt_iff_toNat_lt, UInt32.toNat_one] at large
      omega

/-- Slicing a launch only chooses `mSliceSize`. -/
theorem sliced_eq {sliced : MTLaunchStruct} (chosen : mtls.sliced mCount = some sliced) :
    0 < sliced.mSliceSize ∧ sliced = { mtls with mSliceSize := sliced.mSliceSize } := by
  simp only [MTLaunchStruct.sliced, Option.map_eq_some_iff] at chosen
  obtain ⟨size, chosen, rfl⟩ := chosen
  split at chosen <;> exact ⟨sliceSize_pos chosen, rfl⟩

theorem MTLaunchStruct.Prepared.sliced {sliced : MTLaunchStruct}
    (prepared : mtls.Prepared) (chosen : mtls.sliced mCount = some sliced) :
    sliced.Prepared := by
  rw [(sliced_eq chosen).2]
  exact { prepared with }

theorem callbackWorkers_pos (mtls : MTLaunchStruct) (mCount : UInt32) : 0 < mtls.callbackWorkers mCount := by
  rw [MTLaunchStruct.callbackWorkers]
  split <;> omega

/-!
## Slices
-/

theorem toNat_slice_start (start size : UInt32) (ticket : Nat) :
    (start + .ofNat ticket * size).toNat = first (2 ^ 32) start.toNat size.toNat ticket := by
  simp [first]

theorem toNat_slice_end (start stop size : UInt32) (ticket : Nat) : (rsMin (start + .ofNat ticket * size + size) stop).toNat =
      last (2 ^ 32) start.toNat stop.toNat size.toNat ticket := by
  rw [last, toNat_rsMin, UInt32.toNat_add, toNat_slice_start]

theorem slice_empty_iff (start stop size : UInt32) (ticket : Nat) :
    rsMin (start + .ofNat ticket * size + size) stop ≤ start + .ofNat ticket * size ↔
      isEmpty (2 ^ 32) start.toNat stop.toNat size.toNat ticket = true := by
  rw [UInt32.le_iff_toNat_le, toNat_slice_end, toNat_slice_start, isEmpty, decide_eq_true_iff]

theorem counter_slice (start stop size : UInt32) (ticket : Nat) :
    counter (start + .ofNat ticket * size) (rsMin (start + .ofNat ticket * size + size) stop) =
      (indices (2 ^ 32) start.toNat stop.toNat size.toNat ticket).map UInt32.ofNat := by
  rw [counter, toNat_slice_end, toNat_slice_start, indices]

theorem mem_counter : value ∈ counter start stop ↔ start ≤ value ∧ value < stop := by
  rw [counter, mem_map, UInt32.le_iff_toNat_le, UInt32.lt_iff_toNat_lt]
  constructor
  · rintro ⟨i, mem, rfl⟩
    have bounds := mem_range'_1.mp mem
    have small := stop.toNat_lt
    rw [UInt32.toNat_ofNat', Nat.mod_eq_of_lt (by omega)]
    omega
  · intro bounds
    refine ⟨value.toNat, ?_, UInt32.ofNat_toNat⟩
    rw [mem_range'_1]
    omega

theorem wc_xy_eq (mtls : MTLaunchStruct) (idx : UInt32) (ticket : Nat) : mtls.wc_xy idx (.ofNat ticket) =
      if isEmpty (2 ^ 32) mtls.yStart.toNat mtls.yEnd.toNat mtls.mSliceSize.toNat ticket then none
      else some ((indices (2 ^ 32) mtls.yStart.toNat mtls.yEnd.toNat mtls.mSliceSize.toNat
        ticket).map fun y => mtls.rowCall idx (.ofNat y)) := by
  simp only [MTLaunchStruct.wc_xy, slice_empty_iff, counter_slice, map_map]
  rfl

theorem wc_x_eq (mtls : MTLaunchStruct) (idx : UInt32) (ticket : Nat) : mtls.wc_x idx (.ofNat ticket) =
      if isEmpty (2 ^ 32) mtls.xStart.toNat mtls.xEnd.toNat mtls.mSliceSize.toNat ticket then none
      else some [mtls.columnCall idx (.ofNat (first (2 ^ 32) mtls.xStart.toNat mtls.mSliceSize.toNat ticket))
        (.ofNat (last (2 ^ 32) mtls.xStart.toNat mtls.xEnd.toNat mtls.mSliceSize.toNat ticket))] := by
  simp only [MTLaunchStruct.wc_x, slice_empty_iff]
  rw [← toNat_slice_start, ← toNat_slice_end, UInt32.ofNat_toNat, UInt32.ofNat_toNat]

section

variable {α : Type} (micro : OuterCall → List α)

theorem job_stop_rows (rows : mtls.fep.dimY > 1) (ticket : Nat) : (mtls.job micro).stop ticket =
      isEmpty (2 ^ 32) mtls.yStart.toNat mtls.yEnd.toNat mtls.mSliceSize.toNat ticket := by
  simp only [MTLaunchStruct.job, MTLaunchStruct.slice, rows, if_true, wc_xy_eq]
  split <;> simp_all

theorem job_work_rows (rows : mtls.fep.dimY > 1) (idx ticket : Nat) : (mtls.job micro).work idx ticket =
      (indices (2 ^ 32) mtls.yStart.toNat mtls.yEnd.toNat mtls.mSliceSize.toNat ticket).flatMap
        fun y => micro (mtls.rowCall (.ofNat idx) (.ofNat y)) := by
  simp only [MTLaunchStruct.job, MTLaunchStruct.slice, rows, if_true, wc_xy_eq]
  split
  · rename_i empty
    rw [indices_of_isEmpty empty]
    rfl
  · simp [flatMap_map]

theorem job_stop_columns (columns : ¬ mtls.fep.dimY > 1) (ticket : Nat) :
    (mtls.job micro).stop ticket = isEmpty (2 ^ 32) mtls.xStart.toNat mtls.xEnd.toNat mtls.mSliceSize.toNat ticket := by
  simp only [MTLaunchStruct.job, MTLaunchStruct.slice, columns, if_false, wc_x_eq]
  split <;> simp_all

theorem job_work_columns (columns : ¬ mtls.fep.dimY > 1) (idx ticket : Nat) :
    (mtls.job micro).work idx ticket = if isEmpty (2 ^ 32) mtls.xStart.toNat mtls.xEnd.toNat mtls.mSliceSize.toNat ticket then []
      else micro (mtls.columnCall (.ofNat idx) (.ofNat (first (2 ^ 32) mtls.xStart.toNat mtls.mSliceSize.toNat ticket))
        (.ofNat (last (2 ^ 32) mtls.xStart.toNat mtls.xEnd.toNat mtls.mSliceSize.toNat ticket))) := by
  simp only [MTLaunchStruct.job, MTLaunchStruct.slice, columns, if_false, wc_x_eq]
  split <;> simp

end

/-!
## Invocations of one launch
-/

private theorem toNat_lt_word (value : UInt32) : value.toNat < 2 ^ 32 := value.toNat_lt

/-- Invocations of the row a launch visits as row `y` of plane 0. -/
def MTLaunchStruct.rowInvocations (mtls : MTLaunchStruct) (y : Nat) : List Invocation :=
  (mtls.serialCall 0 0 (.ofNat y)).invocations

/-- The invocation on cell `x` of a single row, when its addresses are stepped
from column `base`. -/
def MTLaunchStruct.columnInvocation (mtls : MTLaunchStruct) (base x : Nat) : Invocation where
  x := .ofNat x
  y := 0
  z := 0
  ar0 := 0
  inPtr := mtls.fep.ptrIn + mtls.fep.eStrideIn.toNat * base % 2 ^ 32 +
    (x - base) * mtls.fep.eStrideIn.toNat
  outPtr := mtls.fep.ptrOut + mtls.fep.eStrideOut.toNat * base % 2 ^ 32 +
    (x - base) * mtls.fep.eStrideOut.toNat

theorem rowCall_invocations (prepared : mtls.Prepared) (idx : UInt32)
    (y : Nat) : (mtls.rowCall idx (.ofNat y)).invocations = mtls.rowInvocations y := by
  simp [MTLaunchStruct.rowInvocations, MTLaunchStruct.rowCall, MTLaunchStruct.serialCall, OuterCall.invocations, prepared.origin]

theorem columnCall_invocations (prepared : mtls.Prepared)
    (idx : UInt32) {first last : Nat} (begins : first < 2 ^ 32) (ends : last < 2 ^ 32) :
    (mtls.columnCall idx (.ofNat first) (.ofNat last)).invocations =
      (List.range' first (last - first)).map (mtls.columnInvocation first) := by
  simp only [OuterCall.invocations, MTLaunchStruct.columnCall, counter, map_map,
    UInt32.toNat_mul, UInt32.toNat_ofNat', Nat.mod_eq_of_lt begins, Nat.mod_eq_of_lt ends]
  refine map_congr_left fun x mem => ?_
  have small : x < 4294967296 := by
    have bounds := mem_range'_1.mp mem
    omega
  simp [MTLaunchStruct.columnInvocation, prepared.origin, Nat.mod_eq_of_lt small]

theorem counter_zero_one : counter 0 1 = [0] := rfl

theorem serialCalls_flat (prepared : mtls.Prepared) (flat : mtls.zStart = 0 ∧ mtls.zEnd = 1) :
    mtls.serialCalls = (List.range' mtls.yStart.toNat (mtls.yEnd.toNat - mtls.yStart.toNat)).map
        fun y => mtls.serialCall 0 0 (.ofNat y) := by
  simp only [MTLaunchStruct.serialCalls, prepared.arrayRange, flat, counter_zero_one, flatMap_cons, flatMap_nil, append_nil]
  rw [counter, map_map]
  rfl

theorem serialTrace_flat (prepared : mtls.Prepared) (flat : mtls.zStart = 0 ∧ mtls.zEnd = 1) :
    mtls.serialTrace OuterCall.invocations =
      (List.range' mtls.yStart.toNat (mtls.yEnd.toNat - mtls.yStart.toNat)).flatMap mtls.rowInvocations := by
  rw [MTLaunchStruct.serialTrace, serialCalls_flat prepared flat, flatMap_map]
  rfl

theorem serialTrace_single (prepared : mtls.Prepared) (flat : mtls.zStart = 0 ∧ mtls.zEnd = 1) (columns : ¬ mtls.fep.dimY > 1) :
    mtls.serialTrace OuterCall.invocations = (List.range' mtls.xStart.toNat (mtls.xEnd.toNat - mtls.xStart.toNat)).map
        (mtls.columnInvocation mtls.xStart.toNat) := by
  have single := prepared.singleRow (UInt32.not_lt.mp columns)
  rw [serialTrace_flat prepared flat, single.1, single.2]
  simp only [UInt32.toNat_zero, UInt32.toNat_one, Nat.sub_zero, range'_one, flatMap_cons, flatMap_nil, append_nil]
  simp only [MTLaunchStruct.rowInvocations, OuterCall.invocations, MTLaunchStruct.serialCall, counter, map_map]
  refine map_congr_left fun x mem => ?_
  have small : x < 4294967296 := by
    have bounds := mem_range'_1.mp mem
    have word := toNat_lt_word mtls.xEnd
    omega
  simp [MTLaunchStruct.columnInvocation, Nat.mod_eq_of_lt small]

theorem z_of_mem_work (prepared : mtls.Prepared) {idx : Nat} {invocation : Invocation}
    (mem : invocation ∈ (mtls.job OuterCall.invocations).work idx ticket) :
    invocation.z = 0 := by
  obtain ⟨call, issued, invoked⟩ := mem_flatMap.mp mem
  have plane : call.p.z = 0 := by
    rw [← prepared.origin.2.1]
    rw [MTLaunchStruct.slice] at issued
    split at issued
    · rw [wc_xy_eq] at issued
      split at issued
      · simp at issued
      · obtain ⟨y, -, rfl⟩ := mem_map.mp issued
        rfl
    · rw [wc_x_eq] at issued
      split at issued
      · simp at issued
      · rw [Option.getD_some, mem_singleton] at issued
        rw [issued]
        rfl
  obtain ⟨x, -, rfl⟩ := mem_map.mp invoked
  exact plane

/-!
## Slices of a launch as library slices
-/

private theorem counter_eq_cons (ne : start < stop) : ∃ rest, counter start stop = start :: rest ∧ start ∉ rest := by
  rw [UInt32.lt_iff_toNat_lt] at ne
  obtain ⟨count, countEq⟩ : ∃ count, stop.toNat - start.toNat = count + 1 := ⟨stop.toNat - start.toNat - 1, by omega⟩
  refine ⟨(List.range' (start.toNat + 1) count).map UInt32.ofNat, ?_, ?_⟩
  · simp [counter, countEq, range'_succ]
  · intro mem
    obtain ⟨i, inside, eq⟩ := mem_map.mp mem
    have bounds := mem_range'_1.mp inside
    have word := toNat_lt_word stop
    have sameValue := congrArg UInt32.toNat eq
    rw [UInt32.toNat_ofNat', Nat.mod_eq_of_lt (by omega)] at sameValue
    omega

def MTLaunchStruct.rowIndex (mtls : MTLaunchStruct) (invocation : Invocation) : Option Nat :=
  if invocation.x = mtls.xStart then some invocation.y.toNat else none

theorem filterMap_rowIndex (prepared : mtls.Prepared)
    (small : y < 2 ^ 32) : (mtls.rowInvocations y).filterMap mtls.rowIndex = [y] := by
  obtain ⟨rest, split, fresh⟩ := counter_eq_cons prepared.xRange
  simp only [MTLaunchStruct.rowInvocations, OuterCall.invocations, MTLaunchStruct.serialCall,
    split, map_cons, filterMap_cons, MTLaunchStruct.rowIndex, if_true,
    UInt32.toNat_ofNat', Nat.mod_eq_of_lt small, cons.injEq, true_and]
  rw [filterMap_map, filterMap_eq_nil_iff]
  intro x mem
  have ne : x ≠ mtls.xStart := fun eq => fresh (eq ▸ mem)
  simp [MTLaunchStruct.rowIndex, if_neg ne]

private theorem filterMap_rows (prepared : mtls.Prepared) {rows : List Nat} (small : ∀ y ∈ rows, y < 2 ^ 32) :
    (rows.flatMap mtls.rowInvocations).filterMap mtls.rowIndex = rows := by
  induction rows with
  | nil => rfl
  | cons y rest ih =>
    rw [flatMap_cons, filterMap_append, filterMap_rowIndex prepared (small y mem_cons_self),
      ih fun other mem => small other (mem_cons_of_mem y mem)]
    rfl

private theorem lt_word_of_mem_indices {start size index : Nat}
    (mem : index ∈ indices (2 ^ 32) start stop.toNat size slice) : index < 2 ^ 32 := by
  have lt : last (2 ^ 32) start stop.toNat size slice ≤ stop.toNat := min_le_right _ _
  have bounds := mem_indices_iff.mp mem
  have word := toNat_lt_word stop
  omega

theorem slicing_rows (prepared : mtls.Prepared) (rows : mtls.fep.dimY > 1) :
    Slicing (2 ^ 32) mtls.yStart.toNat mtls.yEnd.toNat mtls.mSliceSize.toNat mtls.rowIndex (mtls.job OuterCall.invocations) where
  stops := job_stop_rows _ rows
  uniform := by
    intro worker ticket
    simp [job_work_rows _ rows, rowCall_invocations prepared]
  reads := by
    intro ticket
    simp only [job_work_rows _ rows, rowCall_invocations prepared]
    exact filterMap_rows prepared fun y mem => lt_word_of_mem_indices mem

theorem job_work_invocations (prepared : mtls.Prepared) (columns : ¬ mtls.fep.dimY > 1) (worker ticket : Nat) :
    (mtls.job OuterCall.invocations).work worker ticket =
      (indices (2 ^ 32) mtls.xStart.toNat mtls.xEnd.toNat mtls.mSliceSize.toNat ticket).map
        (mtls.columnInvocation (first (2 ^ 32) mtls.xStart.toNat mtls.mSliceSize.toNat ticket)) := by
  rw [job_work_columns _ columns]
  split
  · rename_i empty
    rw [indices_of_isEmpty empty, map_nil]
  · have lt : last (2 ^ 32) mtls.xStart.toNat mtls.xEnd.toNat mtls.mSliceSize.toNat ticket ≤
        mtls.xEnd.toNat := min_le_right _ _
    have word := toNat_lt_word mtls.xEnd
    have begins : first (2 ^ 32) mtls.xStart.toNat mtls.mSliceSize.toNat ticket < 2 ^ 32 := Nat.mod_lt _ (by decide)
    rw [columnCall_invocations prepared _ begins (by omega)]
    rfl

/-!
## Agreement of the two branches
-/

/-- Byte offsets of two columns lose the same multiple of `2 ^ 32`. -/
def SamePage (stride : UInt32) (column later : Nat) : Prop :=
  stride.toNat * later / 2 ^ 32 = stride.toNat * column / 2 ^ 32

instance (stride : UInt32) (column later : Nat) : Decidable (SamePage stride column later) :=
  inferInstanceAs (Decidable (_ = _))

def MTLaunchStruct.lastColumn (mtls : MTLaunchStruct) : Nat :=
  mtls.xStart.toNat +
    (needed mtls.xStart.toNat mtls.xEnd.toNat mtls.mSliceSize.toNat - 1) *
      mtls.mSliceSize.toNat

/-- No slice that the workers draw wraps back into the range. Where slices are
runs of columns, the offset of the last one must not lose more than that of the
first. -/
def MTLaunchStruct.Covers (mtls : MTLaunchStruct) (workers : Nat) : Prop :=
  if mtls.fep.dimY > 1 then
    Unwrapped (2 ^ 32) mtls.yStart.toNat mtls.yEnd.toNat mtls.mSliceSize.toNat workers
  else
    Unwrapped (2 ^ 32) mtls.xStart.toNat mtls.xEnd.toNat mtls.mSliceSize.toNat workers ∧
      ∀ stride ∈ [mtls.fep.eStrideIn, mtls.fep.eStrideOut],
        SamePage stride mtls.xStart.toNat mtls.lastColumn

instance (mtls : MTLaunchStruct) (workers : Nat) : Decidable (mtls.Covers workers) :=
  inferInstanceAs (Decidable (if mtls.fep.dimY > 1 then _ else _))

/-- The launch lies in plane 0, the slice size exists, and the slices cover. -/
def MTLaunchStruct.Agrees (mtls : MTLaunchStruct) (mCount : UInt32) : Prop :=
  (mtls.zStart = 0 ∧ mtls.zEnd = 1) ∧
    ∃ sliced ∈ mtls.sliced mCount, sliced.Covers (sliced.callbackWorkers mCount)

instance (mtls : MTLaunchStruct) (mCount : UInt32) : Decidable (mtls.Agrees mCount) :=
  inferInstanceAs (Decidable (_ ∧ _))

theorem serialTrace_sliced (micro : OuterCall → List α) {sliced : MTLaunchStruct} (chosen : mtls.sliced mCount = some sliced) :
    sliced.serialTrace micro = mtls.serialTrace micro := by
  rw [(sliced_eq chosen).2]
  rfl

theorem mem_serialTrace_z (prepared : mtls.Prepared) (inside : mtls.zStart ≤ z ∧ z < mtls.zEnd) :
    ∃ invocation ∈ mtls.serialTrace OuterCall.invocations, invocation.z = z := by
  have call : mtls.serialCall 0 z mtls.yStart ∈ mtls.serialCalls := by
    simp only [MTLaunchStruct.serialCalls, mem_flatMap, mem_map]
    refine ⟨0, ?_, z, mem_counter.mpr inside, mtls.yStart, ?_, rfl⟩
    · simp [prepared.arrayRange, counter_zero_one]
    · exact mem_counter.mpr ⟨UInt32.le_refl _, prepared.yRange⟩
  obtain ⟨rest, split, -⟩ := counter_eq_cons prepared.xRange
  refine ⟨_, mem_flatMap.mpr ⟨_, call, mem_map_of_mem (a := mtls.xStart) ?_⟩, rfl⟩
  change mtls.xStart ∈ counter mtls.xStart mtls.xEnd
  simp [split]

theorem flat_of_perm (prepared : mtls.Prepared) (completes : TicketPool.Completes (mtls.job OuterCall.invocations) workers trace)
    (same : trace ~ mtls.serialTrace OuterCall.invocations) :
    mtls.zStart = 0 ∧ mtls.zEnd = 1 := by
  have plane : ∀ z, mtls.zStart ≤ z → z < mtls.zEnd → z = 0 := by
    intro z lower upper
    obtain ⟨invocation, mem, rfl⟩ := mem_serialTrace_z prepared ⟨lower, upper⟩
    obtain ⟨worker, ticket, done⟩ := completes.exists_of_mem (same.mem_iff.mpr mem)
    exact z_of_mem_work prepared done
  have start := plane mtls.zStart (UInt32.le_refl _) prepared.zRange
  refine ⟨start, ?_⟩
  by_contra deeper
  have range := prepared.zRange
  rw [start, UInt32.lt_iff_toNat_lt, UInt32.toNat_zero] at range
  have one := plane 1
  rw [start, UInt32.le_iff_toNat_le, UInt32.lt_iff_toNat_lt, UInt32.toNat_zero, UInt32.toNat_one] at one
  rw [← UInt32.toNat_inj, UInt32.toNat_one] at deeper
  have wrong := one (by omega) (by omega)
  simp at wrong

theorem rows_tile (prepared : mtls.Prepared) (flat : mtls.zStart = 0 ∧ mtls.zEnd = 1) (rows : mtls.fep.dimY > 1)
    (pos : 0 < mtls.mSliceSize.toNat)
    (ordered : InOrder (2 ^ 32) mtls.yStart.toNat mtls.yEnd.toNat mtls.mSliceSize.toNat workers) :
    (List.range (needed mtls.yStart.toNat mtls.yEnd.toNat mtls.mSliceSize.toNat)).flatMap
      ((mtls.job OuterCall.invocations).work 0) = mtls.serialTrace OuterCall.invocations := by
  have room := ordered.room pos (UInt32.lt_iff_toNat_lt.mp prepared.yRange)
    (toNat_lt_word mtls.yEnd) (toNat_lt_word mtls.mSliceSize)
  rw [serialTrace_flat prepared flat, ← flatMap_indices_needed pos room, flatMap_assoc]
  refine flatMap_congr fun ticket _ => ?_
  simp [job_work_rows _ rows, rowCall_invocations prepared]

theorem rows_perm_iff (prepared : mtls.Prepared) (flat : mtls.zStart = 0 ∧ mtls.zEnd = 1) (rows : mtls.fep.dimY > 1)
    (pos : 0 < mtls.mSliceSize) (some : 0 < workers)
    (completes : TicketPool.Completes (mtls.job OuterCall.invocations) workers trace) :
    trace ~ mtls.serialTrace OuterCall.invocations ↔
      Unwrapped (2 ^ 32) mtls.yStart.toNat mtls.yEnd.toNat mtls.mSliceSize.toNat workers := by
  have slicing := slicing_rows prepared rows
  have ne := UInt32.lt_iff_toNat_lt.mp prepared.yRange
  rw [UInt32.lt_iff_toNat_lt, UInt32.toNat_zero] at pos
  have inside := toNat_lt_word mtls.yEnd
  have small := toNat_lt_word mtls.mSliceSize
  rw [← inOrder_iff_unwrapped pos ne inside small]
  constructor
  · intro eq
    by_contra disordered
    rw [serialTrace_flat prepared flat] at eq
    refine slicing.not_perm_of_not_inOrder pos ne inside small some disordered completes ?_
    have read := eq.filterMap mtls.rowIndex
    rwa [filterMap_rows prepared] at read
    intro y mem
    have bounds := mem_range'_1.mp mem
    omega
  · intro ordered
    rw [← rows_tile prepared flat rows pos ordered]
    exact slicing.perm_of_inOrder some ordered completes

/-- Stepping addresses from a later column gives the same addresses exactly when
its offset lost no more than that of the earlier column. -/
theorem stepped_offset_eq_iff (stride : UInt32) (ordered : column ≤ later) (inside : later ≤ x) (address : Nat) :
    address + stride.toNat * later % 2 ^ 32 + (x - later) * stride.toNat =
        address + stride.toNat * column % 2 ^ 32 + (x - column) * stride.toNat ↔
      SamePage stride column later := by
  have split : (x - column) * stride.toNat = (x - later) * stride.toNat + (later - column) * stride.toNat := by
    rw [← add_mul]
    congr 1
    omega
  have product : stride.toNat * later = stride.toNat * column + (later - column) * stride.toNat := by
    rw [mul_comm (later - column), ← mul_add]
    congr 1
    omega
  rw [SamePage, split]
  omega

theorem samePage_of_le (lower : column ≤ middle) (upper : middle ≤ later) (same : SamePage stride column later) :
    SamePage stride column middle := by
  have lt : stride.toNat * column / 2 ^ 32 ≤ stride.toNat * middle / 2 ^ 32 :=
    Nat.div_le_div_right (Nat.mul_le_mul_left _ lower)
  have above : stride.toNat * middle / 2 ^ 32 ≤ stride.toNat * later / 2 ^ 32 :=
    Nat.div_le_div_right (Nat.mul_le_mul_left _ upper)
  rw [SamePage] at same ⊢
  omega

theorem columnInvocation_eq_iff (mtls : MTLaunchStruct) (ordered : column ≤ later) (inside : later ≤ x) :
    mtls.columnInvocation later x = mtls.columnInvocation column x ↔
      ∀ stride ∈ [mtls.fep.eStrideIn, mtls.fep.eStrideOut], SamePage stride column later := by
  simp only [MTLaunchStruct.columnInvocation, Invocation.mk.injEq, true_and,
    stepped_offset_eq_iff _ ordered inside, forall_mem_cons, not_mem_nil,
    false_imp_iff, implies_true, and_true]

section

variable {mtls : MTLaunchStruct} {workers base : Nat} {trace : List Invocation}

private theorem first_le_lastColumn
    (room : mtls.xStart.toNat + needed mtls.xStart.toNat mtls.xEnd.toNat mtls.mSliceSize.toNat * mtls.mSliceSize.toNat < 2 ^ 32)
    (inside : slice < needed mtls.xStart.toNat mtls.xEnd.toNat mtls.mSliceSize.toNat) :
    first (2 ^ 32) mtls.xStart.toNat mtls.mSliceSize.toNat slice = mtls.xStart.toNat + slice * mtls.mSliceSize.toNat ∧
      mtls.xStart.toNat + slice * mtls.mSliceSize.toNat ≤ mtls.lastColumn := by
  have before : slice * mtls.mSliceSize.toNat ≤
      needed mtls.xStart.toNat mtls.xEnd.toNat mtls.mSliceSize.toNat * mtls.mSliceSize.toNat :=
    Nat.mul_le_mul_right _ (by omega)
  have ordered : slice * mtls.mSliceSize.toNat ≤ (needed mtls.xStart.toNat mtls.xEnd.toNat mtls.mSliceSize.toNat - 1) *
        mtls.mSliceSize.toNat :=
    Nat.mul_le_mul_right _ (by omega)
  exact ⟨first_of_lt (by omega), Nat.add_le_add_left ordered _⟩

private theorem filterMap_columns {columns : List Nat} (small : ∀ x ∈ columns, x < 2 ^ 32) :
    (columns.map (mtls.columnInvocation base)).filterMap (fun invocation => some invocation.x.toNat) = columns := by
  rw [filterMap_map]
  refine (filterMap_congr fun x mem => ?_).trans filterMap_some
  simp only [Function.comp_apply, MTLaunchStruct.columnInvocation, UInt32.toNat_ofNat', Nat.mod_eq_of_lt (small x mem)]

theorem slicing_columns (prepared : mtls.Prepared) (columns : ¬ mtls.fep.dimY > 1) :
    Slicing (2 ^ 32) mtls.xStart.toNat mtls.xEnd.toNat mtls.mSliceSize.toNat
      (fun invocation => some invocation.x.toNat) (mtls.job OuterCall.invocations) where
  stops := job_stop_columns _ columns
  uniform := by
    intro worker ticket
    simp [job_work_invocations prepared columns]
  reads := by
    intro ticket
    rw [job_work_invocations prepared columns]
    exact filterMap_columns fun x mem => lt_word_of_mem_indices mem

theorem samePage_of_perm (prepared : mtls.Prepared)
    (columns : ¬ mtls.fep.dimY > 1) (pos : 0 < mtls.mSliceSize.toNat) (some : 0 < workers)
    (ordered : InOrder (2 ^ 32) mtls.xStart.toNat mtls.xEnd.toNat mtls.mSliceSize.toNat workers)
    (completes : TicketPool.Completes (mtls.job OuterCall.invocations) workers trace)
    (same : trace ~ (List.range' mtls.xStart.toNat (mtls.xEnd.toNat - mtls.xStart.toNat)).map
      (mtls.columnInvocation mtls.xStart.toNat)) :
    ∀ stride ∈ [mtls.fep.eStrideIn, mtls.fep.eStrideOut], SamePage stride mtls.xStart.toNat mtls.lastColumn := by
  have ne := UInt32.lt_iff_toNat_lt.mp prepared.xRange
  have inside := toNat_lt_word mtls.xEnd
  have room := ordered.room pos ne inside (toNat_lt_word mtls.mSliceSize)
  have many := needed_pos pos ne
  obtain ⟨final, finalEq⟩ : ∃ final, final = needed mtls.xStart.toNat mtls.xEnd.toNat mtls.mSliceSize.toNat - 1 := ⟨_, rfl⟩
  have early : final < needed mtls.xStart.toNat mtls.xEnd.toNat mtls.mSliceSize.toNat := by
    omega
  have begins : first (2 ^ 32) mtls.xStart.toNat mtls.mSliceSize.toNat final =
      mtls.lastColumn := by
    rw [(first_le_lastColumn room early).1, finalEq, MTLaunchStruct.lastColumn]
  have working := ordered final (by omega)
  rw [decide_eq_false (by omega), isEmpty, decide_eq_false_iff_not, not_le] at working
  have taken := mem_indices_iff.mpr ⟨le_refl _, working⟩
  have small := lt_word_of_mem_indices taken
  have work : mtls.columnInvocation mtls.lastColumn mtls.lastColumn ∈ (mtls.job OuterCall.invocations).work 0 final := by
    rw [job_work_invocations prepared columns, begins]
    exact mem_map_of_mem (begins ▸ taken)
  have done := (slicing_columns prepared columns).perm_of_inOrder some ordered completes
  have invoked := (done.symm.trans same).mem_iff.mp (mem_flatMap.mpr ⟨final, mem_range.mpr early, work⟩)
  obtain ⟨x, mem, found⟩ := mem_map.mp invoked
  have bounds := mem_range'_1.mp mem
  have sameColumn : x = mtls.lastColumn := by
    have sameValue := congrArg (fun invocation => invocation.x.toNat) found
    rw [begins] at small
    simpa only [MTLaunchStruct.columnInvocation, UInt32.toNat_ofNat',
      Nat.mod_eq_of_lt (by omega : x < 2 ^ 32), Nat.mod_eq_of_lt small] using sameValue
  rw [sameColumn] at found
  have later : mtls.xStart.toNat ≤ mtls.lastColumn := by omega
  exact (columnInvocation_eq_iff mtls later (le_refl _)).mp found.symm

theorem columns_tile (prepared : mtls.Prepared) (flat : mtls.zStart = 0 ∧ mtls.zEnd = 1) (columns : ¬ mtls.fep.dimY > 1)
    (pos : 0 < mtls.mSliceSize.toNat)
    (ordered : InOrder (2 ^ 32) mtls.xStart.toNat mtls.xEnd.toNat mtls.mSliceSize.toNat workers)
    (pages : ∀ stride ∈ [mtls.fep.eStrideIn, mtls.fep.eStrideOut], SamePage stride mtls.xStart.toNat mtls.lastColumn) :
    (List.range (needed mtls.xStart.toNat mtls.xEnd.toNat mtls.mSliceSize.toNat)).flatMap
      ((mtls.job OuterCall.invocations).work 0) = mtls.serialTrace OuterCall.invocations := by
  have room := ordered.room pos (UInt32.lt_iff_toNat_lt.mp prepared.xRange)
    (toNat_lt_word mtls.xEnd) (toNat_lt_word mtls.mSliceSize)
  rw [serialTrace_single prepared flat columns, ← flatMap_indices_needed pos room, map_flatMap]
  refine flatMap_congr fun ticket mem => ?_
  obtain ⟨begins, before⟩ := first_le_lastColumn room (mem_range.mp mem)
  rw [job_work_invocations prepared columns]
  refine map_congr_left fun x taken => ?_
  have bounds := mem_indices_iff.mp taken
  refine (columnInvocation_eq_iff mtls (by omega) bounds.1).mpr fun stride listed => ?_
  rw [begins]
  exact samePage_of_le (by omega) before (pages stride listed)

theorem columns_perm_iff (prepared : mtls.Prepared) (flat : mtls.zStart = 0 ∧ mtls.zEnd = 1) (columns : ¬ mtls.fep.dimY > 1)
    (pos : 0 < mtls.mSliceSize) (some : 0 < workers)
    (completes : TicketPool.Completes (mtls.job OuterCall.invocations) workers trace) :
    trace ~ mtls.serialTrace OuterCall.invocations ↔
      Unwrapped (2 ^ 32) mtls.xStart.toNat mtls.xEnd.toNat mtls.mSliceSize.toNat workers ∧
        ∀ stride ∈ [mtls.fep.eStrideIn, mtls.fep.eStrideOut], SamePage stride mtls.xStart.toNat mtls.lastColumn := by
  have slicing := slicing_columns prepared columns
  have ne := UInt32.lt_iff_toNat_lt.mp prepared.xRange
  rw [UInt32.lt_iff_toNat_lt, UInt32.toNat_zero] at pos
  have inside := toNat_lt_word mtls.xEnd
  have small := toNat_lt_word mtls.mSliceSize
  rw [← inOrder_iff_unwrapped pos ne inside small]
  constructor
  · intro eq
    rw [serialTrace_single prepared flat columns] at eq
    have ordered : InOrder (2 ^ 32) mtls.xStart.toNat mtls.xEnd.toNat mtls.mSliceSize.toNat
        workers := by
      by_contra disordered
      refine slicing.not_perm_of_not_inOrder pos ne inside small some disordered completes ?_
      have read := eq.filterMap fun invocation => Option.some invocation.x.toNat
      rwa [filterMap_columns] at read
      intro x mem
      have bounds := mem_range'_1.mp mem
      omega
    exact ⟨ordered, samePage_of_perm prepared columns pos some ordered completes eq⟩
  · intro covered
    rw [← columns_tile prepared flat columns pos covered.1 covered.2]
    exact slicing.perm_of_inOrder some covered.1 completes

end

theorem perm_serial_iff_covers (prepared : mtls.Prepared)
    (flat : mtls.zStart = 0 ∧ mtls.zEnd = 1) (pos : 0 < mtls.mSliceSize) (some : 0 < workers)
    (completes : TicketPool.Completes (mtls.job OuterCall.invocations) workers trace) :
    trace ~ mtls.serialTrace OuterCall.invocations ↔ mtls.Covers workers := by
  rw [MTLaunchStruct.Covers]
  split
  · rename_i rows
    exact rows_perm_iff prepared flat rows pos some completes
  · rename_i cols
    exact columns_perm_iff prepared flat cols pos some completes

/-!
## Launches with other steps
-/

def MTLaunchStruct.useful (mtls : MTLaunchStruct) : Nat :=
  if mtls.fep.dimY > 1 then
    needed mtls.yStart.toNat mtls.yEnd.toNat mtls.mSliceSize.toNat
  else needed mtls.xStart.toNat mtls.xEnd.toNat mtls.mSliceSize.toNat

section

variable {α : Type} {micro : OuterCall → List α} {mtls : MTLaunchStruct} {workers : Nat}

theorem exists_completes_job (pos : 0 < mtls.mSliceSize) (workers : Nat) :
    ∃ trace, TicketPool.Completes (mtls.job micro) workers trace := by
  have small := toNat_lt_word mtls.mSliceSize
  refine TicketPool.exists_completes workers fun ticket => ?_
  by_cases rows : mtls.fep.dimY > 1
  · simp only [job_stop_rows micro rows]
    exact exists_isEmpty_ge pos small ticket
  · simp only [job_stop_columns micro rows]
    exact exists_isEmpty_ge pos small ticket

theorem MTLaunchStruct.Covers.stop_eq (prepared : mtls.Prepared) (pos : 0 < mtls.mSliceSize)
    (covers : mtls.Covers workers) (drawn : ticket < mtls.useful + workers) :
    (mtls.job micro).stop ticket = decide (mtls.useful ≤ ticket) := by
  have small := toNat_lt_word mtls.mSliceSize
  unfold MTLaunchStruct.Covers at covers
  unfold MTLaunchStruct.useful at drawn ⊢
  split at covers
  · rename_i rows
    rw [if_pos rows] at drawn ⊢
    rw [job_stop_rows micro rows]
    exact (inOrder_iff_unwrapped pos (UInt32.lt_iff_toNat_lt.mp prepared.yRange)
      (toNat_lt_word mtls.yEnd) small).mpr covers ticket drawn
  · rename_i cols
    rw [if_neg cols] at drawn ⊢
    rw [job_stop_columns micro cols]
    exact (inOrder_iff_unwrapped pos (UInt32.lt_iff_toNat_lt.mp prepared.xRange)
      (toNat_lt_word mtls.xEnd) small).mpr covers.1 ticket drawn

theorem MTLaunchStruct.Covers.tickets (prepared : mtls.Prepared) (pos : 0 < mtls.mSliceSize)
    (covers : mtls.Covers workers) (micro : OuterCall → List α) :
    (∀ ticket, ticket < mtls.useful → (mtls.job micro).stop ticket = false) ∧
      ∀ ticket, mtls.useful ≤ ticket → ticket < mtls.useful + workers → (mtls.job micro).stop ticket = true := by
  constructor
  · intro ticket early
    rw [covers.stop_eq prepared pos (by omega), decide_eq_false (by omega)]
  · intro ticket late drawn
    rw [covers.stop_eq prepared pos drawn, decide_eq_true late]

theorem MTLaunchStruct.Covers.tile (prepared : mtls.Prepared)
    (flat : mtls.zStart = 0 ∧ mtls.zEnd = 1) (pos : 0 < mtls.mSliceSize) (covers : mtls.Covers workers) :
    (List.range mtls.useful).flatMap ((mtls.job OuterCall.invocations).work 0) = mtls.serialTrace OuterCall.invocations := by
  have small := toNat_lt_word mtls.mSliceSize
  unfold MTLaunchStruct.Covers at covers
  unfold MTLaunchStruct.useful
  split at covers
  · rename_i rows
    rw [if_pos rows]
    exact rows_tile prepared flat rows pos ((inOrder_iff_unwrapped pos
      (UInt32.lt_iff_toNat_lt.mp prepared.yRange) (toNat_lt_word mtls.yEnd) small).mpr covers)
  · rename_i cols
    rw [if_neg cols]
    exact columns_tile prepared flat cols pos ((inOrder_iff_unwrapped pos
      (UInt32.lt_iff_toNat_lt.mp prepared.xRange) (toNat_lt_word mtls.xEnd) small).mpr covers.1)
      covers.2

def MTLaunchStruct.StepsBy (mtls : MTLaunchStruct) (micro : OuterCall → List α)
    (step : Invocation → α) : Prop :=
  ∀ call : OuterCall, call.instep = mtls.fep.eStrideIn → call.outstep = mtls.fep.eStrideOut →
    micro call = call.invocations.map step

variable {step : Invocation → α}

theorem MTLaunchStruct.StepsBy.work_eq (steps : mtls.StepsBy micro step)
    (idx ticket : Nat) : (mtls.job micro).work idx ticket = ((mtls.job OuterCall.invocations).work idx ticket).map step := by
  by_cases rows : mtls.fep.dimY > 1
  · rw [job_work_rows micro rows, job_work_rows _ rows, map_flatMap]
    exact flatMap_congr fun y _ => steps _ rfl rfl
  · rw [job_work_columns micro rows, job_work_columns _ rows]
    split
    · rfl
    · exact steps _ rfl rfl

theorem MTLaunchStruct.StepsBy.serialTrace_eq (steps : mtls.StepsBy micro step) :
    mtls.serialTrace micro = (mtls.serialTrace OuterCall.invocations).map step := by
  rw [MTLaunchStruct.serialTrace, MTLaunchStruct.serialTrace, map_flatMap]
  refine flatMap_congr fun call mem => ?_
  simp only [MTLaunchStruct.serialCalls, mem_flatMap, mem_map] at mem
  obtain ⟨ar, -, z, -, y, -, rfl⟩ := mem
  exact steps _ rfl rfl

theorem MTLaunchStruct.Covers.perm_serialTrace (prepared : mtls.Prepared)
    (flat : mtls.zStart = 0 ∧ mtls.zEnd = 1) (pos : 0 < mtls.mSliceSize) (some : 0 < workers) (covers : mtls.Covers workers)
    (steps : mtls.StepsBy micro step) {trace : List α} (completes : TicketPool.Completes (mtls.job micro) workers trace) :
    trace ~ mtls.serialTrace micro := by
  have uniform : ∀ worker ticket, (mtls.job micro).work worker ticket = (mtls.job micro).work 0 ticket := by
    intro worker ticket
    rw [steps.work_eq, steps.work_eq]
    congr 1
    by_cases rows : mtls.fep.dimY > 1
    · exact (slicing_rows prepared rows).uniform worker ticket
    · exact (slicing_columns prepared rows).uniform worker ticket
  obtain ⟨continues, stops⟩ := covers.tickets prepared pos micro
  have performed := completes.perm_range some uniform continues stops
  rw [steps.serialTrace_eq, ← covers.tile prepared flat pos, map_flatMap]
  refine performed.trans (.of_eq (flatMap_congr fun ticket _ => ?_))
  exact steps.work_eq 0 ticket

end

section

variable {mIsThreadable : Bool} {ain aout : Option LaunchAllocation} {sc : Option RsScriptCall}
  {mtls : MTLaunchStruct} {error : Option String} {mCount : UInt32}

theorem launchThreads_eq_threadedRun {micro : OuterCall → List α} {trace : List α}
    (threadable : mtls.isThreadable = true) (workers : 1 ≤ mCount) :
    mtls.LaunchThreads micro mCount false trace ↔ mtls.ThreadedRun micro mCount trace := by
  rw [MTLaunchStruct.LaunchThreads, if_pos ⟨workers, threadable, by decide⟩]

/-- The threaded branch has a schedule that completes, and every such schedule
makes exactly the invocations of the serial branch, if and only if `Agrees`. -/
theorem launchThreads_perm_serial_iff (setup : forEachMtlsSetup mIsThreadable ain aout sc = (mtls, error))
    (threadable : mtls.isThreadable = true) (workers : 1 ≤ mCount) :
    ((∃ trace, mtls.LaunchThreads OuterCall.invocations mCount false trace) ∧
        ∀ trace, mtls.LaunchThreads OuterCall.invocations mCount false trace → trace ~ mtls.serialTrace OuterCall.invocations) ↔
      mtls.Agrees mCount := by
  have prepared := prepared_of_setup setup threadable
  simp only [launchThreads_eq_threadedRun threadable workers]
  constructor
  · rintro ⟨⟨trace, sliced, chosen, completes⟩, matched⟩
    have eq := matched trace ⟨sliced, chosen, completes⟩
    rw [← serialTrace_sliced _ chosen] at eq
    have ready := prepared.sliced chosen
    have flat := flat_of_perm ready completes eq
    refine ⟨by rwa [(sliced_eq chosen).2] at flat, sliced, chosen, ?_⟩
    exact (perm_serial_iff_covers ready flat (sliced_eq chosen).1 (callbackWorkers_pos sliced mCount) completes).mp eq
  · rintro ⟨flat, sliced, chosen, covers⟩
    have ready := prepared.sliced chosen
    have pos := (sliced_eq chosen).1
    constructor
    · obtain ⟨trace, completes⟩ := exists_completes_job pos (sliced.callbackWorkers mCount)
      exact ⟨trace, sliced, chosen, completes⟩
    · rintro trace ⟨again, chosenAgain, completes⟩
      obtain rfl : again = sliced := Option.some.inj (chosenAgain.symm.trans chosen)
      rw [← serialTrace_sliced _ chosen]
      exact (perm_serial_iff_covers ready (by rwa [(sliced_eq chosen).2]) pos
        (callbackWorkers_pos again mCount) completes).mpr covers

end

private def wordCells (dimX dimY dimZ : UInt32) : LaunchAllocation where
  mallocPtr := 4096
  stride := 16
  dimX := dimX
  dimY := dimY
  dimZ := dimZ
  elementSizeBytes := 4

private def outputLaunch (dimX dimY dimZ : UInt32) : MTLaunchStruct :=
  (forEachMtlsSetup true none (some (wordCells dimX dimY dimZ)) none).1

private theorem outputLaunch_setup (dimX dimY dimZ : UInt32) :
    forEachMtlsSetup true none (some (wordCells dimX dimY dimZ)) none = (outputLaunch dimX dimY dimZ, none) := rfl

theorem launchThreads_perm_serial_plane : (∃ trace, (outputLaunch 4 3 0).LaunchThreads OuterCall.invocations 1 false trace) ∧
      ∀ trace, (outputLaunch 4 3 0).LaunchThreads OuterCall.invocations 1 false trace →
        trace ~ (outputLaunch 4 3 0).serialTrace OuterCall.invocations :=
  (launchThreads_perm_serial_iff (outputLaunch_setup 4 3 0) rfl (by decide)).mpr (by decide)

section

variable {mIsThreadable : Bool} {ain aout : Option LaunchAllocation} {sc : Option RsScriptCall}
  {mtls : MTLaunchStruct} {error : Option String} {mCount : UInt32}

theorem threadedRun_not_perm_of_deep (setup : forEachMtlsSetup mIsThreadable ain aout sc = (mtls, error))
    (threadable : mtls.isThreadable = true) (deep : ¬ (mtls.zStart = 0 ∧ mtls.zEnd = 1))
    (run : mtls.ThreadedRun OuterCall.invocations mCount trace) :
    ¬ (trace ~ mtls.serialTrace OuterCall.invocations) := by
  obtain ⟨sliced, chosen, completes⟩ := run
  intro eq
  rw [← serialTrace_sliced _ chosen] at eq
  have flat := flat_of_perm ((prepared_of_setup setup threadable).sliced chosen) completes eq
  rw [(sliced_eq chosen).2] at flat
  exact deep flat

end

/-- Two rows in two planes: the rows of the second plane are never visited. -/
theorem launchThreads_misses_second_plane : (∃ trace, (outputLaunch 1 2 2).LaunchThreads OuterCall.invocations 1 false trace) ∧
      ∀ trace, (outputLaunch 1 2 2).LaunchThreads OuterCall.invocations 1 false trace →
        ¬ (trace ~ (outputLaunch 1 2 2).serialTrace OuterCall.invocations) := by
  have setup := outputLaunch_setup 1 2 2
  have threadable : (outputLaunch 1 2 2).isThreadable = true := rfl
  constructor
  · have chosen : (outputLaunch 1 2 2).sliced 1 = some (outputLaunch 1 2 2) := by rfl
    obtain ⟨trace, completes⟩ := exists_completes_job (sliced_eq chosen).1 ((outputLaunch 1 2 2).callbackWorkers 1)
    exact ⟨trace, _, chosen, completes⟩
  · intro trace run
    exact threadedRun_not_perm_of_deep setup threadable (by decide) run

end RenderScript.Cpu
