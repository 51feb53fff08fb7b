import RenderScript.Foundation.TicketSchedule
import RenderScript.Cpu.LaunchProperties

/-!
# Slices of one range

The loops of `wc_xy` and `wc_x` by themselves, on any range and slice size: which
rows or columns the workers process, and when they return.
-/

namespace RenderScript.Cpu
open WrappedSlices
open List hiding isEmpty

/-- The rows the workers of `wc_xy` process. -/
def MTLaunchStruct.rowJob (mtls : MTLaunchStruct) : TicketPool.Job Nat where
  stop ticket := (mtls.wc_xy 0 (.ofNat ticket)).isNone
  work idx ticket :=
    ((mtls.wc_xy (.ofNat idx) (.ofNat ticket)).getD []).map fun call => call.p.y.toNat

/-- The columns the workers of `wc_x` process. -/
def MTLaunchStruct.columnJob (mtls : MTLaunchStruct) : TicketPool.Job Nat where
  stop ticket := (mtls.wc_x 0 (.ofNat ticket)).isNone
  work idx ticket := ((mtls.wc_x (.ofNat idx) (.ofNat ticket)).getD []).flatMap fun call =>
    (counter call.x1 call.x2).map UInt32.toNat

/-- The workers process every index from `start` up to `stop` once and no other, and each
of them returns. -/
structure Partitions (job : TicketPool.Job Nat) (workers start stop : Nat) : Prop where
  once : ∀ (schedule : List Nat) (pool : TicketPool.Pool Nat),
    (TicketPool.start workers).follow job schedule = some pool →
      pool.trace.Nodup ∧ ∀ index ∈ pool.trace, start ≤ index ∧ index < stop
  covers : ∀ (schedule : List Nat) (pool : TicketPool.Pool Nat),
    (TicketPool.start workers).follow job schedule = some pool → pool.Finished →
      pool.trace ~ List.range' start (stop - start)
  bounded : ∃ bound, ∀ (schedule : List Nat) (pool : TicketPool.Pool Nat),
    (TicketPool.start workers).follow job schedule = some pool →
      ∀ worker, schedule.count worker ≤ bound
  returns : ∀ (schedule : List Nat) (pool : TicketPool.Pool Nat),
    (TicketPool.start workers).follow job schedule = some pool →
      ∀ worker, worker < workers →
        pool.workers[worker]? = some .done ∨ (pool.act job worker).isSome

section

variable {start stop size workers : Nat} {job : TicketPool.Job Nat}

theorem inOrder_of_room (pos : 0 < size) (ordered : start ≤ stop) (room : stop + (workers + 1) * size < 2 ^ 32) :
    InOrder (2 ^ 32) start stop size workers ∧ start + needed start stop size * size < 2 ^ 32 := by
  have slices : needed start stop size * size ≤ stop - start + size - 1 := Nat.div_mul_le_self _ _
  rw [Nat.succ_mul] at room
  constructor
  · apply inOrder_of_lt pos
    rw [add_mul]
    omega
  · omega

theorem slicing_of_indices (stops : ∀ ticket, job.stop ticket = isEmpty (2 ^ 32) start stop size ticket)
    (work : ∀ worker ticket, job.work worker ticket = indices (2 ^ 32) start stop size ticket) :
    Slicing (2 ^ 32) start stop size Option.some job where
  stops := stops
  uniform worker ticket := by rw [work, work]
  reads ticket := by simp [work]

theorem partitions_of_slicing (pos : 0 < size) (ordered : start ≤ stop) (some : 0 < workers)
    (room : stop + (workers + 1) * size < 2 ^ 32) (slicing : Slicing (2 ^ 32) start stop size Option.some job) :
    Partitions job workers start stop := by
  obtain ⟨inOrder, small⟩ := inOrder_of_room pos ordered room
  have shape : job.Useful workers (needed start stop size) := {
    uniform := slicing.uniform
    continues := by
      intro ticket early
      rw [slicing.stops, inOrder ticket (by omega), decide_eq_false (by omega)]
    stops := by
      intro ticket late drawn
      rw [slicing.stops, inOrder ticket drawn, decide_eq_true late] }
  have all : (List.range (needed start stop size)).flatMap (job.work 0) = List.range' start (stop - start) := by
    rw [← flatMap_indices_needed pos small]
    refine flatMap_congr fun ticket _ => ?_
    rw [← slicing.reads, filterMap_some]
  constructor
  · intro schedule pool followed
    have part := shape.trace_subperm (TicketPool.reaches_of_follow followed)
    rw [all] at part
    obtain ⟨sorted, eq, inside⟩ := id part
    refine ⟨eq.nodup_iff.mp (inside.nodup nodup_range'), fun i mem => ?_⟩
    have bounds := mem_range'_1.mp (part.subset mem)
    omega
  · intro schedule pool followed finished
    rw [← all]
    exact slicing.perm_of_inOrder some inOrder ⟨pool, TicketPool.reaches_of_follow followed, finished, rfl⟩
  · refine ⟨needed start stop size + workers + ((List.range (needed start stop size)).flatMap (job.work 0)).length, ?_⟩
    intro schedule pool followed worker
    exact count_le_length.trans (shape.schedule_le followed)
  · intro schedule pool followed worker inside
    exact (TicketPool.reaches_of_follow followed).done_or_act inside

end

theorem toNat_ofNat_of_mem_indices {start size ticket index : Nat} {stop : UInt32}
    (mem : index ∈ indices (2 ^ 32) start stop.toNat size ticket) :
    (UInt32.ofNat index).toNat = index := by
  have bounds := (mem_indices_iff.mp mem).2
  have lt : index < stop.toNat := bounds.trans_le (min_le_right _ _)
  have word := stop.toNat_lt
  rw [UInt32.toNat_ofNat', Nat.mod_eq_of_lt (by omega)]

theorem rowJob_slicing (mtls : MTLaunchStruct) :
    Slicing (2 ^ 32) mtls.yStart.toNat mtls.yEnd.toNat mtls.mSliceSize.toNat Option.some mtls.rowJob := by
  have rows (idx ticket : Nat) : mtls.rowJob.work idx ticket =
      indices (2 ^ 32) mtls.yStart.toNat mtls.yEnd.toNat mtls.mSliceSize.toNat ticket := by
    simp only [MTLaunchStruct.rowJob, wc_xy_eq]
    split
    · rename_i empty
      rw [indices_of_isEmpty empty]
      rfl
    · rw [Option.getD_some, map_map]
      exact (map_congr_left fun _ mem => toNat_ofNat_of_mem_indices mem).trans (map_id _)
  refine slicing_of_indices (fun ticket => ?_) rows
  simp only [MTLaunchStruct.rowJob, wc_xy_eq]
  cases empty : isEmpty (2 ^ 32) mtls.yStart.toNat mtls.yEnd.toNat mtls.mSliceSize.toNat ticket
  · rfl
  · rfl

theorem columnJob_slicing (mtls : MTLaunchStruct) :
    Slicing (2 ^ 32) mtls.xStart.toNat mtls.xEnd.toNat mtls.mSliceSize.toNat Option.some mtls.columnJob := by
  have cols (idx ticket : Nat) : mtls.columnJob.work idx ticket =
      indices (2 ^ 32) mtls.xStart.toNat mtls.xEnd.toNat mtls.mSliceSize.toNat ticket := by
    simp only [MTLaunchStruct.columnJob, MTLaunchStruct.wc_x, slice_empty_iff]
    split
    · rename_i empty
      rw [indices_of_isEmpty empty]
      rfl
    · rw [Option.getD_some, flatMap_singleton]
      simp only [MTLaunchStruct.columnCall]
      rw [counter_slice, map_map]
      exact (map_congr_left fun _ mem => toNat_ofNat_of_mem_indices mem).trans (map_id _)
  refine slicing_of_indices (fun ticket => ?_) cols
  simp only [MTLaunchStruct.columnJob, wc_x_eq]
  cases empty : isEmpty (2 ^ 32) mtls.xStart.toNat mtls.xEnd.toNat mtls.mSliceSize.toNat ticket
  · rfl
  · rfl

/-- The slices of `wc_xy` partition the rows of a launch and those of `wc_x` its columns. -/
theorem slices_partition (mtls : MTLaunchStruct) {workers : Nat} (positive : 1 ≤ mtls.mSliceSize) (some : 1 ≤ workers) :
    (mtls.yStart ≤ mtls.yEnd → mtls.yEnd.toNat + (workers + 1) * mtls.mSliceSize.toNat < 2 ^ 32 →
      Partitions mtls.rowJob workers mtls.yStart.toNat mtls.yEnd.toNat) ∧
    (mtls.xStart ≤ mtls.xEnd → mtls.xEnd.toNat + (workers + 1) * mtls.mSliceSize.toNat < 2 ^ 32 →
      Partitions mtls.columnJob workers mtls.xStart.toNat mtls.xEnd.toNat) := by
  constructor
  · intro ordered room
    exact partitions_of_slicing positive ordered some room (rowJob_slicing mtls)
  · intro ordered room
    exact partitions_of_slicing positive ordered some room (columnJob_slicing mtls)

/-- Three workers, ten rows in slices of four, no column. -/
theorem slices_partition_rows : Partitions ({ yEnd := 10, mSliceSize := 4 } : MTLaunchStruct).rowJob 3 0 10 ∧
      Partitions ({ yEnd := 10, mSliceSize := 4 } : MTLaunchStruct).columnJob 3 0 0 := by
  have both := @slices_partition { yEnd := 10, mSliceSize := 4 } 3 (by decide) (by decide)
  exact ⟨both.1 (by decide) (by decide), both.2 (by decide) (by decide)⟩

end RenderScript.Cpu
