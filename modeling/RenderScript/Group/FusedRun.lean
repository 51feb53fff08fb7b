import RenderScript.Group.Fusion

/-!
# Runs of the fused launch

Every run of the fused launch has the effect of calls of `scriptGroupRoot` made
one after another, one for each row. For a threaded launch this needs enough
scratch rows, since workers that share one would disturb each other.
-/

namespace RenderScript.Group
open RenderScript.Cpu ByteMemory TicketPool WrappedSlices
open List hiding isEmpty

section

variable {driver : Driver} {dimX dimY dimZ : UInt32} {used linked : Allocation → Prop}
  {sl : List ScriptEntry} {first : ScriptEntry} {mCount : UInt32} {mInForEach : Bool}
  {trace : List Transfer}

/-- The trace has the effect of one call for each row, in the order of the rows. -/
def ByTurns (driver : Driver) (dimX dimY : UInt32) (sl : List ScriptEntry)
    (trace : List Transfer) : Prop :=
  ∃ turns : List (Nat × UInt32), turns.map Prod.fst = List.range (extent dimY) ∧
    ∀ memory, performs Transfer.run trace memory =
      performs Transfer.run (turnTransfers driver dimX dimY sl turns) memory

variable (layout : Layout driver dimX dimY dimZ used)

include layout

theorem serialTrace_byTurns (uses : ∀ e ∈ sl, ∀ a, e.Uses a → used a) (flat : dimZ ≤ 1) :
    ByTurns driver dimX dimY sl ((wholeLaunch driver dimX dimY dimZ first).serialTrace (scriptGroupRoot driver sl)) := by
  refine ⟨(List.range (extent dimY)).map fun y => (y, 0), ?_, ?_⟩
  · rw [map_map]
    exact map_id _
  · intro memory
    rw [MTLaunchStruct.serialTrace, serialCalls_flat (wholeLaunch_prepared _ _ _ _ _)
      (wholeLaunch_flat driver dimX dimY first flat), flatMap_map, turnTransfers,
      flatMap_map]
    simp only [wholeLaunch, toNat_rsMax_one, UInt32.toNat_zero, Nat.sub_zero, ← range_eq_range']
    congr 1
    refine flatMap_congr fun y row => ?_
    exact scriptGroupRoot_eq layout uses (mem_range.mp row) ⟨rfl, rfl, rfl, rfl⟩

omit layout in
theorem ignoresPlanes_scriptGroupRoot (driver : Driver) (sl : List ScriptEntry) :
    IgnoresPlanes (scriptGroupRoot driver sl) := fun _ _ => rfl

theorem rootCell_apart {a b : Option Allocation} (isUsed : ∀ c, a = some c → used c) (otherUsed : ∀ c, b = some c → used c)
    {ext otherExt : Bool} (flag : ∀ c, a = some c → (ext = false ↔ linked c))
    (otherFlag : ∀ c, b = some c → (otherExt = false ↔ linked c)) {y y' : Nat}
    (row : y < extent dimY) (row' : y' < extent dimY) (ne : y ≠ y') {lid lid' : UInt32}
    (scratch : (∀ c, used c → ¬ linked c) ∨ lid < dimY ∧ lid' < dimY ∧ lid ≠ lid') {x x' : Nat}
    (column : x < extent dimX) (column' : x' < extent dimX) :
    (optionCell driver a x (rootRow dimY ext y lid)).Apart (optionCell driver b x' (rootRow dimY otherExt y' lid')) := by
  have planes := extent_le_rowCount dimY dimZ
  intro loc inside otherInside
  cases a with
  | none => simp [optionCell, Region.Holds] at inside
  | some c =>
    cases b with
    | none => simp [optionCell, Region.Holds] at otherInside
    | some d =>
      refine layout.cell_apart (isUsed c rfl) (otherUsed d rfl) column
        ((rootRow_lt row lid).trans_le planes) column' ((rootRow_lt row' lid').trans_le planes)
        ?_ loc inside otherInside
      by_cases eq : c = d
      · subst eq
        have flags := (flag c rfl).trans (otherFlag c rfl).symm
        refine .inr (.inr ?_)
        cases isExt : ext with
        | true =>
          have otherIsExt : otherExt = true := by
            cases found : otherExt with
            | true => rfl
            | false => exact absurd (flags.mpr found) (by simp [isExt])
          rw [otherIsExt]
          exact ne
        | false =>
          have isLinked := (flag c rfl).mp isExt
          rw [flags.mp isExt]
          rcases scratch with none | ⟨lt, otherBelow, apart⟩
          · exact absurd isLinked (none c (isUsed c rfl))
          · simp only [rootRow, gt_iff_lt, lt, otherBelow, if_true, Bool.false_eq_true, if_false]
            exact fun equal => apart (UInt32.toNat_inj.mp equal)
      · exact .inl eq

theorem rootTransfer_commutes (uses : ∀ e ∈ sl, ∀ a, e.Uses a → used a) (pipelined : Pipelined linked sl)
    {y y' : Nat} (row : y < extent dimY) (row' : y' < extent dimY) (ne : y ≠ y') {lid lid' : UInt32}
    (scratch : (∀ c, used c → ¬ linked c) ∨ lid < dimY ∧ lid' < dimY ∧ lid ≠ lid')
    {left right : Transfer} (mem : left ∈ rootTransfers driver dimX dimY sl y lid)
    (mem' : right ∈ rootTransfers driver dimX dimY sl y' lid') :
    Commutes Transfer.run left right := by
  obtain ⟨e, inList, cell⟩ := mem_flatMap.mp mem
  obtain ⟨x, col, rfl⟩ := mem_map.mp cell
  obtain ⟨e', inList', cell'⟩ := mem_flatMap.mp mem'
  obtain ⟨x', column', rfl⟩ := mem_map.mp cell'
  rw [mem_range] at col column'
  have backwards : (∀ c, used c → ¬ linked c) ∨ lid' < dimY ∧ lid < dimY ∧ lid' ≠ lid := by
    rcases scratch with none | ⟨lt, otherBelow, apart⟩
    · exact .inl none
    · exact .inr ⟨otherBelow, lt, apart.symm⟩
  apply commutes_of_spares
  · exact ⟨rootCell_apart layout (fun c eq => uses e inList c (.inr eq))
        (fun c eq => uses e' inList' c (.inl eq)) (pipelined.output e inList)
        (pipelined.input e' inList') row row' ne scratch col column',
      rootCell_apart layout (fun c eq => uses e inList c (.inr eq))
        (fun c eq => uses e' inList' c (.inr eq)) (pipelined.output e inList)
        (pipelined.output e' inList') row row' ne scratch col column'⟩
  · exact ⟨rootCell_apart layout (fun c eq => uses e' inList' c (.inr eq))
        (fun c eq => uses e inList c (.inl eq)) (pipelined.output e' inList')
        (pipelined.input e inList) row' row ne.symm backwards column' col,
      rootCell_apart layout (fun c eq => uses e' inList' c (.inr eq))
        (fun c eq => uses e inList c (.inr eq)) (pipelined.output e' inList')
        (pipelined.output e inList) row' row ne.symm backwards column' col⟩

omit layout in
theorem rows_of_sliced {sliced : MTLaunchStruct} (chosen : (wholeLaunch driver dimX dimY 0 first).sliced mCount = some sliced) :
    sliced.yStart.toNat = 0 ∧ sliced.yEnd.toNat = extent dimY ∧ sliced.fep.dimY = dimY := by
  rw [(sliced_eq chosen).2]
  exact ⟨rfl, toNat_rsMax_one dimY, rfl⟩

theorem job_work_root (uses : ∀ e ∈ sl, ∀ a, e.Uses a → used a) (rows : dimY > 1) {sliced : MTLaunchStruct}
    (chosen : (wholeLaunch driver dimX dimY 0 first).sliced mCount = some sliced) (idx ticket : Nat) :
    (sliced.job (scriptGroupRoot driver sl)).work idx ticket =
      (indices (2 ^ 32) 0 (extent dimY) sliced.mSliceSize.toNat ticket).flatMap
        fun y => rootTransfers driver dimX dimY sl y (.ofNat idx) := by
  obtain ⟨begins, ends, sameY⟩ := rows_of_sliced chosen
  rw [job_work_rows _ (by rw [sameY]; exact rows), begins, ends]
  refine flatMap_congr fun y mem => ?_
  have row : y < extent dimY := (bounds_of_mem sliced.mSliceSize.toNat_lt mem).2.2.1
  apply scriptGroupRoot_eq layout uses row
  rw [(sliced_eq chosen).2]
  exact ⟨rfl, rfl, rfl, rfl⟩

/-- Workers with scratch rows of their own, or without any scratch rows, act as
if each row were computed in one go. -/
theorem threadedRun_byTurns_rows (uses : ∀ e ∈ sl, ∀ a, e.Uses a → used a) (pipelined : Pipelined linked sl) (rows : dimY > 1)
    (covers : SlicesCover (wholeLaunch driver dimX dimY dimZ first) mCount)
    (scratch : (∀ c, used c → ¬ linked c) ∨ mCount.toNat + 1 ≤ dimY.toNat)
    (run : (wholeLaunch driver dimX dimY dimZ first).ThreadedRun (scriptGroupRoot driver sl) mCount trace) :
    ByTurns driver dimX dimY sl trace := by
  obtain ⟨sliced, chosen, covered, completes⟩ := threadedRun_plane (ignoresPlanes_scriptGroupRoot driver sl) run covers
  obtain ⟨begins, ends, sameY⟩ := rows_of_sliced chosen
  have slicedRows : sliced.fep.dimY > 1 := by rwa [sameY]
  have pos := (sliced_eq chosen).1
  have prepared := (wholeLaunch_prepared driver dimX dimY 0 first).sliced chosen
  have useful : sliced.useful = needed 0 (extent dimY) sliced.mSliceSize.toNat := by
    simp [MTLaunchStruct.useful, slicedRows, begins, ends]
  have workers : sliced.callbackWorkers mCount = mCount.toNat + 1 :=
    if_neg fun single => absurd single.1 (UInt32.not_le.mpr slicedRows)
  have tiles : (List.range sliced.useful).flatMap
      (indices (2 ^ 32) 0 (extent dimY) sliced.mSliceSize.toNat) = List.range (extent dimY) := by
    have room := covered
    rw [MTLaunchStruct.Covers, if_pos slicedRows, begins, ends] at room
    rw [useful, flatMap_indices_needed (UInt32.lt_iff_toNat_lt.mp pos) room.1, Nat.sub_zero, range_eq_range']
  have work := @job_work_root driver dimX dimY dimZ used sl first mCount layout uses rows sliced chosen
  -- Rows of different tickets differ, and so do the scratch rows of different workers.
  have independent : Independent Transfer.run (sliced.job (scriptGroupRoot driver sl))
      (sliced.callbackWorkers mCount) sliced.useful := by
    intro worker other inside otherInside ne before after drawn alsoDrawn distinct left right origin otherOrigin
    have itemsLeft := Job.mem_work origin
    have itemsRight := Job.mem_work otherOrigin
    rw [work] at itemsLeft itemsRight
    obtain ⟨y, inSlice, transfers⟩ := mem_flatMap.mp itemsLeft
    obtain ⟨y', inSlice', transfers'⟩ := mem_flatMap.mp itemsRight
    have row : y < extent dimY := (bounds_of_mem sliced.mSliceSize.toNat_lt inSlice).2.2.1
    have row' : y' < extent dimY := (bounds_of_mem sliced.mSliceSize.toNat_lt inSlice').2.2.1
    have disjoint := disjoint_of_perm nodup_range (.of_eq tiles) drawn alsoDrawn distinct
    have apart : y ≠ y' := fun eq => disjoint inSlice (eq ▸ inSlice')
    apply rootTransfer_commutes layout uses pipelined row row' apart _ transfers transfers'
    rcases scratch with none | enough
    · exact .inl none
    · have word := dimY.toNat_lt
      have small : worker < 4294967296 := by omega
      have small' : other < 4294967296 := by omega
      refine .inr ⟨?_, ?_, ?_⟩
      · rw [UInt32.lt_iff_toNat_lt, UInt32.toNat_ofNat', Nat.mod_eq_of_lt small]
        omega
      · rw [UInt32.lt_iff_toNat_lt, UInt32.toNat_ofNat', Nat.mod_eq_of_lt small']
        omega
      · intro eq
        have sameValue := congrArg UInt32.toNat eq
        rw [UInt32.toNat_ofNat', UInt32.toNat_ofNat', Nat.mod_eq_of_lt small, Nat.mod_eq_of_lt small'] at sameValue
        exact ne sameValue
  obtain ⟨continues, stops⟩ := covered.tickets prepared pos (scriptGroupRoot driver sl)
  obtain ⟨owners, drawn, -, effect⟩ := completes.performs_useful Transfer.run
    (callbackWorkers_pos sliced mCount) continues stops independent
  refine ⟨owners.zipIdx.flatMap fun owner =>
    (indices (2 ^ 32) 0 (extent dimY) sliced.mSliceSize.toNat owner.2).map fun y => (y, .ofNat owner.1), ?_, ?_⟩
  · have tickets : owners.zipIdx.map Prod.snd = List.range sliced.useful := by
      simp [drawn, range_eq_range']
    rw [← tiles, ← tickets, map_flatMap, flatMap_map]
    refine flatMap_congr fun owner _ => ?_
    rw [map_map]
    exact map_id _
  · intro memory
    rw [effect, turnTransfers, flatMap_assoc]
    congr 1
    refine flatMap_congr fun owner _ => ?_
    rw [work, flatMap_map]

theorem threadedRun_byTurns_cell (uses : ∀ e ∈ sl, ∀ a, e.Uses a → used a) (single : dimX ≤ 1 ∧ dimY ≤ 1)
    (covers : SlicesCover (wholeLaunch driver dimX dimY dimZ first) mCount)
    (run : (wholeLaunch driver dimX dimY dimZ first).ThreadedRun (scriptGroupRoot driver sl) mCount trace) :
    ByTurns driver dimX dimY sl trace := by
  obtain ⟨sliced, chosen, covered, completes⟩ := threadedRun_plane (ignoresPlanes_scriptGroupRoot driver sl) run covers
  have pos := (sliced_eq chosen).1
  have prepared := (wholeLaunch_prepared driver dimX dimY 0 first).sliced chosen
  have cols : ¬ sliced.fep.dimY > 1 := by
    rw [(rows_of_sliced chosen).2.2]
    exact UInt32.not_lt.mpr single.2
  have begins : sliced.xStart = 0 := by
    rw [(sliced_eq chosen).2]
    rfl
  have oneColumn : rsMax 1 dimX = 1 := by
    have small := UInt32.le_iff_toNat_le.mp single.1
    rw [← UInt32.toNat_inj, toNat_rsMax, UInt32.toNat_one]
    exact max_eq_left small
  have ends : sliced.xEnd = 1 := by
    rw [(sliced_eq chosen).2]
    exact oneColumn
  have some := UInt32.lt_iff_toNat_lt.mp pos
  have alone : sliced.callbackWorkers mCount = 1 := by
    apply if_pos
    refine ⟨UInt32.not_lt.mp cols, ?_⟩
    rw [begins, ends, zero_add, UInt32.le_iff_toNat_le]
    exact some
  have useful : sliced.useful = 1 := by
    rw [MTLaunchStruct.useful, if_neg cols, begins, ends, needed]
    simp only [UInt32.toNat_zero, UInt32.toNat_one, Nat.sub_zero, Nat.add_sub_cancel_left]
    exact Nat.div_self some
  have oneRow : extent dimY = 1 := max_eq_left (UInt32.le_iff_toNat_le.mp single.2)
  have independent : Independent Transfer.run (sliced.job (scriptGroupRoot driver sl))
      (sliced.callbackWorkers mCount) sliced.useful := by
    intro worker other inside otherInside ne
    omega
  obtain ⟨continues, stops⟩ := covered.tickets prepared pos (scriptGroupRoot driver sl)
  obtain ⟨owners, drawn, known, effect⟩ := completes.performs_useful Transfer.run
    (callbackWorkers_pos sliced mCount) continues stops independent
  refine ⟨[(0, 0)], by rw [oneRow]; rfl, ?_⟩
  intro memory
  rw [effect]
  congr 1
  cases owners with
  | nil => simp [useful] at drawn
  | cons owner rest =>
    have last : rest = [] := by simpa [useful] using drawn
    have caller : owner = 0 := by
      have inside := known owner mem_cons_self
      omega
    subst last caller
    have starts := continues 0 (by omega)
    rw [job_stop_columns _ cols, begins, ends, UInt32.toNat_zero, UInt32.toNat_one] at starts
    have start : WrappedSlices.first (2 ^ 32) 0 sliced.mSliceSize.toNat 0 = 0 := by
      simp [WrappedSlices.first]
    have stop : last (2 ^ 32) 0 1 sliced.mSliceSize.toNat 0 = 1 := by
      have word := sliced.mSliceSize.toNat_lt
      rw [last, start, zero_add, Nat.mod_eq_of_lt word]
      omega
    have call : CoversRow dimX 0 0 (sliced.columnCall 0 0 1) := by
      rw [(sliced_eq chosen).2]
      exact ⟨rfl, oneColumn.symm, rfl, rfl⟩
    have work : (sliced.job (scriptGroupRoot driver sl)).work 0 0 =
        rootTransfers driver dimX dimY sl 0 0 := by
      rw [job_work_columns _ cols, begins, ends, UInt32.toNat_zero, UInt32.toNat_one, start, stop, starts]
      exact scriptGroupRoot_eq layout uses (by omega) call
    simp [turnTransfers, work]

/-- A threaded fused launch over one row must not be cut into slices, and over
several rows the workers must not share scratch rows. -/
def ScratchRows (dimX dimY mCount : UInt32) (linked : Bool) : Prop :=
  if dimY > 1 then linked = true → mCount.toNat + 1 ≤ dimY.toNat else dimX ≤ 1

instance (dimX dimY mCount : UInt32) (linked : Bool) :
    Decidable (ScratchRows dimX dimY mCount linked) :=
  inferInstanceAs (Decidable (if dimY > 1 then _ else _))

theorem launch_byTurns (uses : ∀ e ∈ sl, ∀ a, e.Uses a → used a) (pipelined : Pipelined linked sl)
    (flat : dimZ ≤ 1 ∨ Threads driver first mCount mInForEach)
    (covers : Threads driver first mCount mInForEach → SlicesCover (wholeLaunch driver dimX dimY dimZ first) mCount)
    {anyLinked : Bool} (unlinked : anyLinked = false → ∀ c, used c → ¬ linked c)
    (scratch : Threads driver first mCount mInForEach → ScratchRows dimX dimY mCount anyLinked)
    (run : (wholeLaunch driver dimX dimY dimZ first).LaunchThreads (scriptGroupRoot driver sl) mCount mInForEach trace) :
    ByTurns driver dimX dimY sl trace := by
  rcases (launchThreads_wholeLaunch _ _ _ _).mp run with ⟨threads, threaded⟩ | ⟨serial, rfl⟩
  · have safe := scratch threads
    unfold ScratchRows at safe
    split at safe
    · rename_i rows
      apply threadedRun_byTurns_rows layout uses pipelined rows (covers threads) _ threaded
      cases anyLinked with
      | false => exact .inl (unlinked rfl)
      | true => exact .inr (safe rfl)
    · rename_i cols
      exact threadedRun_byTurns_cell layout uses ⟨safe, UInt32.not_lt.mp cols⟩ (covers threads) threaded
  · exact serialTrace_byTurns layout uses (flat.resolve_right serial)

omit layout

/-- Turns for all rows are the pipeline at every place of plane 0, and nothing
elsewhere, for allocations that are not linked. -/
theorem ByTurns.effect (byTurns : ByTurns driver dimX dimY sl trace)
    (layout : Layout driver dimX dimY dimZ used) (uses : ∀ e ∈ sl, ∀ a, e.Uses a → used a)
    (pipelined : Pipelined linked sl) (memory : Memory) {a : Allocation} (isUsed : used a)
    (notLinked : ¬ linked a) {x y : Nat} (column : x < extent dimX) (row : y < rowCount dimY dimZ) :
    contents driver (performs Transfer.run trace memory) x y a =
      if y < extent dimY then pipeline driver sl x y (contents driver memory x y) a
      else contents driver memory x y a := by
  obtain ⟨turns, rows, effect⟩ := byTurns
  have unique : (turns.map Prod.fst).Nodup := by
    rw [rows]
    exact nodup_range
  have inside : ∀ turn ∈ turns, turn.1 < extent dimY := by
    intro turn mem
    have listed := mem_map_of_mem (f := Prod.fst) mem
    rwa [rows, mem_range] at listed
  obtain ⟨computed, kept⟩ := turnTransfers_effect layout uses pipelined unique inside memory isUsed notLinked column
  rw [effect]
  split
  · rename_i inPlane
    have listed : y ∈ turns.map Prod.fst := by
      rw [rows]
      exact mem_range.mpr inPlane
    obtain ⟨turn, mem, rfl⟩ := mem_map.mp listed
    exact computed turn mem
  · rename_i deep
    apply kept y row
    rw [rows, mem_range]
    exact deep

end

end RenderScript.Group
