import RenderScript.Group.PointwiseLaunch

/-!
# Fused and separate execution of a pointwise group

Both ways to execute a group are compared with a pipeline that applies the
kernels in turn at every place. The separate launches refine it on all
allocations. The fused launch keeps linked allocations in one row for each
worker, and refines the pipeline on the external ones.
-/

namespace RenderScript.Group
open RenderScript.Cpu ByteMemory TicketPool List Function

variable {linked : Allocation → Prop} {entry : ScriptEntry} {x y : Nat} {store other : CellStore} {a : Allocation}
  {sl done : List ScriptEntry}

def pipeline (driver : Driver) (sl : List ScriptEntry) (x y : Nat) (store : CellStore) :
    CellStore :=
  sl.foldl (fun current entry => entryStep driver x y entry current) store

@[simp] theorem pipeline_nil (driver : Driver) (x y : Nat) (store : CellStore) : pipeline driver [] x y store = store := rfl

@[simp] theorem pipeline_cons (driver : Driver) (entry : ScriptEntry) (rest : List ScriptEntry) (x y : Nat) (store : CellStore) :
    pipeline driver (entry :: rest) x y store = pipeline driver rest x y (entryStep driver x y entry store) := rfl

theorem pipeline_append_singleton (driver : Driver) (done : List ScriptEntry)
    (entry : ScriptEntry) (x y : Nat) (store : CellStore) :
    pipeline driver (done ++ [entry]) x y store = entryStep driver x y entry (pipeline driver done x y store) := by
  simp [pipeline]

section

variable {mInForEach : Bool} {driver : Driver} {dimX dimY dimZ mCount : UInt32} {used : Allocation → Prop}

theorem entryStep_congr (uses : ∀ a, entry.Uses a → used a) (agree : ∀ a, used a → store a = other a)
    (isUsed : used a) : entryStep driver x y entry store a = entryStep driver x y entry other a := by
  have inputs : entry.ain.elim [] store = entry.ain.elim [] other := by
    cases input : entry.ain with
    | none => rfl
    | some b => exact agree b (uses b (.inl input))
  unfold entryStep
  cases output : entry.aout with
  | none => exact agree a isUsed
  | some b =>
    dsimp only
    rw [inputs]
    by_cases eq : a = b
    · simp [eq]
    · rw [update_of_ne eq, update_of_ne eq]
      exact agree a isUsed

theorem pipeline_congr (uses : ∀ e ∈ sl, ∀ a, e.Uses a → used a) (agree : ∀ a, used a → store a = other a) (isUsed : used a) :
    pipeline driver sl x y store a = pipeline driver sl x y other a := by
  induction sl generalizing store other with
  | nil => exact agree a isUsed
  | cons entry rest ih =>
    obtain ⟨first, others⟩ := forall_mem_cons.mp uses
    exact ih others fun b otherUsed => entryStep_congr first agree otherUsed

/-- Launching the kernels one after another is the pipeline at every place of
plane 0, and nothing elsewhere. -/
theorem fieldDepRun_effect (layout : Layout driver dimX dimY dimZ used)
    (uses : ∀ e ∈ sl, (∃ a, e.Uses a) ∧ ∀ a, e.Uses a → used a ∧ RowsFit driver dimY a)
    (flat : ∀ e ∈ sl, dimZ ≤ 1 ∨ Threads driver e mCount mInForEach) (covers : ∀ e ∈ sl, Threads driver e mCount mInForEach →
      SlicesCover (wholeLaunch driver dimX dimY dimZ e) mCount) {trace : List Transfer}
    (run : FieldDepRun driver mCount mInForEach sl trace) (memory : Memory)
    (isUsed : used a) (column : x < extent dimX) (row : y < rowCount dimY dimZ) :
    contents driver (performs Transfer.run trace memory) x y a =
      if y < extent dimY then pipeline driver sl x y (contents driver memory x y) a
      else contents driver memory x y a := by
  induction sl generalizing trace memory with
  | nil =>
    cases run
    simp
  | cons entry rest ih =>
    obtain ⟨⟨some, usesFirst⟩, usesRest⟩ := forall_mem_cons.mp uses
    obtain ⟨flatFirst, flatRest⟩ := forall_mem_cons.mp flat
    obtain ⟨coversFirst, coversRest⟩ := forall_mem_cons.mp covers
    obtain ⟨first, others, rfl, launched, continued⟩ := run
    have usesOnly : ∀ b, entry.Uses b → used b := fun b isUsed => (usesFirst b isUsed).1
    rw [launchOf_eq layout usesOnly some] at launched
    have transfers := launch_perm_cells layout usesFirst flatFirst coversFirst launched
    rw [performs_append, ih usesRest flatRest coversRest continued, pipeline_cons]
    by_cases inPlane : y < extent dimY
    · rw [if_pos inPlane, if_pos inPlane]
      apply pipeline_congr (fun e mem b touches => ((usesRest e mem).2 b touches).1) _ isUsed
      intro b otherUsed
      simp [launch_effect layout usesOnly transfers memory otherUsed column row, inPlane]
    · simp [inPlane, launch_effect layout usesOnly transfers memory isUsed column row]

theorem exists_fieldDepRun (layout : Layout driver dimX dimY dimZ used)
    (uses : ∀ e ∈ sl, (∃ a, e.Uses a) ∧ ∀ a, e.Uses a → used a)
    (covers : ∀ e ∈ sl, Threads driver e mCount mInForEach → SlicesCover (wholeLaunch driver dimX dimY dimZ e) mCount) :
    ∃ trace, FieldDepRun driver mCount mInForEach sl trace := by
  induction sl with
  | nil => exact ⟨[], rfl⟩
  | cons entry rest ih =>
    obtain ⟨⟨some, usesFirst⟩, usesRest⟩ := forall_mem_cons.mp uses
    obtain ⟨coversFirst, coversRest⟩ := forall_mem_cons.mp covers
    obtain ⟨others, continued⟩ := ih usesRest coversRest
    obtain ⟨first, launched⟩ := exists_launch (kernelTransfers (driver.kernel entry.kernel)) coversFirst
    rw [← launchOf_eq layout usesFirst some] at launched
    exact ⟨first ++ others, first, others, rfl, launched, continued⟩

end

/-- The row of an allocation that a call for row `y` on worker `lid` works in. -/
def rootRow (dimY : UInt32) (ext : Bool) (y : Nat) (lid : UInt32) : Nat :=
  if ext then y else if dimY > lid then lid.toNat else 0

def rootTransfer (driver : Driver) (dimY : UInt32) (y : Nat) (lid : UInt32) (entry : ScriptEntry)
    (x : Nat) : Transfer where
  src := optionCell driver entry.ain x (rootRow dimY entry.inExt y lid)
  dst := optionCell driver entry.aout x (rootRow dimY entry.outExt y lid)
  fn := driver.kernel entry.kernel (.ofNat x) (.ofNat y)

def rootTransfers (driver : Driver) (dimX dimY : UInt32) (sl : List ScriptEntry) (y : Nat)
    (lid : UInt32) : List Transfer :=
  sl.flatMap fun entry => (List.range (extent dimX)).map (rootTransfer driver dimY y lid entry)

/-- The call covers row `y` on worker `lid`. -/
structure CoversRow (dimX : UInt32) (y : Nat) (lid : UInt32) (call : OuterCall) : Prop where
  start : call.x1 = 0
  stop : call.x2 = rsMax 1 dimX
  row : call.p.y = .ofNat y
  worker : call.p.lid = lid

section

variable {driver : Driver} {dimX dimY dimZ lid : UInt32} {used : Allocation → Prop}

theorem rootRow_lt {ext : Bool} (row : y < extent dimY) (lid : UInt32) : rootRow dimY ext y lid < extent dimY := by
  unfold rootRow extent at *
  split
  · exact row
  · split
    · rename_i lt
      have small := UInt32.lt_iff_toNat_lt.mp lt
      omega
    · omega

theorem rootPtr_region (layout : Layout driver dimX dimY dimZ used) {a : Option Allocation} (uses : ∀ b, a = some b → used b)
    (ext : Bool) {y : Nat} {lid : UInt32} (row : y < extent dimY) (x : Nat) {p : RsForEachStubParamStruct}
    (sameRow : p.y = .ofNat y) (sameWorker : p.lid = lid) :
    ({ start := (a.map fun b => rootPtr (driver.allocation b) ext p).getD 0 +
          x * (UInt32.ofNat ((a.map fun b => (driver.allocation b).elementSizeBytes).getD 0)).toNat
       length := (UInt32.ofNat ((a.map fun b => (driver.allocation b).elementSizeBytes).getD 0)).toNat } : Region) =
      optionCell driver a x (rootRow dimY ext y lid) := by
  cases a with
  | none => simp [optionCell]
  | some b =>
    have isUsed := uses b rfl
    have elem := layout.elements b isUsed
    have small : y < 2 ^ 32 := row.trans (extent_lt dimY)
    have sameY := (layout.dims b isUsed).2.1
    have ptr : rootPtr (driver.allocation b) ext p = (driver.allocation b).mallocPtr +
        (driver.allocation b).stride * rootRow dimY ext y lid := by
      unfold rootPtr rootRow
      rw [sameY, sameRow, sameWorker, UInt32.toNat_ofNat', Nat.mod_eq_of_lt small]
      split
      · rfl
      · split <;> simp
    simp only [Option.map_some, Option.getD_some, optionCell, Option.elim_some, cell, ptr,
      UInt32.toNat_ofNat', Nat.mod_eq_of_lt elem]

theorem scriptGroupRoot_eq (layout : Layout driver dimX dimY dimZ used)
    (uses : ∀ e ∈ sl, ∀ a, e.Uses a → used a) (row : y < extent dimY) {call : OuterCall} (covers : CoversRow dimX y lid call) :
    scriptGroupRoot driver sl call = rootTransfers driver dimX dimY sl y lid := by
  refine flatMap_congr fun entry mem => ?_
  simp only [kernelTransfers, OuterCall.invocations, rootCall, covers.start, covers.stop, counter,
    toNat_rsMax_one, UInt32.toNat_zero, Nat.sub_zero, map_map, ← range_eq_range']
  refine map_congr_left fun x col => ?_
  have bounded := mem_range.mp col
  have small : x < 2 ^ 32 := bounded.trans (extent_lt dimX)
  have input := @rootPtr_region driver dimX dimY dimZ used layout _
    (fun b eq => uses entry mem b (.inl eq)) entry.inExt y lid row x call.p covers.row
    covers.worker
  have output := @rootPtr_region driver dimX dimY dimZ used layout _
    (fun b eq => uses entry mem b (.inr eq)) entry.outExt y lid row x call.p covers.row
    covers.worker
  simp only [comp_apply, rootTransfer, ← input, ← output, covers.row, UInt32.toNat_ofNat', Nat.mod_eq_of_lt small]

end

/-- The kernels of a group in an order in which every linked allocation is
written before it is read; `linked` allocations are never external. -/
structure Pipelined (linked : Allocation → Prop) (sl : List ScriptEntry) : Prop where
  input : ∀ e ∈ sl, ∀ a, e.ain = some a → (e.inExt = false ↔ linked a)
  output : ∀ e ∈ sl, ∀ a, e.aout = some a → (e.outExt = false ↔ linked a)
  produced : ∀ before e after, sl = before ++ e :: after → ∀ a, e.ain = some a → linked a →
    ∃ p ∈ before, p.aout = some a

theorem Pipelined.front (pipelined : Pipelined linked (done ++ [entry])) : Pipelined linked done where
  input := fun e mem => pipelined.input e (mem_append_left _ mem)
  output := fun e mem => pipelined.output e (mem_append_left _ mem)
  produced := by
    intro before e after split a reads isLinked
    exact pipelined.produced before e (after ++ [entry]) (by simp [split]) a reads isLinked

theorem Pipelined.pipeline_congr (pipelined : Pipelined linked sl) (driver : Driver)
    (agree : ∀ e ∈ sl, ∀ a, e.Uses a → ¬ linked a → store a = other a) (known : (∃ p ∈ sl, p.aout = some a) ∨ store a = other a) :
    pipeline driver sl x y store a = pipeline driver sl x y other a := by
  induction sl using List.reverseRecOn generalizing a with
  | nil =>
    rcases known with ⟨p, mem, -⟩ | eq
    · cases mem
    · exact eq
  | append_singleton done entry ih =>
    have agreeBefore : ∀ e ∈ done, ∀ a, e.Uses a → ¬ linked a → store a = other a :=
      fun e mem => agree e (mem_append_left _ mem)
    have last : entry ∈ done ++ [entry] := mem_append_right _ mem_cons_self
    have inputs : entry.ain.elim [] (pipeline driver done x y store) = entry.ain.elim [] (pipeline driver done x y other) := by
      cases reads : entry.ain with
      | none => rfl
      | some b =>
        apply ih pipelined.front agreeBefore
        by_cases isLinked : linked b
        · exact .inl (pipelined.produced done entry [] rfl b reads isLinked)
        · exact .inr (agree entry last b (.inl reads) isLinked)
    have earlier (elsewhere : entry.aout ≠ some a) : pipeline driver done x y store a = pipeline driver done x y other a := by
      apply ih pipelined.front agreeBefore
      rcases known with ⟨p, mem, makes⟩ | eq
      · rcases mem_append.mp mem with before | single
        · exact .inl ⟨p, before, makes⟩
        · exact absurd (mem_singleton.mp single ▸ makes) elsewhere
      · exact .inr eq
    rw [pipeline_append_singleton, pipeline_append_singleton]
    unfold entryStep
    cases writes : entry.aout with
    | none => exact earlier (by simp [writes])
    | some b =>
      dsimp only
      rw [inputs]
      by_cases eq : a = b
      · simp [eq]
      · rw [update_of_ne eq, update_of_ne eq]
        exact earlier (by simp [writes, Ne.symm eq])

section

variable {driver : Driver} {dimX dimY dimZ : UInt32} {used linked : Allocation → Prop}

theorem rootTransfer_effect (layout : Layout driver dimX dimY dimZ used)
    (uses : ∀ a, entry.Uses a → used a) (row : y < extent dimY) (lid : UInt32) (memory : Memory) :
    (∀ b, entry.aout = some b → ∀ x, x < extent dimX → contents driver (performs Transfer.run
          ((List.range (extent dimX)).map (rootTransfer driver dimY y lid entry)) memory) x
          (rootRow dimY entry.outExt y lid) b =
        (List.range (driver.allocation b).elementSizeBytes).map (driver.kernel entry.kernel (.ofNat x) (.ofNat y)
            (entry.ain.elim [] (contents driver memory x (rootRow dimY entry.inExt y lid))))) ∧
      ∀ a, used a → ∀ x, x < extent dimX → ∀ r, r < rowCount dimY dimZ →
        (entry.aout = some a → r ≠ rootRow dimY entry.outExt y lid) →
        contents driver (performs Transfer.run
          ((List.range (extent dimX)).map (rootTransfer driver dimY y lid entry)) memory) x r a =
        contents driver memory x r a := by
  have planes := extent_le_rowCount dimY dimZ
  have rowIn : rootRow dimY entry.inExt y lid < rowCount dimY dimZ := (rootRow_lt row lid).trans_le planes
  have rowOut : rootRow dimY entry.outExt y lid < rowCount dimY dimZ := (rootRow_lt row lid).trans_le planes
  have spares : ∀ x ∈ List.range (extent dimX), ∀ x' ∈ List.range (extent dimX), x ≠ x' →
      (rootTransfer driver dimY y lid entry x).Spares (rootTransfer driver dimY y lid entry x') := by
    intro x mem x' mem' ne
    have col := mem_range.mp mem
    have column' := mem_range.mp mem'
    exact ⟨layout.optionCell_apart (fun c eq => uses c (.inr eq))
        (fun c eq => uses c (.inl eq)) col rowOut column' rowIn (.inl ne),
      layout.optionCell_apart (fun c eq => uses c (.inr eq))
        (fun c eq => uses c (.inr eq)) col rowOut column' rowOut (.inl ne)⟩
  constructor
  · intro b output x col
    have result := read_performs_separated nodup_range spares memory (mem_range.mpr col)
    simp only [Transfer.result, rootTransfer, output, read_optionCell] at result
    exact result
  · intro a isUsed x col r inside other
    apply read_performs_apart
    intro transfer performed
    obtain ⟨x', mem, rfl⟩ := mem_map.mp performed
    have column' := mem_range.mp mem
    cases output : entry.aout with
    | none =>
      intro loc held
      simp [rootTransfer, output, optionCell, Region.Holds] at held
    | some b =>
      simp only [rootTransfer, output]
      apply layout.cell_apart (uses b (.inr output)) isUsed column' rowOut col inside
      by_cases eq : b = a
      · exact .inr (.inr (Ne.symm (other (eq ▸ output))))
      · exact .inl eq

/-- One call computes its row of every external allocation and leaves the other
rows alone. Linked allocations are only tracked in the worker's row. -/
theorem rootTransfers_effect (layout : Layout driver dimX dimY dimZ used) (uses : ∀ e ∈ sl, ∀ a, e.Uses a → used a)
    (pipelined : Pipelined linked sl) (row : y < extent dimY) (lid : UInt32) (memory : Memory) :
    (∀ a, used a → ¬ linked a → ∀ x, x < extent dimX →
        contents driver (performs Transfer.run (rootTransfers driver dimX dimY sl y lid) memory)
          x y a = pipeline driver sl x y (contents driver memory x y) a) ∧
      (∀ a, used a → linked a → (∃ p ∈ sl, p.aout = some a) → ∀ x, x < extent dimX →
        contents driver (performs Transfer.run (rootTransfers driver dimX dimY sl y lid) memory)
          x (rootRow dimY false y lid) a = pipeline driver sl x y (contents driver memory x y) a) ∧
      ∀ a, used a → ¬ linked a → ∀ x, x < extent dimX → ∀ r, r < rowCount dimY dimZ → r ≠ y →
        contents driver (performs Transfer.run (rootTransfers driver dimX dimY sl y lid) memory)
          x r a = contents driver memory x r a := by
  have planes := extent_le_rowCount dimY dimZ
  induction sl using List.reverseRecOn with
  | nil => simp [rootTransfers]
  | append_singleton done entry ih =>
    obtain ⟨external, internal, others⟩ := ih (fun e mem => uses e (mem_append_left _ mem)) pipelined.front
    have last : entry ∈ done ++ [entry] := mem_append_right _ mem_cons_self
    have usesLast := uses entry last
    obtain ⟨mid, middleEq⟩ : ∃ mid, mid =
      performs Transfer.run (rootTransfers driver dimX dimY done y lid) memory := ⟨_, rfl⟩
    have final : performs Transfer.run (rootTransfers driver dimX dimY (done ++ [entry]) y lid) memory = performs Transfer.run
          ((List.range (extent dimX)).map (rootTransfer driver dimY y lid entry)) mid := by
      rw [middleEq, ← performs_append]
      simp [rootTransfers]
    obtain ⟨written, kept⟩ := rootTransfer_effect layout usesLast row lid mid
    rw [← middleEq] at external internal others
    -- What the kernel reads is what the pipeline hands to it.
    have input : ∀ x, x < extent dimX → entry.ain.elim [] (contents driver mid x (rootRow dimY entry.inExt y lid)) =
          entry.ain.elim [] (pipeline driver done x y (contents driver memory x y)) := by
      intro x col
      cases reads : entry.ain with
      | none => rfl
      | some b =>
        have isUsed := usesLast b (.inl reads)
        have flag := pipelined.input entry last b reads
        by_cases isLinked : linked b
        · have made := pipelined.produced done entry [] rfl b reads isLinked
          rw [flag.mpr isLinked]
          exact internal b isUsed isLinked made x col
        · have ext : entry.inExt = true := by
            cases isExt : entry.inExt with
            | true => rfl
            | false => exact absurd (flag.mp isExt) isLinked
          rw [ext]
          exact external b isUsed isLinked x col
    have output : ∀ b, entry.aout = some b → ∀ x, x < extent dimX →
        contents driver (performs Transfer.run ((List.range (extent dimX)).map (rootTransfer driver dimY y lid entry)) mid) x
          (rootRow dimY entry.outExt y lid) b =
        pipeline driver (done ++ [entry]) x y (contents driver memory x y) b := by
      intro b writes x col
      rw [written b writes x col, input x col, pipeline_append_singleton]
      simp [entryStep, writes]
    have unwritten : ∀ a, entry.aout ≠ some a → ∀ x, pipeline driver (done ++ [entry]) x y (contents driver memory x y) a =
          pipeline driver done x y (contents driver memory x y) a := by
      intro a notWritten x
      rw [pipeline_append_singleton]
      cases writes : entry.aout with
      | none => simp [entryStep, writes]
      | some b =>
        simp only [entryStep, writes]
        apply update_of_ne
        intro eq
        exact notWritten (eq ▸ writes)
    have ext {a : Allocation} (writes : entry.aout = some a) (notLinked : ¬ linked a) :
        rootRow dimY entry.outExt y lid = y := by
      cases isExt : entry.outExt with
      | true => rfl
      | false => exact absurd ((pipelined.output entry last a writes).mp isExt) notLinked
    rw [final]
    refine ⟨?_, ?_, ?_⟩
    · intro a isUsed notLinked x col
      by_cases writes : entry.aout = some a
      · have result := output a writes x col
        rwa [ext writes notLinked] at result
      · rw [kept a isUsed x col y (row.trans_le planes) fun again => absurd again writes, unwritten a writes x]
        exact external a isUsed notLinked x col
    · intro a isUsed isLinked made x col
      by_cases writes : entry.aout = some a
      · have result := output a writes x col
        rwa [(pipelined.output entry last a writes).mpr isLinked] at result
      · have madeBefore : ∃ p ∈ done, p.aout = some a := by
          obtain ⟨p, mem, makes⟩ := made
          rcases mem_append.mp mem with before | single
          · exact ⟨p, before, makes⟩
          · rw [mem_singleton] at single
            exact absurd (single ▸ makes) writes
        rw [kept a isUsed x col _ ((rootRow_lt row lid).trans_le planes) fun again => absurd again writes,
          unwritten a writes x]
        exact internal a isUsed isLinked madeBefore x col
    · intro a isUsed notLinked x col r inside ne
      rw [kept a isUsed x col r inside]
      · exact others a isUsed notLinked x col r inside ne
      · intro writes
        rwa [ext writes notLinked]

/-- The transfers of calls made one after another, each given by row and worker. -/
def turnTransfers (driver : Driver) (dimX dimY : UInt32) (sl : List ScriptEntry)
    (turns : List (Nat × UInt32)) : List Transfer :=
  turns.flatMap fun turn => rootTransfers driver dimX dimY sl turn.1 turn.2

theorem turnTransfers_effect (layout : Layout driver dimX dimY dimZ used) (uses : ∀ e ∈ sl, ∀ a, e.Uses a → used a)
    (pipelined : Pipelined linked sl) {turns : List (Nat × UInt32)}
    (unique : (turns.map Prod.fst).Nodup) (rows : ∀ turn ∈ turns, turn.1 < extent dimY)
    (memory : Memory) (isUsed : used a) (notLinked : ¬ linked a) (column : x < extent dimX) :
    (∀ turn ∈ turns, contents driver (performs Transfer.run (turnTransfers driver dimX dimY sl turns) memory) x turn.1 a =
        pipeline driver sl x turn.1 (contents driver memory x turn.1) a) ∧
      ∀ r, r < rowCount dimY dimZ → r ∉ turns.map Prod.fst → contents driver
        (performs Transfer.run (turnTransfers driver dimX dimY sl turns) memory) x r a =
        contents driver memory x r a := by
  have planes := extent_le_rowCount dimY dimZ
  induction turns generalizing memory with
  | nil => simp [turnTransfers]
  | cons turn rest ih =>
    obtain ⟨row, otherRows⟩ := forall_mem_cons.mp rows
    rw [map_cons, nodup_cons] at unique
    obtain ⟨external, -, others⟩ := rootTransfers_effect layout uses pipelined row turn.2 memory
    obtain ⟨computed, kept⟩ := ih unique.2 otherRows (performs Transfer.run
      (rootTransfers driver dimX dimY sl turn.1 turn.2) memory)
    have split : performs Transfer.run (turnTransfers driver dimX dimY sl (turn :: rest)) memory =
        performs Transfer.run (turnTransfers driver dimX dimY sl rest) (performs Transfer.run
          (rootTransfers driver dimX dimY sl turn.1 turn.2) memory) := by
      rw [← performs_append]
      rfl
    rw [split]
    constructor
    · intro other mem
      rcases mem_cons.mp mem with eq | later
      · subst eq
        rw [kept other.1 (row.trans_le planes) unique.1]
        exact external a isUsed notLinked x column
      · have ne : other.1 ≠ turn.1 := by
          intro eq
          exact unique.1 (eq ▸ mem_map_of_mem later)
        have untouched : ∀ b, used b → ¬ linked b → contents driver (performs Transfer.run
            (rootTransfers driver dimX dimY sl turn.1 turn.2) memory) x other.1 b = contents driver memory x other.1 b :=
          fun b otherUsed free =>
            others b otherUsed free x column other.1 ((otherRows other later).trans_le planes) ne
        rw [computed other later]
        exact pipelined.pipeline_congr driver (fun e inList b touches free => untouched b (uses e inList b touches) free)
          (.inr (untouched a isUsed notLinked))
    · intro r inside notListed
      rw [map_cons, mem_cons, not_or] at notListed
      rw [kept r inside notListed.2]
      exact others a isUsed notLinked x column r inside notListed.1

end

end RenderScript.Group
