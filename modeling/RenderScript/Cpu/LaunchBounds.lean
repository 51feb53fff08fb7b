import RenderScript.Cpu.LaunchProperties

/-!
# Cells that a launch may touch

`invokeForEach` of rsCpuScript.cpp and rsCpuIntrinsic.cpp launches what `forEachMtlsSetup` has left,
also where that returned early. No moment of a launch has the kernel invoked outside the driving
allocation, and a refused launch has it invoked nowhere.
-/

namespace RenderScript.Cpu
open WrappedSlices
open List hiding isEmpty

section

variable {α : Type} (micro : OuterCall → List α)

/-- The steps of a launch that have happened at some moment: the first ones of the loops, or those of the workers
so far. -/
def MTLaunchStruct.Performs (mtls : MTLaunchStruct) (mCount : UInt32) (mInForEach : Bool) (trace : List α) : Prop :=
  if mCount ≥ 1 ∧ mtls.isThreadable ∧ ¬ mInForEach then
    ∃ sliced pool, mtls.sliced mCount = some sliced ∧
      TicketPool.Reaches (sliced.job micro) (TicketPool.start (sliced.callbackWorkers mCount)) pool ∧
      pool.trace = trace
  else trace <+: mtls.serialTrace micro

theorem MTLaunchStruct.LaunchThreads.performs {mtls : MTLaunchStruct} {mCount : UInt32} {mInForEach : Bool}
    {trace : List α} (launched : mtls.LaunchThreads micro mCount mInForEach trace) :
    mtls.Performs micro mCount mInForEach trace := by
  unfold MTLaunchStruct.LaunchThreads at launched
  unfold MTLaunchStruct.Performs
  split at launched
  case isTrue threaded =>
    rw [if_pos threaded]
    obtain ⟨sliced, chosen, pool, path, -, done⟩ := launched
    exact ⟨sliced, pool, chosen, path, done⟩
  case isFalse serial =>
    rw [if_neg serial, launched]

end

/-- `invokeForEach` of scripts and intrinsics: the invocations of the kernel that have happened. -/
def InvokeForEach (mIsThreadable : Bool) (mCount : UInt32) (mInForEach : Bool) (ain aout : Option LaunchAllocation)
    (sc : Option RsScriptCall) (trace : List Invocation) : Prop :=
  (forEachMtlsSetup mIsThreadable ain aout sc).1.Performs OuterCall.invocations mCount mInForEach trace

def EmptyRange (dim start stop : UInt32) : Prop := stop ≠ 0 ∧ min dim.toNat stop.toNat ≤ min dim.toNat start.toNat

inductive Refused (ain aout : Option LaunchAllocation) (sc : Option RsScriptCall) : Prop where
  | missing : ain = none → aout = none → Refused ain aout sc
  | unmappedIn {a : LaunchAllocation} : ain = some a → a.mallocPtr = 0 → Refused ain aout sc
  | unmappedOut {a : LaunchAllocation} : aout = some a → a.mallocPtr = 0 → Refused ain aout sc
  | empty {driving : LaunchAllocation} {call : RsScriptCall} : (ain <|> aout) = some driving → sc = some call →
      EmptyRange driving.dimX call.xStart call.xEnd ∨ EmptyRange driving.dimY call.yStart call.yEnd ∨
        EmptyRange driving.dimZ call.zStart call.zEnd → Refused ain aout sc

def LaunchAllocation.Has (a : LaunchAllocation) (invocation : Invocation) : Prop :=
  invocation.x.toNat < max 1 a.dimX.toNat ∧ invocation.y.toNat < max 1 a.dimY.toNat ∧
    invocation.z.toNat < max 1 a.dimZ.toNat

structure MTLaunchStruct.EndsIn (a : LaunchAllocation) (mtls : MTLaunchStruct) : Prop where
  x : mtls.xEnd.toNat ≤ max 1 a.dimX.toNat
  y : mtls.yEnd.toNat ≤ max 1 a.dimY.toNat
  z : mtls.zEnd.toNat ≤ max 1 a.dimZ.toNat
  row : mtls.fep.y = 0
  plane : mtls.fep.z = 0

section

variable {mIsThreadable : Bool} {ain aout : Option LaunchAllocation} {sc : Option RsScriptCall}
  {mtls : MTLaunchStruct} {error : Option String}

theorem clampRange_empty {dim start stop : UInt32} (empty : EmptyRange dim start stop) :
    (clampRange dim (some (start, stop))).2 = true := by
  rw [clampRange, if_neg empty.1, decide_eq_true_iff, ge_iff_le, UInt32.le_iff_toNat_le, toNat_rsMin, toNat_rsMin]
  exact empty.2

theorem clampRange_le (dim : UInt32) (requested : Option (UInt32 × UInt32)) :
    (clampRange dim requested).1.2.toNat ≤ dim.toNat := by
  cases requested with
  | none => exact le_rfl
  | some range =>
    rw [clampRange]
    split
    · exact le_rfl
    · rw [toNat_rsMin]
      exact min_le_left _ _

theorem setup_cases (setup : forEachMtlsSetup mIsThreadable ain aout sc = (mtls, error)) :
    (mtls.isThreadable = false ∧ mtls.arrayEnd = 0) ∨ (error = none ∧ ¬ Refused ain aout sc) ∧
        ∃ driving, (ain <|> aout) = some driving ∧ mtls.EndsIn driving := by
  unfold forEachMtlsSetup at setup
  iterate 3
    split at setup
    · cases setup
      exact .inl ⟨rfl, rfl⟩
  dsimp only at setup
  iterate 3
    split at setup
    · cases setup
      exact .inl ⟨rfl, rfl⟩
  rename_i mappedIn mappedOut _ driving found xKept yKept zKept
  cases setup
  refine .inr ⟨⟨rfl, ?_⟩, driving, found, ?_⟩
  · intro refused
    cases refused with
    | missing noIn noOut => simp [noIn, noOut] at found
    | unmappedIn isIn null => simp [isIn, null] at mappedIn
    | unmappedOut isOut null => simp [isOut, null] at mappedOut
    | empty eq given ranges =>
      cases found.symm.trans eq
      subst given
      rcases ranges with x | y | z
      · exact xKept (clampRange_empty x)
      · exact yKept (clampRange_empty y)
      · exact zKept (clampRange_empty z)
  · constructor
    iterate 3
      · rw [toNat_rsMax]
        exact max_le_max le_rfl (clampRange_le _ _)
    · rfl
    · rfl

end

section

variable {mtls : MTLaunchStruct} {driving : LaunchAllocation} {invocation : Invocation}

theorem serialTrace_idle (idle : mtls.arrayEnd = 0) : mtls.serialTrace OuterCall.invocations = [] := by
  have none : counter mtls.arrayStart mtls.arrayEnd = [] := by
    rw [counter, idle, UInt32.toNat_zero, Nat.zero_sub]
    rfl
  rw [MTLaunchStruct.serialTrace, MTLaunchStruct.serialCalls, none]
  rfl

theorem OuterCall.has {call : OuterCall} (x : call.x2.toNat ≤ max 1 driving.dimX.toNat)
    (y : call.p.y.toNat < max 1 driving.dimY.toNat) (z : call.p.z.toNat < max 1 driving.dimZ.toNat)
    (mem : invocation ∈ call.invocations) : driving.Has invocation := by
  obtain ⟨col, inside, rfl⟩ := mem_map.mp mem
  have lt := (mem_counter.mp inside).2
  exact ⟨lt.trans_le x, y, z⟩

theorem MTLaunchStruct.EndsIn.of_serial (ends : mtls.EndsIn driving)
    (mem : invocation ∈ mtls.serialTrace OuterCall.invocations) : driving.Has invocation := by
  obtain ⟨call, made, invoked⟩ := mem_flatMap.mp mem
  obtain ⟨ar, -, inArray⟩ := mem_flatMap.mp made
  obtain ⟨z, inPlanes, inPlane⟩ := mem_flatMap.mp inArray
  obtain ⟨y, inRows, rfl⟩ := mem_map.mp inPlane
  have low := (mem_counter.mp inRows).2
  have near := (mem_counter.mp inPlanes).2
  exact OuterCall.has ends.x (low.trans_le ends.y) (near.trans_le ends.z) invoked

theorem MTLaunchStruct.EndsIn.of_slice (ends : mtls.EndsIn driving) {idx slice : UInt32} {calls : List OuterCall}
    {call : OuterCall} (drawn : mtls.slice idx slice = some calls) (made : call ∈ calls)
    (invoked : invocation ∈ call.invocations) : driving.Has invocation := by
  have plane : mtls.fep.z.toNat < max 1 driving.dimZ.toNat := by
    rw [ends.plane]
    exact lt_max_of_lt_left Nat.zero_lt_one
  unfold MTLaunchStruct.slice at drawn
  split at drawn
  · -- rows of `wc_xy`
    unfold MTLaunchStruct.wc_xy at drawn
    dsimp only at drawn
    split at drawn
    · cases drawn
    · cases drawn
      obtain ⟨y, inRows, rfl⟩ := mem_map.mp made
      have low := (mem_counter.mp inRows).2
      rw [UInt32.lt_iff_toNat_lt, toNat_rsMin] at low
      exact OuterCall.has ends.x ((low.trans_le (min_le_right _ _)).trans_le ends.y) plane invoked
  · -- cells of `wc_x`
    unfold MTLaunchStruct.wc_x at drawn
    dsimp only at drawn
    split at drawn
    · cases drawn
    · cases drawn
      cases mem_singleton.mp made
      refine OuterCall.has ?_ ?_ plane invoked
      · change (rsMin _ mtls.xEnd).toNat ≤ _
        rw [toNat_rsMin]
        exact (min_le_right _ _).trans ends.x
      · change mtls.fep.y.toNat < _
        rw [ends.row]
        exact lt_max_of_lt_left Nat.zero_lt_one

theorem MTLaunchStruct.EndsIn.sliced {sliced : MTLaunchStruct} {mCount : UInt32} (ends : mtls.EndsIn driving)
    (chosen : mtls.sliced mCount = some sliced) : sliced.EndsIn driving := by
  rw [(sliced_eq chosen).2]
  exact { ends with }

theorem MTLaunchStruct.EndsIn.of_work (ends : mtls.EndsIn driving) {idx ticket : Nat}
    (mem : invocation ∈ (mtls.job OuterCall.invocations).work idx ticket) : driving.Has invocation := by
  obtain ⟨call, made, invoked⟩ := mem_flatMap.mp mem
  cases drawn : mtls.slice (.ofNat idx) (.ofNat ticket) with
  | none =>
    rw [drawn] at made
    cases made
  | some calls =>
    rw [drawn] at made
    exact ends.of_slice drawn made invoked

end

/-- The kernel is invoked on cells of the driving allocation only, and nowhere where the launch is refused. -/
theorem invocations_inside {mIsThreadable mInForEach : Bool} {mCount : UInt32} {ain aout : Option LaunchAllocation}
    {sc : Option RsScriptCall} {trace : List Invocation}
    (launched : InvokeForEach mIsThreadable mCount mInForEach ain aout sc trace) :
    (∀ invocation ∈ trace, ∃ driving, (ain <|> aout) = some driving ∧ driving.Has invocation) ∧
      (Refused ain aout sc → trace = []) ∧
      ((forEachMtlsSetup mIsThreadable ain aout sc).2 ≠ none → trace = []) := by
  unfold InvokeForEach at launched
  obtain ⟨⟨mtls, error⟩, setup⟩ : ∃ made, forEachMtlsSetup mIsThreadable ain aout sc = made := ⟨_, rfl⟩
  rw [setup] at launched ⊢
  rcases setup_cases setup with ⟨serial, idle⟩ | ⟨⟨rfl, accepted⟩, driving, found, ends⟩
  · have nothing : trace = [] := by
      unfold MTLaunchStruct.Performs at launched
      rw [serial, if_neg (by simp), serialTrace_idle idle] at launched
      exact List.prefix_nil.mp launched
    rw [nothing]
    exact ⟨fun invocation mem => absurd mem not_mem_nil, fun _ => rfl, fun _ => rfl⟩
  · refine ⟨fun invocation mem => ⟨driving, found, ?_⟩, fun refused => absurd refused accepted,
      fun failed => absurd rfl failed⟩
    unfold MTLaunchStruct.Performs at launched
    split at launched
    · obtain ⟨sliced, pool, chosen, path, rfl⟩ := launched
      obtain ⟨idx, ticket, issued⟩ := path.exists_of_mem mem
      exact (ends.sliced chosen).of_work issued
    · exact ends.of_serial (launched.subset mem)

/-- A range that starts outside a row of five cells, and one that ends outside. -/
theorem invocations_inside_row :
    (∀ trace, InvokeForEach true 3 false (some ⟨4096, 32, 5, 0, 0, 4⟩) none (some ⟨7, 9, 0, 0, 0, 0⟩) trace → trace = []) ∧
    ∀ trace, InvokeForEach true 3 false (some ⟨4096, 32, 5, 0, 0, 4⟩) none (some ⟨2, 9, 0, 0, 0, 0⟩) trace →
      ∀ invocation ∈ trace, invocation.x.toNat < 5 := by
  constructor
  · intro trace launched
    exact (invocations_inside launched).2.1 (.empty rfl rfl (.inl ⟨by decide, by decide⟩))
  · intro trace launched invocation mem
    obtain ⟨driving, found, inside⟩ := (invocations_inside launched).1 invocation mem
    cases found
    exact inside.1

end RenderScript.Cpu
