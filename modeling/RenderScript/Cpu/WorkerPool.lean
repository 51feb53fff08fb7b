import RenderScript.Foundation.Interleaving
import RenderScript.Cpu.Launch

/-!
# The worker pool of the CPU reference driver

The threads of rsCpuCore.cpp: `init` creates helpers, `launchThreads` hands them a
callback, and the destructor ends them. Each helper waits on a `Signal` of its own,
and `Signal::wait` of rsSignal.cpp tests `mSet` before it blocks but not after.
-/

namespace RenderScript.Workers
open Cpu List Option

/-- Where a helper is in `helperThreadProc`. -/
inductive Place where
  -- not created, or created and without a number
  | absent
  -- at the test of `mExit`
  | looping
  -- in `wait`: before the test of `mSet`, in `pthread_cond_wait`, and behind it
  | entering
  | blocked
  | woken
  -- behind `wait`, in the callback, before the subtraction, and before `mCompleteSignal.set()`
  | running
  | calling (callback : Nat)
  | returned
  | finished
  | exited
  deriving DecidableEq

/-- A helper with the `mSet` of its launch signal. Bookkeeping: whether it has finished the
current start-up or launch, and the callbacks it has run. -/
structure Worker where
  mSet : Bool := true
  place : Place := .absent
  done : Bool := false
  log : List Nat := []
  deriving DecidableEq

/-- Where the thread that calls `init`, `launchThreads` and the destructor is. -/
inductive Caller where
  -- in `init`: creating the helpers, and waiting for them
  | creating (ct : Nat)
  | starting
  -- between calls
  | idle
  -- in `launchThreads`: on the fast path, before `mRunningCount` is written, in the loop of
  -- signals, in the callback, at the test of `mRunningCount`, and in `wait`
  | alone
  | published
  | signalling (ct : Nat)
  | calling
  | draining
  | entering
  | blocked
  | woken
  -- in the destructor
  | exiting (ct : Nat)
  | joining
  deriving DecidableEq

/-- Callbacks are numbers, and a null callback is `none`. `created` counts the calls of
`pthread_create` that succeeded. Bookkeeping: the callbacks of earlier launches, and that of
the current one, fast ones apart. -/
structure Pool where
  mCount : Nat
  mRunningCount : Int
  mLaunchCount : Nat := 0
  mLaunchCallback : Option Nat := none
  mExit : Bool := false
  completeSet : Bool := false
  created : Nat := 0
  caller : Caller := .creating 0
  worker : Nat → Worker := fun _ => {}
  history : List Nat := []
  current : Option Nat := none

/-- The state of `init` before its loop. -/
def Pool.start (requested : Nat) : Pool := { mCount := requested, mRunningCount := requested }

/-- The end of `wait`. -/
def Worker.leaveWait (worker : Worker) : Worker := { worker with mSet := false, place := .running }

/-- `set()` of the launch signal. -/
def Worker.set (worker : Worker) : Worker :=
  { worker with mSet := true, place := if worker.place = .blocked then .woken else worker.place }

def Worker.step (mExit : Bool) (mLaunchCallback : Option Nat) (worker : Worker) : Option Worker :=
  match worker.place with
  | .absent | .blocked | .exited => none
  | .looping => some { worker with place := if mExit then .exited else .entering }
  | .entering => some (if worker.mSet then worker.leaveWait else { worker with place := .blocked })
  | .woken => some worker.leaveWait
  | .running =>
    match mLaunchCallback with
    | some callback =>
      some { worker with place := .calling callback, log := worker.log ++ [callback] }
    | none => some { worker with place := .returned }
  | .calling _ => some { worker with place := .returned }
  | .returned => some { worker with place := .finished, done := true }
  | .finished => some { worker with place := .looping }

namespace Pool

def setWorker (p : Pool) (i : Nat) (worker : Worker) : Pool :=
  { p with worker := Function.update p.worker i worker }

/-- `mCompleteSignal.set()`. -/
def setComplete (p : Pool) : Pool :=
  { p with completeSet := true, caller := if p.caller = .blocked then .woken else p.caller }

/-- One step of the helper with index `i`. -/
def helperStep (p : Pool) (i : Nat) : Option Pool :=
  ((p.worker i).step p.mExit p.mLaunchCallback).map fun worker =>
    match (p.worker i).place with
    | .returned => { p.setWorker i worker with mRunningCount := p.mRunningCount - 1 }
    | .finished => (p.setWorker i worker).setComplete
    | _ => p.setWorker i worker

def startHelper (p : Pool) : Option Pool :=
  if p.mLaunchCount < p.created then
    some { p.setWorker p.mLaunchCount { p.worker p.mLaunchCount with place := .looping } with mLaunchCount := p.mLaunchCount + 1 }
  else none

def callerStep (p : Pool) : Option Pool :=
  match p.caller with
  | .creating ct => if ct < p.mCount then none else some { p with caller := .starting }
  | .starting => some (if p.mRunningCount = 0 then { p with caller := .idle } else p)
  | .idle | .blocked | .joining => none
  | .alone => some { p with caller := .idle }
  | .published =>
    some { p with
      mRunningCount := p.mCount, caller := .signalling 0, worker := fun i => { p.worker i with done := false }
      current := p.mLaunchCallback }
  | .signalling ct =>
    some (if ct < p.mCount then
        { p.setWorker ct (p.worker ct).set with caller := .signalling (ct + 1) }
      else { p with caller := .calling })
  | .calling => some { p with caller := .draining }
  | .draining =>
    some (if p.mRunningCount = 0 then
        { p with caller := .idle, history := p.history ++ p.current.toList, current := none }
      else { p with caller := .entering })
  | .entering =>
    some (if p.completeSet then { p with completeSet := false, caller := .draining }
      else { p with caller := .blocked })
  | .woken => some { p with completeSet := false, caller := .draining }
  | .exiting ct =>
    some (if ct < p.mCount then
        { p.setWorker ct (p.worker ct).set with caller := .exiting (ct + 1) }
      else { p with caller := .joining })

/-- A call of `pthread_create` in the loop of `init`. -/
def create (p : Pool) (succeeds : Bool) : Option Pool :=
  match p.caller with
  | .creating ct =>
    if ct < p.mCount then
      some (if succeeds then { p with created := p.created + 1, caller := .creating (ct + 1) }
        else { p with mCount := ct, caller := .starting })
    else none
  | _ => none

end Pool

def fastPath : Option MTLaunchStruct → Bool
  | some mtls => mtls.fep.dimY ≤ 1 ∧ mtls.xEnd ≤ mtls.xStart + mtls.mSliceSize
  | none => false

/-- `spurious` and `spuriousCaller` are returns of `pthread_cond_wait` without a signal. -/
inductive Act where
  | create (succeeds : Bool)
  | caller
  | launch (cbk : Option Nat) (data : Option MTLaunchStruct)
  | destroy
  | start
  | helper (i : Nat)
  | spurious (i : Nat)
  | spuriousCaller

def Pool.step (p : Pool) : Act → Option Pool
  | .create succeeds => p.create succeeds
  | .caller => p.callerStep
  | .launch cbk data =>
    if p.caller = .idle then
      some { p with mLaunchCallback := cbk, caller := if fastPath data then .alone else .published }
    else none
  | .destroy =>
    if p.caller = .idle then
      some { p with mExit := true, mLaunchCallback := none, mRunningCount := p.mCount, caller := .exiting 0 }
    else none
  | .start => p.startHelper
  | .helper i => p.helperStep i
  | .spurious i =>
    if (p.worker i).place = .blocked then
      some (p.setWorker i { p.worker i with place := .woken })
    else none
  | .spuriousCaller => if p.caller = .blocked then some { p with caller := .woken } else none

def Act.launched : Act → Option Nat
  | .launch cbk data => if fastPath data then none else cbk
  | _ => none

/-- The created helpers that have not finished the current start-up or launch. -/
def Pool.unfinished (p : Pool) : Finset Nat :=
  {i ∈ Finset.range p.created | (p.worker i).done = false}

/-- The helpers that `init` has still to create. -/
def Pool.uncreated (p : Pool) : Nat :=
  match p.caller with
  | .creating ct => p.mCount - ct
  | _ => 0

/-- A pool after some acts: the count is right until the destructor writes it, no helper runs
a callback twice or out of order, and outside of a call every helper has run all of them and
is in none. -/
structure Pool.Right (p : Pool) (acts : List Act) : Prop where
  running : p.mExit = false → p.mRunningCount = p.unfinished.card + p.uncreated
  once : ∀ i < p.created, (p.worker i).log <+: acts.filterMap Act.launched
  returned : p.caller = .idle → ∀ i < p.created,
    (p.worker i).log = acts.filterMap Act.launched ∧ ∀ callback, (p.worker i).place ≠ .calling callback

open Interleaving

variable {worker next : Worker} {i : Nat} {mExit : Bool} {act : Act}

def Place.Outside : Place → Prop
  | .running | .calling _ | .returned => False
  | _ => True

/-- How far a helper is in a round: a start-up or a launch with the callback `current`. -/
inductive Phase (late : Prop) (history : List Nat) (current : Option Nat) (worker : Worker) : Prop where
  | late (isLate : late) (unset : worker.mSet = false) (outside : worker.place.Outside)
      (unfinished : worker.done = false) (log : worker.log = history)
  | armed (inTime : ¬late) (set : worker.mSet = true) (outside : worker.place.Outside)
      (unfinished : worker.done = false) (log : worker.log = history)
  | running (inTime : ¬late) (unset : worker.mSet = false) (place : worker.place = .running)
      (unfinished : worker.done = false) (log : worker.log = history)
  | calling {callback : Nat} (inTime : ¬late) (unset : worker.mSet = false)
      (place : worker.place = .calling callback) (unfinished : worker.done = false)
      (log : worker.log = history ++ current.toList)
  | returned (inTime : ¬late) (unset : worker.mSet = false) (place : worker.place = .returned)
      (unfinished : worker.done = false) (log : worker.log = history ++ current.toList)
  | done (inTime : ¬late) (unset : worker.mSet = false) (outside : worker.place.Outside)
      (finished : worker.done = true) (log : worker.log = history ++ current.toList)

section

variable {late : Prop} {history : List Nat} {current : Option Nat} {worker : Worker}

theorem Phase.move (phase : Phase late history current worker) {place : Place}
    (before : worker.place.Outside) (after : place.Outside) :
    Phase late history current { worker with place := place } := by
  cases phase with
  | late isLate unset _ unfinished log => exact .late isLate unset after unfinished log
  | armed inTime set _ unfinished log => exact .armed inTime set after unfinished log
  | running _ _ here | calling _ _ here | returned _ _ here =>
    rw [here] at before
    cases before
  | done inTime unset _ finished log => exact .done inTime unset after finished log

theorem Phase.leaveWait (phase : Phase late history current worker) (set : worker.mSet = true) :
    Phase late history current worker.leaveWait := by
  cases phase with
  | armed inTime _ _ unfinished log => exact .running inTime rfl rfl unfinished log
  | late _ unset | running _ unset | calling _ unset | returned _ unset | done _ unset =>
    rw [unset] at set
    cases set

/-- One step of a helper that leaves `wait` only when its signal is set. -/
theorem Phase.step (phase : Phase late history current worker) (careful : worker.place = .woken → worker.mSet = true)
    (moved : worker.step false current = some next) : Phase late history current next := by
  unfold Worker.step at moved
  cases here : worker.place with
  | absent | blocked | exited => simp [here] at moved
  | looping =>
    simp only [here, Bool.false_eq_true, if_false, Option.some.injEq] at moved
    subst moved
    exact phase.move (by rw [here]; trivial) trivial
  | entering =>
    rw [here] at moved
    cases moved
    split
    case isTrue set => exact phase.leaveWait set
    case isFalse => exact phase.move (by rw [here]; trivial) trivial
  | woken =>
    rw [here] at moved
    cases moved
    exact phase.leaveWait (careful here)
  | running =>
    cases phase with
    | running inTime unset _ unfinished log =>
      cases current with
      | none =>
        rw [here] at moved
        cases moved
        exact .returned inTime unset rfl unfinished (by rw [log]; exact (append_nil _).symm)
      | some callback =>
        rw [here] at moved
        cases moved
        exact .calling inTime unset rfl unfinished (by rw [log]; rfl)
    | late _ _ out | armed _ _ out | done _ _ out =>
      rw [here] at out
      cases out
    | calling _ _ place | returned _ _ place => rw [here] at place; cases place
  | calling callback =>
    rw [here] at moved
    cases moved
    cases phase with
    | calling inTime unset _ unfinished log => exact .returned inTime unset rfl unfinished log
    | late _ _ out | armed _ _ out | done _ _ out =>
      rw [here] at out
      cases out
    | running _ _ place | returned _ _ place => rw [here] at place; cases place
  | returned =>
    rw [here] at moved
    cases moved
    cases phase with
    | returned inTime unset _ _ log => exact .done inTime unset trivial rfl log
    | late _ _ out | armed _ _ out | done _ _ out =>
      rw [here] at out
      cases out
    | running _ _ place | calling _ _ place => rw [here] at place; cases place
  | finished =>
    rw [here] at moved
    cases moved
    exact phase.move (by rw [here]; trivial) trivial

end

inductive Stage where
  | creating (ct : Nat)
  | starting
  | resting
  | published
  | signalling (ct : Nat)
  | launching
  | ending
  deriving DecidableEq

def Caller.stage : Caller → Stage
  | .creating ct => .creating ct
  | .starting => .starting
  | .idle | .alone => .resting
  | .published => .published
  | .signalling ct => .signalling ct
  | .calling | .draining | .entering | .blocked | .woken => .launching
  | .exiting _ | .joining => .ending

/-- The loop of signals has not come to helper `i` yet. -/
def Stage.Late : Stage → Nat → Prop
  | .signalling ct, i => ct ≤ i
  | _, _ => False

def Stage.made (mCount : Nat) : Stage → Nat
  | .creating ct => ct
  | _ => mCount

def Pool.Agrees (p : Pool) : Stage → Prop
  | .creating _ | .starting => p.mLaunchCallback = none ∧ p.current = none
  | .resting | .published => p.current = none ∧ ∀ i < p.mCount, (p.worker i).done = true
  | .signalling _ | .launching => p.mLaunchCallback = p.current
  | .ending => False

def Pool.pending (p : Pool) : Stage → Option Nat
  | .published => p.mLaunchCallback
  | _ => p.current

def Pool.outstanding (p : Pool) : Finset Nat := {i ∈ Finset.range p.mCount | (p.worker i).done = false}

structure Pool.Inv (p : Pool) (acts : List Act) : Prop where
  alive : p.mExit = false
  fresh : ∀ i, p.mLaunchCount ≤ i → p.worker i = {}
  drawn : p.mLaunchCount ≤ p.created
  created : p.created ≤ p.mCount
  made : p.created = p.caller.stage.made p.mCount
  running : p.mRunningCount = p.outstanding.card
  phase : ∀ i < p.mCount, Phase (p.caller.stage.Late i) p.history p.current (p.worker i)
  agrees : p.Agrees p.caller.stage
  launched : acts.filterMap Act.launched = p.history ++ (p.pending p.caller.stage).toList

section

variable {caller : Caller} {current : Option Nat} {history : List Nat} {late : Prop} {p q : Pool} {acts : List Act}

theorem Pool.mem_outstanding : i ∈ p.outstanding ↔ i < p.mCount ∧ (p.worker i).done = false := by
  simp [Pool.outstanding]

theorem Pool.Inv.start (requested : Nat) : (Pool.start requested).Inv [] where
  alive := rfl
  fresh _ _ := rfl
  drawn := le_rfl
  created := Nat.zero_le _
  made := rfl
  running := by
    have all : (Pool.start requested).outstanding = Finset.range requested := Finset.filter_true_of_mem fun _ _ => rfl
    rw [all, Finset.card_range]
    rfl
  phase _ _ := .armed id rfl trivial rfl rfl
  agrees := ⟨rfl, rfl⟩
  launched := rfl

theorem Pool.Inv.sameStage (inv : p.Inv acts) {set : Bool} (same : caller.stage = p.caller.stage) :
    Pool.Inv { p with caller := caller, completeSet := set } acts where
  __ := inv
  made := same ▸ inv.made
  phase := same ▸ inv.phase
  agrees := same ▸ inv.agrees
  launched := same ▸ inv.launched

theorem Pool.setWorker_self : (p.setWorker i worker).worker i = worker := by
  simp [setWorker]

theorem Pool.setWorker_of_ne {j : Nat} (other : j ≠ i) : (p.setWorker i worker).worker j = p.worker j := by
  simp [setWorker, Function.update_of_ne other]

/-- A predicate holds of all helpers after a change if it holds of the changed one and held of
the others. -/
theorem Pool.forall_setWorker (Holds : Nat → Worker → Prop)
    (changed : Holds i worker) (others : ∀ j, j ≠ i → Holds j (p.worker j)) (j : Nat) :
    Holds j ((p.setWorker i worker).worker j) := by
  rcases eq_or_ne j i with rfl | other
  · rw [setWorker_self]
    exact changed
  · rw [setWorker_of_ne other]
    exact others j other

theorem Pool.outstanding_setWorker_of_same (same : worker.done = (p.worker i).done) :
    (p.setWorker i worker).outstanding = p.outstanding := by
  refine Finset.filter_congr fun j _ => ?_
  rcases eq_or_ne j i with rfl | other
  · rw [setWorker_self, same]
  · rw [setWorker_of_ne other]

theorem Pool.outstanding_setWorker_of_done (done : worker.done = true) :
    (p.setWorker i worker).outstanding = p.outstanding.erase i := by
  ext j
  rw [Finset.mem_erase, mem_outstanding, mem_outstanding]
  rcases eq_or_ne j i with rfl | other
  · simp [setWorker_self, done]
  · simp [other, setWorker]

variable (inv : p.Inv acts)

include inv

theorem Pool.Inv.change {count : Int}
    (known : i < p.mLaunchCount) (phase : Phase (p.caller.stage.Late i) p.history p.current worker)
    (stays : (p.worker i).done = true → worker.done = true) (counted : count = (p.setWorker i worker).outstanding.card) :
    Pool.Inv { p.setWorker i worker with mRunningCount := count } acts where
  __ := inv
  fresh j later := by
    have other : j ≠ i := by rintro rfl; exact not_lt.mpr later known
    exact (setWorker_of_ne other).trans (inv.fresh j later)
  running := counted
  phase := forall_setWorker (fun j worker => j < p.mCount → Phase (p.caller.stage.Late j) p.history p.current worker)
    (fun _ => phase) fun j _ => inv.phase j
  agrees := by
    have finished : (∀ j < p.mCount, (p.worker j).done = true) →
        ∀ j < p.mCount, ((p.setWorker i worker).worker j).done = true := fun before =>
      forall_setWorker (fun j worker => j < p.mCount → worker.done = true)
        (fun inside => stays (before i inside)) fun j _ => before j
    have agrees := inv.agrees
    show Pool.Agrees _ p.caller.stage
    cases stage : p.caller.stage with
    | creating | starting | signalling | launching | ending => rw [stage] at agrees; exact agrees
    | resting | published => rw [stage] at agrees; exact ⟨agrees.1, finished agrees.2⟩

theorem Pool.Inv.move (known : i < p.mLaunchCount) (phase : Phase (p.caller.stage.Late i) p.history p.current worker)
    (same : worker.done = (p.worker i).done) : (p.setWorker i worker).Inv acts :=
  inv.change known phase (fun finished => same.trans finished) (by rw [outstanding_setWorker_of_same same]; exact inv.running)

/-- The callback that a helper behind `wait` reads is that of the current round. -/
theorem Pool.Inv.callback (inside : i < p.mCount) (unfinished : (p.worker i).done = false) : p.mLaunchCallback = p.current := by
  have agrees := inv.agrees
  cases stage : p.caller.stage with
  | creating | starting => rw [stage] at agrees; exact agrees.1.trans agrees.2.symm
  | signalling | launching => rw [stage] at agrees; exact agrees
  | resting | published =>
    rw [stage] at agrees
    have finished := agrees.2 i inside
    rw [unfinished] at finished
    cases finished
  | ending => rw [stage] at agrees; cases agrees

omit inv in
theorem Worker.step_callback {callback other : Option Nat}
    (elsewhere : worker.place ≠ .running) : worker.step mExit callback = worker.step mExit other := by
  cases here : worker.place with
  | running => exact absurd here elsewhere
  | _ => simp [Worker.step, here]

omit inv in
theorem Worker.step_done {callback : Option Nat} (moved : worker.step mExit callback = some next) :
    next.done = (if worker.place = .returned then true else worker.done) ∧ (callback = none → next.log = worker.log) := by
  unfold Worker.step at moved
  cases here : worker.place with
  | absent | blocked | exited => simp [here] at moved
  | looping | woken | calling | returned | finished =>
    rw [here] at moved
    cases moved
    exact ⟨rfl, fun _ => rfl⟩
  | entering =>
    rw [here] at moved
    cases moved
    split <;> exact ⟨rfl, fun _ => rfl⟩
  | running =>
    rw [here] at moved
    cases callback with
    | none => cases moved; exact ⟨rfl, fun _ => rfl⟩
    | some data => cases moved; exact ⟨rfl, nofun⟩

omit inv in
theorem Phase.unfinished_of_inside (phase : Phase late history current worker) (inside : ¬worker.place.Outside) :
    worker.done = false := by
  cases phase with
  | late _ _ outside | armed _ _ outside | done _ _ outside => exact absurd outside inside
  | running _ _ _ unfinished | calling _ _ _ unfinished | returned _ _ _ unfinished => exact unfinished

/-- A run is right as long as helpers are created and leave `wait` only when their signal is
set. -/
def Careful (p : Pool) : Act → Prop
  | .create succeeds => succeeds = true
  | .helper i => (p.worker i).place = .woken → (p.worker i).mSet = true
  | _ => True

theorem Pool.Inv.helperStep (careful : (p.worker i).place = .woken → (p.worker i).mSet = true)
    (moved : p.helperStep i = some q) : q.Inv acts := by
  obtain ⟨worker, stepped, rfl⟩ := map_eq_some_iff.mp moved
  rw [inv.alive] at stepped
  have known : i < p.mLaunchCount := by
    by_contra later
    rw [inv.fresh i (not_lt.mp later)] at stepped
    cases stepped
  have inside : i < p.mCount := lt_of_lt_of_le known (inv.drawn.trans inv.created)
  have before := inv.phase i inside
  have same : (p.worker i).step false p.mLaunchCallback = (p.worker i).step false p.current := by
    by_cases here : (p.worker i).place = .running
    · rw [inv.callback inside (before.unfinished_of_inside (by rw [here]; exact id))]
    · exact Worker.step_callback here
  have after := before.step careful (same ▸ stepped)
  have done := (Worker.step_done stepped).1
  cases here : (p.worker i).place with
  | returned =>
    rw [here, if_pos rfl] at done
    refine inv.change known after (fun _ => done) ?_
    have counted : i ∈ p.outstanding := mem_outstanding.mpr ⟨inside, before.unfinished_of_inside (by rw [here]; exact id)⟩
    rw [outstanding_setWorker_of_done done, inv.running, Finset.card_erase_of_mem counted,
      Nat.cast_pred (Finset.card_pos.mpr ⟨i, counted⟩)]
  | finished =>
    rw [here, if_neg (by decide)] at done
    refine (inv.move known after done).sameStage ?_
    split
    case isTrue blocked => rw [blocked]; rfl
    case isFalse => rfl
  | absent | looping | entering | blocked | woken | running | calling | exited =>
    rw [here, if_neg (by simp)] at done
    exact inv.move known after done

theorem Pool.Inv.startHelper (moved : p.startHelper = some q) : q.Inv acts := by
  obtain ⟨room, made⟩ := ite_none_right_eq_some.mp moved
  cases made
  have drawn : Pool.Inv { p with mLaunchCount := p.mLaunchCount + 1 } acts :=
    { inv with
      fresh := fun i later => inv.fresh i (Nat.le_of_succ_le later)
      drawn := room }
  have out : (p.worker p.mLaunchCount).place.Outside := by
    rw [inv.fresh _ le_rfl]
    trivial
  have inside := lt_of_lt_of_le room inv.created
  exact drawn.move (Nat.lt_succ_self _) ((inv.phase _ inside).move out trivial) rfl

theorem Pool.Inv.spurious (blocked : (p.worker i).place = .blocked) :
    (p.setWorker i { p.worker i with place := .woken }).Inv acts := by
  have known : i < p.mLaunchCount := by
    by_contra later
    rw [inv.fresh i (not_lt.mp later)] at blocked
    cases blocked
  have inside : i < p.mCount := lt_of_lt_of_le known (inv.drawn.trans inv.created)
  exact inv.move known ((inv.phase i inside).move (by rw [blocked]; trivial) trivial) rfl

theorem Pool.Inv.restage (made : p.created = caller.stage.made p.mCount)
    (late : ∀ i < p.mCount, (caller.stage.Late i ↔ p.caller.stage.Late i)) (agrees : p.Agrees caller.stage)
    (pending : p.pending caller.stage = p.pending p.caller.stage) :
    Pool.Inv { p with caller := caller } acts where
  __ := inv
  made := made
  phase i inside := propext (late i inside) ▸ inv.phase i inside
  agrees := agrees
  launched := inv.launched.trans (congrArg (fun pending => p.history ++ Option.toList pending) pending.symm)

theorem Pool.Inv.all_done (none : p.mRunningCount = 0) : ∀ i < p.mCount, (p.worker i).done = true := by
  intro i inside
  have empty : p.outstanding = ∅ := by
    rw [← Finset.card_eq_zero]
    exact Int.ofNat_eq_zero.mp (inv.running.symm.trans none)
  by_contra unfinished
  have mem : i ∈ p.outstanding := mem_outstanding.mpr ⟨inside, Bool.eq_false_of_not_eq_true unfinished⟩
  rw [empty] at mem
  cases mem

omit inv in
theorem Phase.of_done (phase : Phase late history current worker) (done : worker.done = true) :
    ¬late ∧ worker.mSet = false ∧ worker.place.Outside ∧ worker.log = history ++ current.toList := by
  cases phase with
  | done inTime unset outside _ log => exact ⟨inTime, unset, outside, log⟩
  | late _ _ _ unfinished | armed _ _ _ unfinished | running _ _ _ unfinished
  | calling _ _ _ unfinished | returned _ _ _ unfinished =>
    rw [unfinished] at done
    cases done

theorem Pool.Inv.publish (here : p.caller = .published) : Pool.Inv { p with
      mRunningCount := p.mCount
      caller := .signalling 0
      worker := fun i => { p.worker i with done := false }
      current := p.mLaunchCallback } acts := by
  have agrees := inv.agrees
  have made := inv.made
  have launched := inv.launched
  rw [here] at agrees made launched
  exact {
    __ := inv
    fresh := fun i later =>
      congrArg (fun worker : Worker => { worker with done := false }) (inv.fresh i later)
    made := made
    running := by
      have all : Pool.outstanding { p with worker := fun i => { p.worker i with done := false } } =
          Finset.range p.mCount := Finset.filter_true_of_mem fun _ _ => rfl
      exact congrArg Nat.cast ((Finset.card_range p.mCount).symm.trans (congrArg Finset.card all.symm))
    phase := fun i inside => by
      obtain ⟨_, unset, out, log⟩ := (inv.phase i inside).of_done (agrees.2 i inside)
      rw [agrees.1] at log
      exact .late (Nat.zero_le i) unset out rfl (log.trans (append_nil _))
    agrees := rfl
    launched := launched }

omit inv in
theorem Worker.set_outside (out : worker.place.Outside) : worker.set.place.Outside := by
  unfold Worker.set
  split
  case isTrue => trivial
  case isFalse => exact out

theorem Pool.Inv.signal {ct : Nat} (here : p.caller = .signalling ct) (room : ct < p.mCount) :
    Pool.Inv { p.setWorker ct (p.worker ct).set with caller := .signalling (ct + 1) } acts := by
  have agrees := inv.agrees
  have made := inv.made
  have launched := inv.launched
  have phases := inv.phase
  rw [here] at agrees made launched phases
  exact {
    __ := inv, fresh := forall_setWorker (fun i worker => p.mLaunchCount ≤ i → worker = {})
      (fun later => by rw [inv.fresh ct later]; rfl) fun i _ => inv.fresh i
    made := made
    running := by
      have same : (p.setWorker ct (p.worker ct).set).outstanding = p.outstanding := outstanding_setWorker_of_same rfl
      exact inv.running.trans (congrArg Nat.cast (congrArg Finset.card same.symm))
    phase := forall_setWorker (fun i worker => i < p.mCount → Phase (ct + 1 ≤ i) p.history p.current worker) (fun _ => by
        cases phases ct room with
        | late _ _ outside unfinished log =>
          exact .armed (Nat.not_succ_le_self ct) rfl (Worker.set_outside outside) unfinished log
        | armed inTime | running inTime | calling inTime | returned inTime | done inTime =>
          exact absurd le_rfl inTime)
      fun i other inside => by
        have same := propext ⟨Nat.le_of_succ_le, fun late => lt_of_le_of_ne late other.symm⟩
        rw [same]
        exact phases i inside
    agrees := agrees
    launched := launched }

theorem Pool.Inv.drained (here : p.caller = .draining) (zero : p.mRunningCount = 0) :
    Pool.Inv { p with caller := .idle, history := p.history ++ p.current.toList, current := none } acts := by
  have made := inv.made
  have launched := inv.launched
  rw [here] at made launched
  exact {
    __ := inv, made := made
    phase := fun i inside => by
      have done := inv.all_done zero i inside
      obtain ⟨_, unset, out, log⟩ := (inv.phase i inside).of_done done
      exact .done id unset out done (log.trans (append_nil _).symm)
    agrees := ⟨rfl, inv.all_done zero⟩
    launched := launched.trans (append_nil _).symm }

theorem Pool.Inv.callerStep (moved : p.callerStep = some q) : q.Inv acts := by
  have agrees := inv.agrees
  have made := inv.made
  cases here : p.caller with
  | creating ct =>
    rw [here] at agrees made
    simp only [Pool.callerStep, here, ite_none_left_eq_some] at moved
    obtain ⟨full, moved⟩ := moved
    cases moved
    have all : p.created = p.mCount := le_antisymm inv.created (made ▸ Nat.not_lt.mp full)
    exact inv.restage all (by rw [here]; exact fun _ _ => Iff.rfl) agrees (by rw [here]; rfl)
  | starting =>
    rw [here] at agrees made
    rw [Pool.callerStep, here] at moved
    cases moved
    split
    case isTrue zero =>
      exact inv.restage made (by rw [here]; exact fun _ _ => Iff.rfl) ⟨agrees.2, inv.all_done zero⟩ (by rw [here]; rfl)
    case isFalse => exact inv
  | idle | blocked | joining => simp [Pool.callerStep, here] at moved
  | alone | calling | woken =>
    rw [Pool.callerStep, here] at moved
    cases moved
    exact inv.sameStage (by rw [here]; rfl)
  | published =>
    rw [Pool.callerStep, here] at moved
    cases moved
    exact inv.publish here
  | signalling ct =>
    rw [here] at agrees made
    rw [Pool.callerStep, here] at moved
    cases moved
    split
    case isTrue room => exact inv.signal here room
    case isFalse full =>
      refine inv.restage made (fun i inside => ?_) agrees (by rw [here]; rfl)
      rw [here]
      exact iff_of_false id fun late => full (lt_of_le_of_lt late inside)
  | draining =>
    rw [Pool.callerStep, here] at moved
    cases moved
    split
    case isTrue zero => exact inv.drained here zero
    case isFalse => exact inv.sameStage (by rw [here]; rfl)
  | entering =>
    rw [Pool.callerStep, here] at moved
    cases moved
    split <;> exact inv.sameStage (by rw [here]; rfl)
  | exiting ct => rw [here] at agrees; cases agrees

theorem Pool.Inv.create (moved : p.create true = some q) : q.Inv acts := by
  have agrees := inv.agrees
  have made := inv.made
  have launched := inv.launched
  have phases := inv.phase
  cases here : p.caller with
  | creating ct =>
    rw [here] at agrees made launched phases
    simp only [Pool.create, here, ite_none_right_eq_some] at moved
    obtain ⟨room, moved⟩ := moved
    cases moved
    exact { inv with
      drawn := inv.drawn.trans (Nat.le_succ _), created := made ▸ room, made := congrArg Nat.succ made
      phase := phases
      agrees := agrees
      launched := launched }
  | _ => simp [Pool.create, here] at moved

theorem Pool.Inv.silent (silent : act.launched = none) : p.Inv (acts ++ [act]) :=
  { inv with
    launched := by
      rw [filterMap_append, filterMap_cons_none silent, filterMap_nil, append_nil]
      exact inv.launched }

theorem Pool.Inv.launch (here : p.caller = .idle) (cbk : Option Nat) (data : Option MTLaunchStruct) :
    Pool.Inv { p with mLaunchCallback := cbk, caller := if fastPath data then .alone else .published }
      (acts ++ [.launch cbk data]) := by
  have agrees := inv.agrees
  have made := inv.made
  have phases := inv.phase
  have launched := inv.launched
  rw [here] at agrees made phases launched
  have before : acts.filterMap Act.launched = p.history := by
    rw [launched]
    show p.history ++ p.current.toList = _
    rw [agrees.1]
    exact append_nil _
  cases fast : fastPath data with
  | true =>
    exact { inv with
      made := made, phase := phases, agrees := agrees
      launched := by
        have none : (Act.launch cbk data).launched = none := by simp only [Act.launched, fast, if_true]
        rw [filterMap_append, filterMap_cons_none none]
        exact (append_nil _).trans launched }
  | false =>
    exact { inv with
      made := made, phase := phases, agrees := agrees
      launched := by
        have eq : (Act.launch cbk data).launched = cbk := by simp [Act.launched, fast]
        rw [filterMap_append, before]
        cases cbk with
        | none => rw [filterMap_cons_none eq]; rfl
        | some callback => rw [filterMap_cons_some eq]; rfl }

structure Pool.Ended (p : Pool) (acts : List Act) : Prop where
  exit : p.mExit = true
  ending : p.caller.stage = .ending
  null : p.mLaunchCallback = none
  log : ∀ i, i < p.created → (p.worker i).log = acts.filterMap Act.launched

theorem Pool.Inv.log_of_idle (here : p.caller = .idle) (inside : i < p.created) :
    (p.worker i).log = acts.filterMap Act.launched ∧ (p.worker i).place.Outside := by
  have agrees := inv.agrees
  have launched := inv.launched
  rw [here] at agrees launched
  have within : i < p.mCount := lt_of_lt_of_le inside inv.created
  obtain ⟨_, _, out, log⟩ := (inv.phase i within).of_done (agrees.2 i within)
  exact ⟨log.trans launched.symm, out⟩

theorem Pool.Inv.destroy (here : p.caller = .idle) : Pool.Ended { p with
      mExit := true, mLaunchCallback := none, mRunningCount := p.mCount, caller := .exiting 0 } acts where
  exit := rfl
  ending := rfl
  null := rfl
  log _ inside := (inv.log_of_idle here inside).1

omit inv in
theorem Pool.Ended.setWorker (ended : p.Ended acts) (same : worker.log = (p.worker i).log) : (p.setWorker i worker).Ended acts :=
  { ended with
    log := forall_setWorker (fun i worker => i < p.created → worker.log = acts.filterMap Act.launched)
      (fun inside => same.trans (ended.log i inside)) fun i _ => ended.log i }

omit inv in
theorem Pool.Ended.step (ended : p.Ended acts) (moved : p.step act = some q) : q.Ended acts := by
  have ending := ended.ending
  have awake : p.caller ≠ .idle := by intro here; rw [here] at ending; cases ending
  cases act with
  | create succeeds =>
    cases here : p.caller with
    | creating ct => rw [here] at ending; cases ending
    | _ => simp [Pool.step, Pool.create, here] at moved
  | caller =>
    cases here : p.caller with
    | exiting ct =>
      simp only [Pool.step, Pool.callerStep, here, Option.some.injEq] at moved
      subst moved
      split
      case isTrue =>
        have set : (p.setWorker ct (p.worker ct).set).Ended acts := ended.setWorker rfl
        exact { set with ending := rfl }
      case isFalse => exact { ended with ending := rfl }
    | joining => simp [Pool.step, Pool.callerStep, here] at moved
    | _ => rw [here] at ending; cases ending
  | launch | destroy => simp [Pool.step, awake] at moved
  | start =>
    obtain ⟨_, made⟩ := ite_none_right_eq_some.mp moved
    cases made
    have begun : (p.setWorker p.mLaunchCount { p.worker p.mLaunchCount with place := .looping }).Ended acts := ended.setWorker rfl
    exact { begun with }
  | helper i =>
    obtain ⟨worker, stepped, rfl⟩ := map_eq_some_iff.mp moved
    rw [ended.null] at stepped
    have set : (p.setWorker i worker).Ended acts := ended.setWorker ((Worker.step_done stepped).2 rfl)
    split
    · exact { set with }
    · refine { set with ending := ?_ }
      show (if p.caller = .blocked then Caller.woken else p.caller).stage = _
      split
      case isTrue here => rw [here] at ending; cases ending
      case isFalse => exact ending
    · exact set
  | spurious i =>
    obtain ⟨_, made⟩ := ite_none_right_eq_some.mp moved
    cases made
    exact ended.setWorker rfl
  | spuriousCaller =>
    obtain ⟨here, _⟩ := ite_none_right_eq_some.mp moved
    rw [here] at ending
    cases ending

omit inv in
theorem Act.launched_eq_none (other : ∀ cbk data, act ≠ .launch cbk data) : act.launched = none := by
  cases act with
  | launch cbk data => exact absurd rfl (other cbk data)
  | _ => rfl

theorem Pool.Inv.step (careful : Careful p act)
    (moved : p.step act = some q) : q.Inv (acts ++ [act]) ∨ q.Ended (acts ++ [act]) := by
  cases act with
  | create succeeds =>
    cases careful
    exact .inl ((inv.create moved).silent rfl)
  | caller => exact .inl ((inv.callerStep moved).silent rfl)
  | launch cbk data =>
    obtain ⟨here, made⟩ := ite_none_right_eq_some.mp moved
    cases made
    exact .inl (inv.launch here cbk data)
  | destroy =>
    obtain ⟨here, made⟩ := ite_none_right_eq_some.mp moved
    cases made
    exact .inr ((inv.silent rfl).destroy here)
  | start => exact .inl ((inv.startHelper moved).silent rfl)
  | helper i => exact .inl ((inv.helperStep careful moved).silent rfl)
  | spurious i =>
    obtain ⟨blocked, made⟩ := ite_none_right_eq_some.mp moved
    cases made
    exact .inl ((inv.spurious blocked).silent rfl)
  | spuriousCaller =>
    obtain ⟨here, made⟩ := ite_none_right_eq_some.mp moved
    cases made
    exact .inl ((inv.sameStage (by rw [here]; rfl)).silent rfl)

omit inv in
theorem Pool.Ended.step_append (ended : p.Ended acts) (moved : p.step act = some q) : q.Ended (acts ++ [act]) := by
  have other : ∀ cbk data, act ≠ .launch cbk data := by
    rintro cbk data rfl
    obtain ⟨here, _⟩ := ite_none_right_eq_some.mp moved
    have ending := ended.ending
    rw [here] at ending
    cases ending
  have next := ended.step moved
  refine { next with log := fun i inside => (next.log i inside).trans ?_ }
  rw [filterMap_append, filterMap_cons_none (Act.launched_eq_none other)]
  exact (append_nil _).symm

omit inv in
theorem inv_or_ended {requested : Nat} (run : Run Pool.step Careful (Pool.start requested) acts p) :
    p.Inv acts ∨ p.Ended acts := by
  refine Run.invariant (fun acts p => p.Inv acts ∨ p.Ended acts) run (.inl (.start requested)) ?_
  rintro acts state next act (inv | ended) careful moved
  · exact inv.step careful moved
  · exact .inr (ended.step_append moved)

theorem Pool.Inv.outstanding_eq : p.outstanding = p.unfinished ∪ Finset.Ico p.created p.mCount := by
  ext i
  rw [mem_outstanding, Finset.mem_union, Pool.unfinished, Finset.mem_filter, Finset.mem_range, Finset.mem_Ico]
  constructor
  · rintro ⟨inside, unfinished⟩
    rcases lt_or_ge i p.created with made | later
    · exact .inl ⟨made, unfinished⟩
    · exact .inr ⟨later, inside⟩
  · rintro (⟨made, unfinished⟩ | ⟨later, inside⟩)
    · exact ⟨lt_of_lt_of_le made inv.created, unfinished⟩
    · exact ⟨inside, by rw [inv.fresh i (inv.drawn.trans later)]⟩

theorem Pool.Inv.uncreated : p.uncreated = p.mCount - p.created := by
  have made := inv.made
  cases here : p.caller with
  | creating ct =>
    rw [here] at made
    rw [made, Pool.uncreated, here]
    rfl
  | _ =>
    rw [here] at made
    rw [Pool.uncreated, here, made]
    exact (Nat.sub_self _).symm

omit inv in
theorem Phase.log_cases (phase : Phase late history current worker) :
    worker.log = history ∨ worker.log = history ++ current.toList := by
  cases phase with
  | late _ _ _ _ log | armed _ _ _ _ log | running _ _ _ _ log => exact .inl log
  | calling _ _ _ _ log | returned _ _ _ _ log | done _ _ _ _ log => exact .inr log

theorem Pool.Inv.log_within (inside : i < p.mCount) : (p.worker i).log <+: acts.filterMap Act.launched := by
  have agrees := inv.agrees
  rw [inv.launched]
  rcases (inv.phase i inside).log_cases with log | log
  · rw [log]
    exact prefix_append _ _
  · rw [log]
    cases stage : p.caller.stage with
    | published =>
      rw [stage] at agrees
      rw [agrees.1]
      exact (append_nil p.history).symm ▸ prefix_append _ _
    | _ => exact prefix_rfl

theorem Pool.Inv.right : p.Right acts where
  running _ := by
    have apart : Disjoint p.unfinished (Finset.Ico p.created p.mCount) := by
      rw [Finset.disjoint_left]
      intro i made later
      exact not_lt.mpr (Finset.mem_Ico.mp later).1 (Finset.mem_range.mp (Finset.mem_filter.mp made).1)
    simp [inv.running, inv.outstanding_eq, Finset.card_union_of_disjoint apart, inv.uncreated]
  once i inside := inv.log_within (lt_of_lt_of_le inside inv.created)
  returned here i inside := by
    obtain ⟨log, out⟩ := inv.log_of_idle here inside
    refine ⟨log, fun callback calling => ?_⟩
    rw [calling] at out
    exact out

omit inv

theorem Pool.Ended.right (ended : p.Ended acts) : p.Right acts where
  running alive := by
    rw [ended.exit] at alive
    cases alive
  once i inside := (ended.log i inside).symm ▸ prefix_rfl
  returned here := by
    have ending := ended.ending
    rw [here] at ending
    cases ending

end

theorem workers_right {requested : Nat} {acts : List Act} {p : Pool}
    (run : Run Pool.step Careful (Pool.start requested) acts p) : p.Right acts := by
  rcases inv_or_ended run with inv | ended
  · exact inv.right
  · exact ended.right

instance (p : Pool) : (act : Act) → Decidable (Careful p act)
  | .create _ => inferInstanceAs (Decidable (_ = _))
  | .helper _ => inferInstanceAs (Decidable (_ → _))
  | .caller | .launch _ _ | .destroy | .start | .spurious _ | .spuriousCaller => .isTrue trivial

def oneHelper : List Act :=
  [.create true, .caller, .start] ++ .replicate 7 (.helper 0) ++ [.caller]

def oneLaunch : List Act :=
  [.launch (some 7) none] ++ .replicate 4 .caller ++ .replicate 6 (.helper 0) ++ [.caller]

theorem workers_right_one : ∃ p : Pool, p.Right (oneHelper ++ oneLaunch) ∧ (p.worker 0).log = [7] := by
  have shown : ((perform Pool.step Careful (Pool.start 1) (oneHelper ++ oneLaunch)).map
      fun p => (p.worker 0).log) = some [7] := by decide +kernel
  obtain ⟨p, performed, log⟩ := map_eq_some_iff.mp shown
  exact ⟨p, workers_right (run_of_perform performed), log⟩

/-- The helper goes back to its wait, wakes up without a signal and goes through the loop again. -/
def oneSpurious : List Act := .helper 0 :: .spurious 0 :: .replicate 4 (.helper 0)

/-- Where a helper cannot be created, it is counted nevertheless. Where one wakes up without a
signal, it runs the last callback again. -/
theorem workers_wrong : (∃ p, Run Pool.step Anyhow (Pool.start 1) [.create false] p ∧
      p.created = 0 ∧ p.mRunningCount = 1 ∧ ¬p.Right [.create false]) ∧
    ∃ p, Run Pool.step Anyhow (Pool.start 1) (oneHelper ++ oneLaunch ++ oneSpurious) p ∧
      (p.worker 0).log = [7, 7] ∧ p.mRunningCount = -1 ∧
      ¬p.Right (oneHelper ++ oneLaunch ++ oneSpurious) := by
  constructor
  · refine ⟨_, run_of_perform rfl, rfl, rfl, fun right => ?_⟩
    exact absurd (right.running rfl) (by decide)
  · have shown : ((perform Pool.step Anyhow (Pool.start 1) (oneHelper ++ oneLaunch ++ oneSpurious)).map
        fun p => (p.created, (p.worker 0).log, p.mRunningCount)) = some (1, [7, 7], -1) := by
      decide +kernel
    obtain ⟨p, performed, seen⟩ := map_eq_some_iff.mp shown
    obtain ⟨created, log, running⟩ := by simpa only [Prod.mk.injEq] using seen
    refine ⟨p, run_of_perform performed, log, running, fun right => ?_⟩
    have once := right.once 0 (by rw [created]; exact one_pos)
    rw [log] at once
    exact absurd once (by decide)

end RenderScript.Workers
