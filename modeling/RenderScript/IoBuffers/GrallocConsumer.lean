import RenderScript.Foundation.Interleaving

/-!
# Buffers of an input queue

`GrallocConsumer` of rsGrallocConsumer.cpp over `ConsumerBase`, with the destructor of its
allocation. What the queue, the fence and the buffers answer is part of each call.
-/

namespace RenderScript.GrallocConsumer
open Option

structure Item where
  mBuf : Nat
  mGraphicBuffer : Nat
  deriving DecidableEq

/-- The results of a call that matter to `Allocation::ioReceive`. -/
inductive Status where
  | ok
  | badValue
  | error
  deriving DecidableEq

/-- The consumer and the pointer of `lod[0]`, by the buffer that it points to. Bookkeeping: the
items that were acquired and not released, the buffers that are locked, and whether an item was
released that was not acquired or NULL was dereferenced for it. -/
structure State where
  mSlots : Nat → Option Nat := fun _ => none
  mAcquiredBuffer : Option Item := none
  mallocPtr : Option Nat := none
  destroyed : Bool := false
  acquired : Finset Item := ∅
  locked : Finset Nat := ∅
  misused : Bool := false

namespace State

/-- `acquireBufferLocked` of `ConsumerBase` remembers the buffer of the slot. -/
def acquireBufferLocked (s : State) (b : Item) : State :=
  { s with mSlots := Function.update s.mSlots b.mBuf (some b.mGraphicBuffer), acquired := insert b s.acquired }

/-- `releaseBufferLocked` of `ConsumerBase`; its result is not looked at. -/
def releaseBufferLocked (s : State) (b : Item) : State :=
  { s with acquired := s.acquired.erase b, misused := s.misused || decide (b ∉ s.acquired) }

/-- A slot that has another buffer by now was taken back by the queue itself. -/
def letGo (s : State) (b : Item) : State :=
  if s.mSlots b.mBuf = some b.mGraphicBuffer then s.releaseBufferLocked b
  else { s with acquired := s.acquired.erase b }

def releaseAcquiredBufferLocked (s : State) (unlock : Bool) : Status × State :=
  match s.mAcquiredBuffer with
  | none => (.error, { s with misused := true })
  | some b =>
    if !unlock then (.error, s)
    else (.ok, { { s with locked := s.locked.erase b.mGraphicBuffer }.letGo b with mAcquiredBuffer := none })

/-- The rest of `lockNextBuffer`. `acquire` tells an error by its status, `fence` and `lock` by
`false`. -/
def lockAcquired (s : State) (acquire : Except Status Item) (fence lock : Bool) : Status × State :=
  match acquire with
  | .error status => (status, s)
  | .ok b =>
    let s := s.acquireBufferLocked b
    if !fence then (.error, s)
    else if !lock then (.error, s)
    else
      (.ok, { s with locked := insert b.mGraphicBuffer s.locked, mAcquiredBuffer := some b, mallocPtr := some b.mGraphicBuffer })

def lockNextBuffer (s : State) (unlock : Bool) (acquire : Except Status Item) (fence lock : Bool) :
    Status × State :=
  match s.mAcquiredBuffer with
  | none => s.lockAcquired acquire fence lock
  | some _ =>
    match s.releaseAcquiredBufferLocked unlock with
    | (.ok, s) => s.lockAcquired acquire fence lock
    | (err, s) => (err, s)

def unlockBuffer (s : State) (unlock : Bool) : Status × State := s.releaseAcquiredBufferLocked unlock

/-- `~Allocation`, up to `rsdAllocationDestroy`, which clears the pointer. -/
def destroy (s : State) (unlock : Bool) : State :=
  { (s.unlockBuffer unlock).2 with mallocPtr := none, destroyed := true }

/-- The queue frees the buffer of a slot, for example when the producer disconnects. -/
def freeBufferLocked (s : State) (slot : Nat) : State :=
  { s with mSlots := Function.update s.mSlots slot none }

end State

inductive Act where
  | lockNextBuffer (unlock : Bool) (acquire : Except Status Item) (fence lock : Bool)
  | unlockBuffer (unlock : Bool)
  | destroy (unlock : Bool)
  | freeBufferLocked (slot : Nat)

namespace State

def step (s : State) (act : Act) : Option State :=
  if s.destroyed then none
  else
    match act with
    | .lockNextBuffer unlock acquire fence lock => some (s.lockNextBuffer unlock acquire fence lock).2
    | .unlockBuffer unlock => some (s.unlockBuffer unlock).2
    | .destroy unlock => some (s.destroy unlock)
    | .freeBufferLocked slot => some (s.freeBufferLocked slot)

/-- The pointer is that of a locked buffer that is acquired. Items are released once, those of
failed calls too. -/
structure Sound (s : State) : Prop where
  used : s.misused = false
  mapped : ∀ buffer, s.mallocPtr = some buffer →
    buffer ∈ s.locked ∧ ∃ b ∈ s.acquired, b.mGraphicBuffer = buffer
  recorded : ∀ b ∈ s.acquired, s.mAcquiredBuffer = some b
  released : s.destroyed = true → s.acquired = ∅

/-- What a call needs: `lockNextBuffer` must be stopped by a failing `unlock`, find nothing to
release and nothing to acquire, or succeed. An `unlockBuffer` that succeeds leaves a stale pointer,
and one without an acquired buffer dereferences NULL, also in the destructor. -/
def Clean (s : State) : Act → Prop
  | .lockNextBuffer unlock acquire fence lock =>
    s.mAcquiredBuffer.isSome = true ∧ unlock = false ∨
      s.mAcquiredBuffer = none ∧ acquire.isOk = false ∨
      acquire.isOk = true ∧ fence = true ∧ lock = true
  | .unlockBuffer unlock => s.mAcquiredBuffer.isSome = true ∧ unlock = false
  | .destroy unlock => s.mAcquiredBuffer.isSome = true ∧ unlock = true
  | .freeBufferLocked _ => True

instance (s : State) : (act : Act) → Decidable (s.Clean act)
  | .lockNextBuffer .. => inferInstanceAs (Decidable (_ ∨ _ ∨ _))
  | .unlockBuffer .. => inferInstanceAs (Decidable (_ ∧ _))
  | .destroy .. => inferInstanceAs (Decidable (_ ∧ _))
  | .freeBufferLocked _ => inferInstanceAs (Decidable True)

end State

open Interleaving

namespace State

variable {s next : State} {act : Act} {b : Item} {unlock fence lock : Bool} {acquire : Except Status Item}

structure Kept (s : State) : Prop extends Sound s where
  held : ∀ b, s.mAcquiredBuffer = some b → b ∈ s.acquired ∧ s.mallocPtr = some b.mGraphicBuffer

theorem Sound.erase_recorded (sound : s.Sound) (found : s.mAcquiredBuffer = some b) : s.acquired.erase b = ∅ := by
  apply Finset.eq_empty_of_forall_notMem
  intro other mem
  obtain ⟨ne, still⟩ := Finset.mem_erase.mp mem
  have recorded := sound.recorded other still
  rw [found] at recorded
  exact ne (Option.some.inj recorded).symm

theorem Sound.unmapped (sound : s.Sound) (released : s.acquired = ∅) : s.mallocPtr = none := by
  cases mapped : s.mallocPtr with
  | none => rfl
  | some buffer =>
    obtain ⟨-, b, still, -⟩ := sound.mapped buffer mapped
    rw [released] at still
    exact absurd still (Finset.notMem_empty b)

theorem Sound.released_of_unrecorded (sound : s.Sound) (none : s.mAcquiredBuffer = none) : s.acquired = ∅ := by
  apply Finset.eq_empty_of_forall_notMem
  intro b still
  have recorded := sound.recorded b still
  rw [none] at recorded
  cases recorded

theorem letGo_acquired : (s.letGo b).acquired = s.acquired.erase b := by
  unfold letGo
  split
  · rfl
  · rfl

theorem letGo_mallocPtr : (s.letGo b).mallocPtr = s.mallocPtr := by
  unfold letGo
  split
  · rfl
  · rfl

theorem letGo_misused (used : s.misused = false) (mem : b ∈ s.acquired) : (s.letGo b).misused = false := by
  unfold letGo
  split
  · simp [releaseBufferLocked, used, mem]
  · exact used

theorem letGo_destroyed : (s.letGo b).destroyed = s.destroyed := by
  unfold letGo
  split
  · rfl
  · rfl

structure Released (s : State) : Prop where
  used : s.misused = false
  unrecorded : s.mAcquiredBuffer = none
  released : s.acquired = ∅

theorem Released.kept (released : s.Released) (null : s.mallocPtr = none) : s.Kept where
  used := released.used
  mapped := by
    intro buffer mapped
    rw [null] at mapped
    cases mapped
  recorded := by
    intro b still
    rw [released.released] at still
    exact absurd still (Finset.notMem_empty b)
  released := fun _ => released.released
  held := by
    intro b recorded
    rw [released.unrecorded] at recorded
    cases recorded

theorem release_eq (found : s.mAcquiredBuffer = some b) : s.releaseAcquiredBufferLocked true =
    (.ok, { { s with locked := s.locked.erase b.mGraphicBuffer }.letGo b with mAcquiredBuffer := none }) := by
  simp [releaseAcquiredBufferLocked, found]

theorem Kept.release (kept : s.Kept) (found : s.mAcquiredBuffer = some b) : (s.releaseAcquiredBufferLocked true).2.Released := by
  rw [release_eq found]
  refine { used := ?used, unrecorded := rfl, released := ?released }
  case used => exact letGo_misused kept.used (kept.held b found).1
  case released => exact letGo_acquired.trans (kept.erase_recorded found)

theorem release_mallocPtr (found : s.mAcquiredBuffer = some b) :
    (s.releaseAcquiredBufferLocked true).2.mallocPtr = s.mallocPtr := by
  rw [release_eq found]
  exact letGo_mallocPtr

theorem release_failed (found : s.mAcquiredBuffer = some b) : s.releaseAcquiredBufferLocked false = (.error, s) := by
  simp [releaseAcquiredBufferLocked, found]

theorem release_nothing (none : s.mAcquiredBuffer = none) : (s.releaseAcquiredBufferLocked unlock).2.misused = true := by
  rw [releaseAcquiredBufferLocked, none]

theorem Released.lockAcquired (released : s.Released) (alive : s.destroyed = false) :
    (s.lockAcquired (.ok b) true true).2.Kept where
  used := released.used
  mapped := by
    intro buffer mapped
    cases mapped
    exact ⟨Finset.mem_insert_self _ _, b, Finset.mem_insert_self _ _, rfl⟩
  recorded := by
    intro other still
    rcases Finset.mem_insert.mp still with rfl | before
    · rfl
    · rw [released.released] at before
      exact absurd before (Finset.notMem_empty other)
  released := by
    intro destroyed
    have destroyed : s.destroyed = true := destroyed
    rw [alive] at destroyed
    cases destroyed
  held := by
    intro other recorded
    cases recorded
    exact ⟨Finset.mem_insert_self _ _, rfl⟩

theorem Released.lockAcquired_needs (released : s.Released) (sound : (s.lockAcquired acquire fence lock).2.Sound) :
    acquire.isOk = false ∧ s.mallocPtr = none ∨ acquire.isOk = true ∧ fence = true ∧ lock = true := by
  cases acquire with
  | error status => exact .inl ⟨rfl, sound.unmapped released.released⟩
  | ok b =>
    right
    have unrecorded (after : (s.lockAcquired (.ok b) fence lock).2 = s.acquireBufferLocked b) : False := by
      rw [after] at sound
      have recorded := sound.recorded b (Finset.mem_insert_self _ _)
      exact some_ne_none b (recorded.symm.trans released.unrecorded)
    cases fence with
    | false => exact (unrecorded rfl).elim
    | true =>
      cases lock with
      | false => exact (unrecorded rfl).elim
      | true => exact ⟨rfl, rfl, rfl⟩

theorem lockNextBuffer_of_none (none : s.mAcquiredBuffer = none) :
    s.lockNextBuffer unlock acquire fence lock = s.lockAcquired acquire fence lock := by
  rw [lockNextBuffer, none]

theorem lockNextBuffer_of_some (found : s.mAcquiredBuffer = some b) : s.lockNextBuffer true acquire fence lock =
      (s.releaseAcquiredBufferLocked true).2.lockAcquired acquire fence lock := by
  simp [lockNextBuffer, found, release_eq found]

theorem lockNextBuffer_stopped (found : s.mAcquiredBuffer = some b) :
    s.lockNextBuffer false acquire fence lock = (.error, s) := by
  simp [lockNextBuffer, found, release_failed found]

theorem Kept.unrecorded (kept : s.Kept) (none : s.mAcquiredBuffer = none) : s.Released :=
  ⟨kept.used, none, kept.released_of_unrecorded none⟩

theorem Kept.step (kept : s.Kept) (clean : s.Clean act) (moved : s.step act = some next) : next.Kept := by
  unfold State.step at moved
  split at moved
  case isTrue => cases moved
  case isFalse alive =>
    have alive : s.destroyed = false := Bool.eq_false_of_not_eq_true alive
    cases act with
    | lockNextBuffer unlock acquire fence lock =>
      cases moved
      rcases clean with ⟨some, rfl⟩ | ⟨none, failed⟩ | ⟨acquired, rfl, rfl⟩
      · obtain ⟨b, found⟩ := isSome_iff_exists.mp some
        rw [lockNextBuffer_stopped found]
        exact kept
      · rw [lockNextBuffer_of_none none]
        cases acquire with
        | error status => exact kept
        | ok b => cases failed
      · cases acquire with
        | error status => cases acquired
        | ok item =>
          cases found : s.mAcquiredBuffer with
          | none =>
            rw [lockNextBuffer_of_none found]
            exact (kept.unrecorded found).lockAcquired alive
          | some b =>
            cases unlock with
            | false =>
              rw [lockNextBuffer_stopped found]
              exact kept
            | true =>
              rw [lockNextBuffer_of_some found]
              refine (kept.release found).lockAcquired ?_
              rw [release_eq found]
              exact letGo_destroyed.trans alive
    | unlockBuffer unlock =>
      cases moved
      obtain ⟨some, rfl⟩ := clean
      obtain ⟨b, found⟩ := isSome_iff_exists.mp some
      rw [unlockBuffer, release_failed found]
      exact kept
    | destroy unlock =>
      cases moved
      obtain ⟨some, rfl⟩ := clean
      obtain ⟨b, found⟩ := isSome_iff_exists.mp some
      have after := kept.release found
      exact @Released.kept (s.destroy true) ⟨after.used, after.unrecorded, after.released⟩ rfl
    | freeBufferLocked slot =>
      cases moved
      exact
        { used := kept.used, __ := kept, held := kept.held }

theorem Kept.clean_of_sound (kept : s.Kept) (moved : s.step act = some next) (sound : next.Sound) : s.Clean act := by
  unfold State.step at moved
  split at moved
  case isTrue => cases moved
  case isFalse =>
    cases act with
    | lockNextBuffer unlock acquire fence lock =>
      cases moved
      cases found : s.mAcquiredBuffer with
      | none =>
        rw [lockNextBuffer_of_none found] at sound
        rcases (kept.unrecorded found).lockAcquired_needs sound with ⟨failed, -⟩ | worked
        · exact .inr (.inl ⟨found, failed⟩)
        · exact .inr (.inr worked)
      | some b =>
        cases unlock with
        | false => exact .inl ⟨isSome_of_eq_some found, rfl⟩
        | true =>
          rw [lockNextBuffer_of_some found] at sound
          rcases (kept.release found).lockAcquired_needs sound with ⟨-, null⟩ | worked
          · -- the pointer of the released buffer is still there
            rw [release_mallocPtr found, (kept.held b found).2] at null
            cases null
          · exact .inr (.inr worked)
    | unlockBuffer unlock =>
      cases moved
      cases found : s.mAcquiredBuffer with
      | none =>
        have used := sound.used
        rw [unlockBuffer, release_nothing found] at used
        cases used
      | some b =>
        refine ⟨isSome_of_eq_some found, ?_⟩
        cases unlock with
        | false => rfl
        | true =>
          have null := sound.unmapped (kept.release found).released
          rw [unlockBuffer, release_mallocPtr found, (kept.held b found).2] at null
          cases null
    | destroy unlock =>
      cases moved
      cases found : s.mAcquiredBuffer with
      | none =>
        have used : (s.releaseAcquiredBufferLocked unlock).2.misused = false := sound.used
        rw [release_nothing found] at used
        cases used
      | some b =>
        refine ⟨isSome_of_eq_some found, ?_⟩
        cases unlock with
        | true => rfl
        | false =>
          have released : (s.releaseAcquiredBufferLocked false).2.acquired = ∅ := sound.released rfl
          rw [release_failed found] at released
          have still := (kept.held b found).1
          rw [released] at still
          exact absurd still (Finset.notMem_empty b)
    | freeBufferLocked slot => trivial

theorem Kept.start : ({} : State).Kept := Released.kept ⟨rfl, rfl, rfl⟩ rfl

end State

/-- The pointer is never stale and items are released once, exactly in the runs of which each
step is clean. -/
theorem input_buffers_sound_iff {acts : List Act} {s : State} (run : Run State.step Anyhow {} acts s) :
    Throughout State.step Anyhow {} State.Sound acts ↔ Run State.step State.Clean {} acts s :=
  run.throughout_iff_of_invariant State.Kept .start State.Kept.toSound State.Kept.step State.Kept.clean_of_sound

/-- Two frames are received, the producer goes away, and the allocation is destroyed. -/
theorem input_buffers_sound_received : Throughout State.step Anyhow {} State.Sound
      [.lockNextBuffer true (.error .badValue) true true, .lockNextBuffer true (.ok ⟨0, 50⟩) true true,
        .lockNextBuffer true (.ok ⟨1, 51⟩) true true, .freeBufferLocked 1, .destroy true] :=
  throughout_of_perform input_buffers_sound_iff (by decide +kernel)

/-- Without a new frame the pointer to the released buffer stays, and where the lock fails the
new item stays acquired. A destructor that finds no buffer dereferences NULL. -/
theorem input_buffers_unsound : (∃ s, Run State.step Anyhow {}
        [.lockNextBuffer true (.ok ⟨0, 50⟩) true true, .lockNextBuffer true (.error .badValue) true true] s ∧
      s.mallocPtr = some 50 ∧ s.acquired = ∅) ∧
    (∃ s, Run State.step Anyhow {} [.lockNextBuffer true (.ok ⟨0, 50⟩) true false] s ∧
      s.mAcquiredBuffer = none ∧ s.acquired = {⟨0, 50⟩}) ∧
    ∃ s, Run State.step Anyhow {} [.destroy true] s ∧ s.misused = true :=
  ⟨exists_run_of_perform (by decide +kernel), exists_run_of_perform (by decide +kernel),
    exists_run_of_perform (by decide +kernel)⟩

end RenderScript.GrallocConsumer
