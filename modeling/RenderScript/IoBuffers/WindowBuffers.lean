import RenderScript.Foundation.Interleaving

/-!
# Buffers of an output window

`IoGetBuffer`, `rsdAllocationSetSurface`, `rsdAllocationIoSend` and
`rsdAllocationDestroy` of rsdAllocation.cpp, for allocations that scripts write to
(`RS_ALLOCATION_USAGE_SCRIPT` and `RS_ALLOCATION_USAGE_IO_OUTPUT`). What the window and
the mapper answer is part of each call.
-/

namespace RenderScript.WindowBuffers

structure Buffer where
  window : Nat
  number : Nat
  deriving DecidableEq

/-- What `queueBuffer` or `cancelBuffer` returns. A window may take the buffer and still
report an error. -/
inductive Answer where
  | ok
  | failed (taken : Bool)
  deriving DecidableEq

def Answer.taken : Answer → Bool
  | .ok => true
  | .failed taken => taken

/-- `false` stands for an error of the call. -/
structure Setup where
  native_window_api_connect : Bool := true
  native_window_set_usage : Bool := true
  native_window_set_buffers_dimensions : Bool := true
  native_window_set_buffers_format : Bool := true

def Setup.error (setup : Setup) : Option String :=
  if !setup.native_window_api_connect then some "Error setting IO output buffer usage."
  else if !setup.native_window_set_usage then some "Error setting IO output buffer usage."
  else if !setup.native_window_set_buffers_dimensions then
    some "Error setting IO output buffer dimensions."
  else if !setup.native_window_set_buffers_format then some "Error setting IO output buffer format."
  else none

/-- The pointers of the allocation, and bookkeeping: the buffers that were dequeued and not
given back, those locked by the mapper, and two kinds of misuse. `mallocPtr` is that of
`lod[0]`, by the buffer that was mapped there. -/
structure State where
  wndSurface : Option Nat := none
  wndBuffer : Option Buffer := none
  mallocPtr : Option Buffer := none
  errors : List String := []
  destroyed : Bool := false
  dequeued : Finset Buffer := ∅
  locked : Finset Buffer := ∅
  -- a buffer that was not out was queued or cancelled, or NULL was dereferenced for one
  misused : Bool := false
  -- a buffer was still out when its window was dropped or the allocation destroyed
  left : Bool := false

namespace State

def setError (s : State) (msg : String) : State := { s with errors := s.errors ++ [msg] }

/-- `drv->wndBuffer` was dequeued from the window and not given back since. -/
def holdsBufferOf (s : State) (nw : Nat) : Bool :=
  match s.wndBuffer with
  | none => false
  | some b => b.window == nw && decide (b ∈ s.dequeued)

/-- `mapper.unlock`, then `queueBuffer` or `cancelBuffer`. -/
def giveBack (s : State) (nw : Nat) (unlock : Bool) (answer : Answer) : State :=
  match s.wndBuffer with
  | none => { s with misused := true }
  | some b =>
    { s with
      locked := if unlock then s.locked.erase b else s.locked
      dequeued := if answer.taken then s.dequeued.erase b else s.dequeued
      misused := s.misused || !s.holdsBufferOf nw }

/-- Without a buffer the old pointers stay. Where `mapper.lock` fails, `dst` is NULL. -/
def ioGetBuffer (s : State) (nw : Nat) (dequeue : Option Nat) (lock : Bool) : State :=
  match dequeue with
  | none => s.setError "Error getting next IO output buffer."
  | some number =>
    let b : Buffer := ⟨nw, number⟩
    { s with
      wndBuffer := some b, dequeued := insert b s.dequeued, locked := if lock then insert b s.locked else s.locked
      mallocPtr := if lock then some b else none }

def returnBuffer (s : State) (unlock : Bool) (answer : Answer) : State :=
  match s.wndSurface with
  | none => s
  | some nw => s.giveBack nw unlock answer

def dropSurface (s : State) (unlock : Bool) (cancel : Answer) : State :=
  let after := s.returnBuffer unlock cancel
  { after with wndSurface := none, left := after.left || decide (∃ b ∈ after.dequeued, s.wndSurface = some b.window) }

def attach (s : State) (nw : Option Nat) (setup : Setup) (dequeue : Option Nat) (lock : Bool) : State :=
  match nw with
  | none => s
  | some nw =>
    match setup.error with
    | some msg => s.setError msg
    | none => { s.ioGetBuffer nw dequeue lock with wndSurface := some nw }

def setSurface (s : State) (nw : Option Nat) (unlock : Bool) (cancel : Answer) (setup : Setup)
    (dequeue : Option Nat) (lock : Bool) : State :=
  (s.dropSurface unlock cancel).attach nw setup dequeue lock

def ioSend (s : State) (unlock : Bool) (queue : Answer) (dequeue : Option Nat) (lock : Bool) : State :=
  match s.wndSurface with
  | none => s.setError "Sent IO buffer with no attached surface."
  | some nw =>
    let after := s.giveBack nw unlock queue
    match queue with
    | .failed _ => after.setError "Error sending IO output buffer."
    | .ok => after.ioGetBuffer nw dequeue lock

/-- The answer of `queueBuffer` is not looked at. -/
def destroy (s : State) (unlock : Bool) (queue : Answer) : State :=
  let after := { s with mallocPtr := none, destroyed := true }.returnBuffer unlock queue
  { after with left := after.left || decide (after.dequeued ≠ ∅) }

end State

inductive Act where
  | setSurface (nw : Option Nat) (unlock : Bool) (cancel : Answer) (setup : Setup)
      (dequeue : Option Nat) (lock : Bool)
  | ioSend (unlock : Bool) (queue : Answer) (dequeue : Option Nat) (lock : Bool)
  | destroy (unlock : Bool) (queue : Answer)

namespace State

def step (s : State) (act : Act) : Option State :=
  if s.destroyed then none
  else
    match act with
    | .setSurface nw unlock cancel setup dequeue lock => some (s.setSurface nw unlock cancel setup dequeue lock)
    | .ioSend unlock queue dequeue lock => some (s.ioSend unlock queue dequeue lock)
    | .destroy unlock queue => some (s.destroy unlock queue)

/-- Buffers are given back once, and the pointer is that of a buffer that is out and locked. -/
structure Sound (s : State) : Prop where
  used : s.misused = false
  returned : s.left = false
  mapped : ∀ b, s.mallocPtr = some b → b ∈ s.dequeued ∧ b ∈ s.locked

/-- What a call needs. With a window, the last dequeue from it must have worked and the window
must take that buffer now. Unless the pointer is NULL, it has to be replaced by that of the next
buffer in the same call, or nothing may have happened to the buffer at all. -/
def Clean (s : State) : Act → Prop
  | .setSurface nw _ cancel setup dequeue _ =>
    ∀ old ∈ s.wndSurface, s.holdsBufferOf old = true ∧ cancel.taken = true ∧
      (s.mallocPtr = none ∨ nw.isSome = true ∧ setup.error = none ∧ dequeue.isSome = true)
  | .ioSend unlock queue dequeue _ =>
    ∀ nw ∈ s.wndSurface, s.holdsBufferOf nw = true ∧
      (s.mallocPtr = none ∨ queue = .ok ∧ dequeue.isSome = true ∨ queue = .failed false ∧ unlock = false)
  | .destroy _ queue => ∀ nw ∈ s.wndSurface, s.holdsBufferOf nw = true ∧ queue.taken = true

instance (s : State) : (act : Act) → Decidable (s.Clean act)
  | .setSurface .. => inferInstanceAs (Decidable (∀ _ ∈ _, _))
  | .ioSend .. => inferInstanceAs (Decidable (∀ _ ∈ _, _))
  | .destroy .. => inferInstanceAs (Decidable (∀ _ ∈ _, _))

end State

open Interleaving

namespace State

variable {s next : State} {act : Act} {nw : Nat} {b : Buffer} {unlock lock : Bool} {answer : Answer}
  {dequeue : Option Nat}

theorem giveBack_eq (found : s.wndBuffer = some b) : s.giveBack nw unlock answer = { s with
        locked := if unlock then s.locked.erase b else s.locked
        dequeued := if answer.taken then s.dequeued.erase b else s.dequeued
        misused := s.misused || !s.holdsBufferOf nw } := by
  simp [giveBack, found]

theorem misused_giveBack : (s.giveBack nw unlock answer).misused = (s.misused || !s.holdsBufferOf nw) := by
  cases found : s.wndBuffer with
  | none => simp [giveBack, holdsBufferOf, found]
  | some b => simp [giveBack, found]

theorem giveBack_kept : (s.giveBack nw unlock answer).mallocPtr = s.mallocPtr ∧
    (s.giveBack nw unlock answer).wndSurface = s.wndSurface ∧ (s.giveBack nw unlock answer).left = s.left := by
  cases found : s.wndBuffer with
  | none => simp [giveBack, found]
  | some b => simp [giveBack, found]

theorem holdsBufferOf_iff : s.holdsBufferOf nw = true ↔ ∃ b, s.wndBuffer = some b ∧ b.window = nw ∧ b ∈ s.dequeued := by
  cases found : s.wndBuffer with
  | none => simp [holdsBufferOf, found]
  | some b => simp [holdsBufferOf, found]

structure Kept (s : State) : Prop extends Sound s where
  current : ∀ b ∈ s.dequeued, s.wndBuffer = some b ∧ s.wndSurface = some b.window
  pointer : ∀ b, s.mallocPtr = some b → s.wndBuffer = some b

theorem Kept.erase_current (kept : s.Kept) (found : s.wndBuffer = some b) : s.dequeued.erase b = ∅ := by
  apply Finset.eq_empty_of_forall_notMem
  intro other mem
  obtain ⟨ne, out⟩ := Finset.mem_erase.mp mem
  have current := (kept.current other out).1
  rw [found] at current
  exact ne (Option.some.inj current).symm

theorem Kept.dequeued_giveBack (kept : s.Kept) (holds : s.holdsBufferOf nw = true)
    (taken : answer.taken = true) : (s.giveBack nw unlock answer).dequeued = ∅ := by
  obtain ⟨b, found, -, -⟩ := holdsBufferOf_iff.mp holds
  rw [giveBack_eq found, taken]
  exact kept.erase_current found

theorem dequeued_giveBack_of_not_taken (taken : answer.taken = false) : (s.giveBack nw unlock answer).dequeued = s.dequeued := by
  cases found : s.wndBuffer with
  | none => simp [giveBack, found]
  | some b => simp [giveBack, found, taken]

structure Returned (s : State) : Prop where
  used : s.misused = false
  returned : s.left = false
  none_out : s.dequeued = ∅

theorem Returned.kept (returned : s.Returned) (null : s.mallocPtr = none) : s.Kept where
  used := returned.used
  returned := returned.returned
  mapped := by
    intro b mapped
    rw [null] at mapped
    cases mapped
  current := by
    intro b out
    rw [returned.none_out] at out
    exact absurd out (Finset.notMem_empty b)
  pointer := by
    intro b mapped
    rw [null] at mapped
    cases mapped

theorem Returned.ioGetBuffer (returned : s.Returned) (surface : s.wndSurface = some nw)
    (replaced : s.mallocPtr = none ∨ dequeue.isSome = true) : (s.ioGetBuffer nw dequeue lock).Kept := by
  cases dequeue with
  | none =>
    rcases replaced with null | got
    · exact Returned.kept ⟨returned.used, returned.returned, returned.none_out⟩ null
    · cases got
  | some number =>
    refine
      { used := returned.used, returned := returned.returned, mapped := ?mapped, current := ?current, pointer := ?pointer }
    case mapped =>
      intro b mapped
      cases lock with
      | false => cases mapped
      | true =>
        cases mapped
        exact ⟨Finset.mem_insert_self _ _, Finset.mem_insert_self _ _⟩
    case current =>
      intro b out
      rcases Finset.mem_insert.mp out with rfl | before
      · exact ⟨rfl, surface⟩
      · rw [returned.none_out] at before
        exact absurd before (Finset.notMem_empty b)
    case pointer =>
      intro b mapped
      cases lock with
      | false => cases mapped
      | true => exact mapped

theorem Kept.giveBack (kept : s.Kept) (holds : s.holdsBufferOf nw = true) (taken : answer.taken = true) :
    (s.giveBack nw unlock answer).Returned where
  used := by
    rw [misused_giveBack, kept.used, holds]
    rfl
  returned := giveBack_kept.2.2.trans kept.returned
  none_out := kept.dequeued_giveBack holds taken

theorem Kept.returned_of_detached (kept : s.Kept) (detached : s.wndSurface = none) : s.Returned where
  used := kept.used
  returned := kept.returned
  none_out := by
    apply Finset.eq_empty_of_forall_notMem
    intro b out
    have surface := (kept.current b out).2
    rw [detached] at surface
    cases surface

theorem mallocPtr_returnBuffer : (s.returnBuffer unlock answer).mallocPtr = s.mallocPtr := by
  cases surface : s.wndSurface with
  | none => rw [returnBuffer, surface]
  | some nw =>
    rw [returnBuffer, surface]
    exact giveBack_kept.1

theorem Kept.returnBuffer (kept : s.Kept) (needs : ∀ nw ∈ s.wndSurface, s.holdsBufferOf nw = true ∧ answer.taken = true) :
    (s.returnBuffer unlock answer).Returned := by
  cases surface : s.wndSurface with
  | none =>
    rw [State.returnBuffer, surface]
    exact kept.returned_of_detached surface
  | some nw =>
    rw [State.returnBuffer, surface]
    exact kept.giveBack (needs nw surface).1 (needs nw surface).2

theorem Kept.dropSurface (kept : s.Kept) {cancel : Answer}
    (needs : ∀ old ∈ s.wndSurface, s.holdsBufferOf old = true ∧ cancel.taken = true) :
    (s.dropSurface unlock cancel).Returned := by
  have back := @Kept.returnBuffer s unlock cancel kept needs
  refine { used := back.used, returned := ?returned, none_out := back.none_out }
  simp [State.dropSurface, back.returned, back.none_out]

theorem Returned.attach (returned : s.Returned) {nw : Option Nat} {setup : Setup}
    (replaced : s.mallocPtr = none ∨ nw.isSome = true ∧ setup.error = none ∧ dequeue.isSome = true) :
    (s.attach nw setup dequeue lock).Kept := by
  cases nw with
  | none =>
    rcases replaced with null | ⟨attached, -, -⟩
    · exact returned.kept null
    · cases attached
  | some nw =>
    cases failed : setup.error with
    | some msg =>
      rcases replaced with null | ⟨-, worked, -⟩
      · rw [State.attach, failed]
        exact @Returned.kept (s.setError msg) ⟨returned.used, returned.returned, returned.none_out⟩ null
      · rw [failed] at worked
        cases worked
    | none =>
      have there : ({ s with wndSurface := some nw } : State).Returned := ⟨returned.used, returned.returned, returned.none_out⟩
      have kept := @Returned.ioGetBuffer _ nw lock dequeue there rfl (replaced.imp id (·.2.2))
      rw [State.attach, failed]
      cases dequeue with
      | none => exact kept
      | some number => exact kept

theorem Kept.not_sent (kept : s.Kept) (holds : s.holdsBufferOf nw = true)
    (untouched : s.mallocPtr = none ∨ unlock = false) : (s.giveBack nw unlock (.failed false)).Kept := by
  obtain ⟨b, found, -, out⟩ := holdsBufferOf_iff.mp holds
  rw [giveBack_eq found, holds]
  refine
    { used := by simp [kept.used]
      returned := kept.returned
      mapped := ?mapped
      current := kept.current
      pointer := kept.pointer }
  case mapped =>
    intro other mapped
    rcases untouched with null | rfl
    · have pointer := mapped
      rw [null] at pointer
      cases pointer
    · exact kept.mapped other mapped

theorem Kept.setError (kept : s.Kept) (msg : String) : (s.setError msg).Kept where
  __ := kept

theorem Kept.unmap (kept : s.Kept) : ({ s with mallocPtr := none, destroyed := true } : State).Kept where
  __ := kept
  mapped := nofun
  pointer := nofun

theorem Sound.unmapped (sound : s.Sound) (ret : s.dequeued = ∅) : s.mallocPtr = none := by
  cases mapped : s.mallocPtr with
  | none => rfl
  | some b =>
    have out := (sound.mapped b mapped).1
    rw [ret] at out
    exact absurd out (Finset.notMem_empty b)

theorem Kept.step (kept : s.Kept) (clean : s.Clean act) (moved : s.step act = some next) : next.Kept := by
  unfold State.step at moved
  split at moved
  case isTrue => cases moved
  case isFalse =>
    cases act with
    | setSurface nw unlock cancel setup dequeue lock =>
      cases moved
      have dropped := @Kept.dropSurface s unlock kept cancel fun old surface =>
        ⟨(clean old surface).1, (clean old surface).2.1⟩
      apply dropped.attach
      have ptr : (s.dropSurface unlock cancel).mallocPtr = s.mallocPtr := mallocPtr_returnBuffer
      rw [ptr]
      cases surface : s.wndSurface with
      | some old => exact (clean old surface).2.2
      | none => exact .inl (kept.toSound.unmapped (kept.returned_of_detached surface).none_out)
    | ioSend unlock queue dequeue lock =>
      cases moved
      cases surface : s.wndSurface with
      | none =>
        rw [State.ioSend, surface]
        exact kept.setError _
      | some nw =>
        obtain ⟨holds, replaced⟩ := clean nw surface
        rw [State.ioSend, surface]
        cases queue with
        | ok =>
          have back := @Kept.giveBack s nw unlock .ok kept holds rfl
          apply back.ioGetBuffer (giveBack_kept.2.1.trans surface)
          rw [giveBack_kept.1]
          rcases replaced with null | ⟨-, got⟩ | ⟨failed, -⟩
          · exact .inl null
          · exact .inr got
          · cases failed
        | failed taken =>
          apply Kept.setError
          cases taken with
          | false =>
            refine kept.not_sent holds ?_
            rcases replaced with null | ⟨sent, -⟩ | ⟨-, still⟩
            · exact .inl null
            · cases sent
            · exact .inr still
          | true =>
            have back := @Kept.giveBack s nw unlock (.failed true) kept holds rfl
            refine back.kept ?_
            rw [giveBack_kept.1]
            rcases replaced with null | ⟨sent, -⟩ | ⟨failed, -⟩
            · exact null
            · cases sent
            · cases failed
    | destroy unlock queue =>
      cases moved
      have back := @Kept.returnBuffer _ unlock queue kept.unmap clean
      apply Returned.kept
      · exact ⟨back.used, by simp [State.destroy, back.returned, back.none_out], back.none_out⟩
      · exact mallocPtr_returnBuffer

theorem flags_attach {nw : Option Nat} {setup : Setup} :
    (s.attach nw setup dequeue lock).misused = s.misused ∧ (s.attach nw setup dequeue lock).left = s.left := by
  unfold attach
  split
  · exact ⟨rfl, rfl⟩
  · split
    · exact ⟨rfl, rfl⟩
    · cases dequeue <;> exact ⟨rfl, rfl⟩

theorem attach_unmapped {nw : Option Nat} {setup : Setup}
    (missed : ¬ (nw.isSome = true ∧ setup.error = none ∧ dequeue.isSome = true)) :
    (s.attach nw setup dequeue lock).mallocPtr = s.mallocPtr ∧ (s.attach nw setup dequeue lock).dequeued = s.dequeued := by
  cases nw with
  | none => exact ⟨rfl, rfl⟩
  | some nw =>
    cases failed : setup.error with
    | some msg => simp [attach, failed, setError]
    | none =>
      cases dequeue with
      | none => simp [attach, failed, ioGetBuffer, setError]
      | some number => exact absurd ⟨rfl, failed, rfl⟩ missed

theorem Kept.returnBuffer_needs (kept : s.Kept) (used : (s.returnBuffer unlock answer).misused = false)
    (gone : ∀ b ∈ (s.returnBuffer unlock answer).dequeued, s.wndSurface ≠ some b.window) :
    ∀ nw ∈ s.wndSurface, s.holdsBufferOf nw = true ∧ answer.taken = true := by
  intro nw surface
  rw [State.returnBuffer, surface] at used gone
  have holds : s.holdsBufferOf nw = true := by
    rw [misused_giveBack, kept.used] at used
    simpa using used
  refine ⟨holds, ?_⟩
  cases taken : answer.taken with
  | true => rfl
  | false =>
    obtain ⟨b, -, rfl, out⟩ := holdsBufferOf_iff.mp holds
    rw [dequeued_giveBack_of_not_taken taken] at gone
    exact absurd rfl (gone b out)

theorem Kept.clean_of_sound (kept : s.Kept) (moved : s.step act = some next) (sound : next.Sound) : s.Clean act := by
  unfold State.step at moved
  split at moved
  case isTrue => cases moved
  case isFalse =>
    cases act with
    | setSurface nw unlock cancel setup dequeue lock =>
      cases moved
      have used := flags_attach.1.symm.trans sound.used
      have returned := flags_attach.2.symm.trans sound.returned
      have gone := of_decide_eq_false (Bool.or_eq_false_iff.mp returned).2
      have needs := kept.returnBuffer_needs used fun b out surface => gone ⟨b, out, surface⟩
      intro old surface
      obtain ⟨holds, taken⟩ := needs old surface
      refine ⟨holds, taken, ?_⟩
      by_cases replaced : nw.isSome = true ∧ setup.error = none ∧ dequeue.isSome = true
      · exact .inr replaced
      · left
        have dropped := @Kept.dropSurface s unlock kept _ needs
        obtain ⟨pointer, out⟩ := attach_unmapped replaced
        have null := sound.unmapped (out.trans dropped.none_out)
        exact mallocPtr_returnBuffer.symm.trans (pointer.symm.trans null)
    | ioSend unlock queue dequeue lock =>
      cases moved
      intro nw surface
      rw [State.ioSend, surface] at sound
      have holds : s.holdsBufferOf nw = true := by
        have used : (s.giveBack nw unlock queue).misused = false := by
          cases queue with
          | failed taken => exact sound.used
          | ok =>
            cases dequeue with
            | none => exact sound.used
            | some number => exact sound.used
        rw [misused_giveBack, kept.used] at used
        simpa using used
      refine ⟨holds, ?_⟩
      cases queue with
      | ok =>
        cases dequeue with
        | some number => exact .inr (.inl ⟨rfl, rfl⟩)
        | none =>
          left
          have null := sound.unmapped (Kept.dequeued_giveBack kept holds rfl)
          exact giveBack_kept.1.symm.trans null
      | failed taken =>
        cases taken with
        | true =>
          left
          have null := sound.unmapped (Kept.dequeued_giveBack kept holds rfl)
          exact giveBack_kept.1.symm.trans null
        | false =>
          cases unlock with
          | false => exact .inr (.inr ⟨rfl, rfl⟩)
          | true =>
            left
            cases mapped : s.mallocPtr with
            | none => rfl
            | some b =>
              -- the buffer of the pointer is no longer locked
              have still := (sound.mapped b (giveBack_kept.1.trans mapped)).2
              have eq : (s.giveBack nw true (.failed false)).locked = s.locked.erase b := by
                rw [giveBack_eq (kept.pointer b mapped)]
                rfl
              have locked := eq ▸ still
              exact absurd rfl (Finset.mem_erase.mp locked).1
    | destroy unlock queue =>
      cases moved
      have empty := of_decide_eq_false (Bool.or_eq_false_iff.mp sound.returned).2
      refine kept.unmap.returnBuffer_needs sound.used fun b out _ => ?_
      rw [not_not.mp empty] at out
      exact Finset.notMem_empty b out

theorem Kept.start : ({} : State).Kept where
  used := rfl
  returned := rfl
  mapped := nofun
  current := fun b out => absurd out (Finset.notMem_empty b)
  pointer := nofun

end State

/-- Buffers are given back once and the pointer is never stale, exactly in the runs of which
each step is clean. -/
theorem window_buffers_sound_iff {acts : List Act} {s : State} (run : Run State.step Anyhow {} acts s) :
    Throughout State.step Anyhow {} State.Sound acts ↔ Run State.step State.Clean {} acts s :=
  run.throughout_iff_of_invariant State.Kept .start State.Kept.toSound State.Kept.step State.Kept.clean_of_sound

/-- A window that is written to twice, replaced by another one, and the allocation destroyed. -/
theorem window_buffers_sound_replaced : Throughout State.step Anyhow {} State.Sound
      [.setSurface (some 1) true .ok {} (some 10) true, .ioSend true .ok (some 11) true,
        .ioSend true .ok (some 10) true, .setSurface (some 2) true .ok {} (some 10) true, .destroy true .ok] :=
  throughout_of_perform window_buffers_sound_iff (by decide +kernel)

/-- Taking the window away leaves the pointer to a buffer that was cancelled. After a failed
dequeue the buffer before is queued a second time. -/
theorem window_buffers_unsound : (∃ s, Run State.step Anyhow {}
        [.setSurface (some 1) true .ok {} (some 10) true, .setSurface none true .ok {} none false] s ∧
      s.mallocPtr = some ⟨1, 10⟩ ∧ s.dequeued = ∅) ∧
    ∃ s, Run State.step Anyhow {} [.setSurface (some 1) true .ok {} (some 10) true, .ioSend true .ok none false,
          .ioSend true .ok (some 11) true] s ∧
      s.misused = true :=
  ⟨exists_run_of_perform (by decide +kernel), exists_run_of_perform (by decide +kernel)⟩

end RenderScript.WindowBuffers
