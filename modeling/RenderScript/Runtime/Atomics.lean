import Mathlib.Logic.Function.Basic

/-!
# Atomic operations on a location

The `rsAtomic` functions of `rs_core.c`: one `__sync` operation, or for `rsAtomicMin` and `rsAtomicMax` a load
and a compare-and-swap until it finds the loaded value.
-/

namespace RenderScript.Runtime

/-- An `int32_t` or a `uint32_t`. -/
abbrev Word := BitVec 32

inductive AtomicOp where
  | cas (expectedValue newValue : Word)
  | inc
  | dec
  | add (value : Word)
  | sub (value : Word)
  | and (value : Word)
  | or (value : Word)
  | xor (value : Word)
  | min (value : Word)
  | max (value : Word)

/-- `<=` on `int32_t` or on `uint32_t`. -/
def atMost (signed : Bool) (a b : Word) : Bool := if signed then a.sle b else a.ule b

/-- What a call leaves where it found `old`; every call returns the 32 bits of `old`. -/
def AtomicOp.apply (signed : Bool) (old : Word) : AtomicOp → Word
  | cas expectedValue newValue => if old = expectedValue then newValue else old
  | inc => old + 1
  | dec => old - 1
  | add value => old + value
  | sub value => old - value
  | and value => old &&& value
  | or value => old ||| value
  | xor value => old ^^^ value
  | min value => if atMost signed value old then value else old
  | max value => if atMost signed old value then value else old

/-- The operations with the loop around `__sync_val_compare_and_swap`. -/
def AtomicOp.loops : AtomicOp → Bool
  | min _ | max _ => true
  | _ => false

/-- A call that has returned: when it began, when it took its last step and what it returned. -/
structure AtomicCall where
  op : AtomicOp
  (began ended : Nat)
  returned : Word

/-- A call that is going on: `prev` once it is loaded. -/
structure PendingCall where
  op : AtomicOp
  began : Nat
  prev : Option Word

/-- The location, the calls of the threads, and the calls that returned, in the order they did. -/
structure AtomicState (Thread : Type*) where
  location : Word
  clock : Nat
  pending : Thread → Option PendingCall
  returned : List AtomicCall

/-- The calls applied one after another to `value`: each returns what the one before it left. -/
def Applied (signed : Bool) (value left : Word) : List AtomicCall → Prop
  | [] => left = value
  | call :: calls => call.returned = value ∧ Applied signed (call.op.apply signed value) left calls

namespace AtomicState

variable {Thread : Type*} [DecidableEq Thread] {signed : Bool} {value : Word} {s : AtomicState Thread} {t : Thread}
  {call : PendingCall}

/-- The call takes its last step and leaves `left`. -/
def complete (s : AtomicState Thread) (t : Thread) (call : PendingCall) (left : Word) : AtomicState Thread where
  location := left
  clock := s.clock + 1
  pending := Function.update s.pending t none
  returned := s.returned ++ [⟨call.op, call.began, s.clock, s.location⟩]

def proceed (s : AtomicState Thread) (t : Thread) (call : PendingCall) : AtomicState Thread :=
  { s with clock := s.clock + 1, pending := Function.update s.pending t (some call) }

/-- The next atomic step of a call. -/
def advance (signed : Bool) (s : AtomicState Thread) (t : Thread) (call : PendingCall) : AtomicState Thread :=
  if call.op.loops then
    match call.prev with
    | none => s.proceed t { call with prev := s.location }
    | some prev =>
      if s.location = prev then s.complete t call (call.op.apply signed prev) else s.proceed t { call with prev := none }
  else s.complete t call (call.op.apply signed s.location)

/-- The states that interleavings lead to. -/
inductive Reachable (signed : Bool) (value : Word) : AtomicState Thread → Prop
  | start : Reachable signed value ⟨value, 0, fun _ => none, []⟩
  | begin {s : AtomicState Thread} {t : Thread} (op : AtomicOp) : Reachable signed value s → s.pending t = none →
      Reachable signed value (s.proceed t ⟨op, s.clock, none⟩)
  | advance {s : AtomicState Thread} {t : Thread} {call : PendingCall} : Reachable signed value s →
      s.pending t = some call → Reachable signed value (s.advance signed t call)

/-- The order in which the calls returned is one of the location's values and respects real time. -/
structure Inv (signed : Bool) (value : Word) (s : AtomicState Thread) : Prop where
  applied : Applied signed value s.location s.returned
  past : ∀ call ∈ s.returned, call.began ≤ s.clock
  pending : ∀ t call, s.pending t = some call → call.began ≤ s.clock
  ordered : s.returned.Pairwise fun first second => ¬ second.ended < first.began

theorem applied_append {calls : List AtomicCall} {call : AtomicCall} (applied : Applied signed value call.returned calls) :
    Applied signed value (call.op.apply signed call.returned) (calls ++ [call]) := by
  induction calls generalizing value with
  | nil =>
    cases applied
    exact ⟨rfl, rfl⟩
  | cons _ calls ih => exact ⟨applied.1, ih applied.2⟩

theorem Inv.proceed (inv : Inv signed value s) (begun : call.began ≤ s.clock) : Inv signed value (s.proceed t call) where
  applied := inv.applied
  past first mem := Nat.le_succ_of_le (inv.past first mem)
  ordered := inv.ordered
  pending t' call' here := by
    simp only [AtomicState.proceed, Function.update_apply] at here ⊢
    split at here
    · cases here
      exact Nat.le_succ_of_le begun
    · exact Nat.le_succ_of_le (inv.pending t' call' here)

theorem Inv.complete (inv : Inv signed value s) (here : s.pending t = some call) :
    Inv signed value (s.complete t call (call.op.apply signed s.location)) where
  applied := @applied_append _ _ _ ⟨call.op, call.began, s.clock, s.location⟩ inv.applied
  past first mem := by
    rcases List.mem_append.mp mem with old | new
    · exact Nat.le_succ_of_le (inv.past first old)
    · rw [List.mem_singleton.mp new]
      exact Nat.le_succ_of_le (inv.pending t call here)
  pending t' call' other := by
    simp only [AtomicState.complete, Function.update_apply] at other ⊢
    split at other
    · cases other
    · exact Nat.le_succ_of_le (inv.pending t' call' other)
  ordered := by
    refine List.pairwise_append.mpr ⟨inv.ordered, List.pairwise_singleton _ _, fun first old second new => ?_⟩
    rw [List.mem_singleton.mp new]
    exact Nat.not_lt.mpr (inv.past first old)

theorem Inv.advance (inv : Inv signed value s) (here : s.pending t = some call) :
    Inv signed value (s.advance signed t call) := by
  have begun := inv.pending t call here
  rw [AtomicState.advance]
  split
  · split
    · exact inv.proceed begun
    · split
      -- the value may have changed and changed back since it was loaded: what is there now matters
      case isTrue eq => exact eq ▸ inv.complete here
      case isFalse => exact inv.proceed begun
  · exact inv.complete here

theorem Reachable.inv (reachable : Reachable signed value s) : Inv signed value s := by
  induction reachable with
  | start => exact ⟨rfl, nofun, nofun, .nil⟩
  | begin op _ _ ih => exact ih.proceed (Nat.le_refl _)
  | advance _ here ih => exact ih.advance here

end AtomicState

end RenderScript.Runtime
