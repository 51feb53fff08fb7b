import RenderScript.Foundation.LineCopies

/-!
# Sweeps over a memory

Steps that each write the same number of bytes, computed from the memory as the steps before have
left it.
-/

namespace Sweeps
open ByteMemory LineCopies

variable {n steps i j location : Nat} {target : Nat → Nat} {bytes : Nat → Memory → Memory} {memory : Memory}

def sweep (n : Nat) (target : Nat → Nat) (bytes : Nat → Memory → Memory) : Nat → Memory → Memory
  | 0, memory => memory
  | steps + 1, memory =>
    write (sweep n target bytes steps memory) ⟨target steps, n⟩ (bytes steps (sweep n target bytes steps memory))

/-- A location that no step after the first `i` writes. -/
theorem sweep_of_le (later : i ≤ steps) (out : ∀ k, i ≤ k → k < steps → location < target k ∨ target k + n ≤ location) :
    sweep n target bytes steps memory location = sweep n target bytes i memory location := by
  induction steps with
  | zero =>
    cases Nat.le_zero.mp later
    rfl
  | succ steps ih =>
    rcases Nat.le_succ_iff.mp later with before | rfl
    · rw [sweep, write_outside _ _ (out steps before (Nat.lt_succ_self _))]
      exact ih before fun k above lt => out k above (Nat.lt_succ_of_lt lt)
    · rfl

theorem sweep_outside (out : Outside n steps target location) :
    sweep n target bytes steps memory location = memory location :=
  sweep_of_le (Nat.zero_le _) fun k _ lt => out k lt

/-- A step leaves what it has computed, as long as no later step writes there. -/
theorem sweep_at (apart : Apart n steps target) (inSteps : i < steps) (inside : j < n) :
    sweep n target bytes steps memory (target i + j) = bytes i (sweep n target bytes i memory) j := by
  have last : sweep n target bytes (i + 1) memory (target i + j) = bytes i (sweep n target bytes i memory) j := by
    rw [sweep, write_at _ _ inside]
  refine (sweep_of_le inSteps ?_).trans last
  intro k above lt
  rcases apart i k above lt with before | behind
  · exact .inl ((Nat.add_lt_add_left inside _).trans_le before)
  · exact .inr (behind.trans (Nat.le_add_right _ _))

theorem sweep_add (first second : Nat) : sweep n target bytes (first + second) memory =
      sweep n (fun i => target (first + i)) (fun i => bytes (first + i)) second (sweep n target bytes first memory) := by
  induction second with
  | zero => rfl
  | succ second ih => rw [← Nat.add_assoc, sweep, ih, sweep]

theorem sweep_congr {target' : Nat → Nat} {bytes' : Nat → Memory → Memory}
    (targets : ∀ i < steps, target i = target' i) (same : ∀ i < steps, bytes i = bytes' i) :
    sweep n target bytes steps memory = sweep n target' bytes' steps memory := by
  induction steps with
  | zero => rfl
  | succ steps ih =>
    have before := ih (fun i lt => targets i (Nat.lt_succ_of_lt lt)) fun i lt => same i (Nat.lt_succ_of_lt lt)
    rw [sweep, sweep, before, targets steps (Nat.lt_succ_self _), same steps (Nat.lt_succ_self _)]

end Sweeps
