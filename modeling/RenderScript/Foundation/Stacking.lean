import Mathlib

/-!
# Stacked blocks

Blocks of given sizes, one behind the other, and pieces inside them.
-/

namespace Stacking

variable {size : Nat → Nat} {i j n p q a b : Nat}

/-- Where a block begins. -/
def offset (size : Nat → Nat) (n : Nat) : Nat := ∑ i ∈ Finset.range n, size i

@[simp] theorem offset_zero (size : Nat → Nat) : offset size 0 = 0 := Finset.sum_range_zero _

theorem offset_succ (size : Nat → Nat) (n : Nat) : offset size (n + 1) = offset size n + size n := Finset.sum_range_succ _ _

theorem offset_succ_left (size : Nat → Nat) (n : Nat) : offset size (n + 1) = size 0 + offset (fun i => size (i + 1)) n := by
  rw [offset, Finset.sum_range_succ', add_comm]
  rfl

/-- Blocks of one size. -/
@[simp] theorem offset_const (s n : Nat) : offset (fun _ => s) n = n * s := by
  simp [offset]

theorem offset_mono (lt : i ≤ j) : offset size i ≤ offset size j := Finset.sum_le_sum_of_subset (Finset.range_mono lt)

theorem offset_add_le (lt : i < j) : offset size i + size i ≤ offset size j := by
  rw [← offset_succ]
  exact offset_mono lt

/-- A piece of a block lies before the end of all blocks. -/
theorem piece_le (lt : i < n) (inside : p + a ≤ size i) : offset size i + p + a ≤ offset size n := by
  have block := @offset_add_le size i n lt
  omega

/-- Pieces of different blocks lie apart. -/
theorem pieces_apart (ne : i ≠ j) (inside : p + a ≤ size i) (inside' : q + b ≤ size j) :
    offset size i + p + a ≤ offset size j + q ∨ offset size j + q + b ≤ offset size i + p := by
  rcases lt_or_gt_of_ne ne with before | behind
  · have block := @offset_add_le size i j before
    exact .inl (by omega)
  · have block := @offset_add_le size j i behind
    exact .inr (by omega)

theorem dvd_offset {unit : Nat} (whole : ∀ i < n, unit ∣ size i) : unit ∣ offset size n :=
  Finset.dvd_sum fun i mem => whole i (Finset.mem_range.mp mem)

end Stacking
