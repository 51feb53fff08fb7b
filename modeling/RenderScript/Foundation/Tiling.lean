import Mathlib

/-!
# Intervals that tile

Pieces, each a start and a length, that cover an interval of numbers without overlap.
-/

namespace Tiling

/-- A number lies in a piece. -/
def Lies (n : Nat) (piece : Nat × Nat) : Prop := piece.1 ≤ n ∧ n < piece.1 + piece.2

structure Tiles (pieces : List (Nat × Nat)) (start stop : Nat) : Prop where
  disjoint : pieces.Pairwise fun piece other => ∀ n, Lies n piece → ¬ Lies n other
  covers : ∀ n, start ≤ n ∧ n < stop ↔ ∃ piece ∈ pieces, Lies n piece

/-- Pieces of given lengths, one behind the other. -/
def place : List Nat → Nat → List (Nat × Nat)
  | [], _ => []
  | size :: rest, start => (start, size) :: place rest (start + size)

theorem le_of_mem_place {sizes : List Nat} {start : Nat} {piece : Nat × Nat}
    (mem : piece ∈ place sizes start) : start ≤ piece.1 := by
  induction sizes generalizing start with
  | nil => cases mem
  | cons size rest ih =>
    rcases List.mem_cons.mp mem with rfl | later
    · exact Nat.le_refl _
    · exact (Nat.le_add_right start size).trans (ih later)

theorem tiles_place (sizes : List Nat) (start : Nat) : Tiles (place sizes start) start (start + sizes.sum) := by
  induction sizes generalizing start with
  | nil =>
    refine ⟨.nil, fun n => ?_⟩
    constructor
    · intro between
      rw [List.sum_nil] at between
      omega
    · rintro ⟨piece, none, -⟩
      cases none
  | cons size rest ih =>
    obtain ⟨disjoint, covers⟩ := ih (start + size)
    refine ⟨.cons ?_ disjoint, fun n => ?_⟩
    · intro other mem n inFirst inOther
      have behind := le_of_mem_place mem
      rw [Lies] at inFirst inOther
      omega
    · rw [place, List.exists_mem_cons_iff, ← covers, Lies, List.sum_cons]
      omega

end Tiling
