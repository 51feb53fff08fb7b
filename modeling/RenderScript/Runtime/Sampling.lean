import Mathlib.Tactic.LinearCombination

/-!
# Sampling in scripts

`rs_sample.c`: the wrapping of texel coordinates.
-/

namespace RenderScript.Runtime

inductive SamplerValue where
  | nearest | linear | linearMipLinear | wrap | clamp | linearMipNearest | mirroredRepeat | invalid
  deriving DecidableEq

/-- `%` is C's, which truncates; with `2 * size` below `2 ^ 31` nothing here leaves `int32_t`. -/
def wrapI (value : SamplerValue) (coord size : Int) : Int :=
  let coord := if value = .wrap then
      let coord := coord.tmod size
      if coord < 0 then coord + size else coord
    else coord
  let coord := if value = .mirroredRepeat then
      let coord := coord.tmod (size * 2)
      let coord := if coord < 0 then size * 2 + coord else coord
      if coord ≥ size then size * 2 - coord else coord
    else coord
  max 0 (min coord (size - 1))

section
variable {size : Int}

theorem tmod_lifted (coord : Int) {n : Int} (pos : 0 < n) :
    (if coord.tmod n < 0 then n + coord.tmod n else coord.tmod n) = coord % n := by
  have lower := Int.emod_nonneg coord pos.ne'
  have upper := Int.emod_lt_of_pos coord pos
  rw [Int.tmod_eq_emod]
  split_ifs <;> omega

theorem wrapI_wrap (coord : Int) (pos : 1 ≤ size) : wrapI .wrap coord size = coord % size := by
  have lower := Int.emod_nonneg coord (by omega : size ≠ 0)
  have upper := Int.emod_lt_of_pos coord (by omega : 0 < size)
  simp only [wrapI, if_true, reduceCtorEq, if_false, add_comm _ size, tmod_lifted coord (by omega : 0 < size)]
  omega

theorem wrapI_mirroredRepeat (coord : Int) (pos : 1 ≤ size) : wrapI .mirroredRepeat coord size =
    if coord % (size * 2) < size then coord % (size * 2) else min (size * 2 - coord % (size * 2)) (size - 1) := by
  have lower := Int.emod_nonneg coord (by omega : size * 2 ≠ 0)
  have upper := Int.emod_lt_of_pos coord (by omega : 0 < size * 2)
  simp only [wrapI, if_true, reduceCtorEq, if_false, tmod_lifted coord (by omega : 0 < size * 2)]
  split_ifs <;> omega

/-- Reflected at `-1/2` the coordinate lands in the other half of the period. -/
theorem emod_reflected (coord : Int) {n : Int} (pos : 0 < n) : (-1 - coord) % n = n - 1 - coord % n := by
  have lower := Int.emod_nonneg coord pos.ne'
  have upper := Int.emod_lt_of_pos coord pos
  have split : -1 - coord = (n - 1 - coord % n) + n * (-1 - coord / n) := by
    linear_combination Int.emod_add_mul_ediv coord n
  rw [split, Int.add_mul_emod_self_left, Int.emod_eq_of_lt (by omega) (by omega)]

/-- All that is asked of `wrapI` at a coordinate holds but for the symmetry of `MIRRORED_REPEAT`, which maps
`size + k` to `size - k`: it holds in the middle of the period alone. -/
theorem wrapI_iff (coord : Int) (positive : 1 ≤ size) : (∀ value, 0 ≤ wrapI value coord size ∧ wrapI value coord size < size) ∧
      wrapI .wrap coord size = coord % size ∧
      (∀ index, 0 ≤ index → index < size → (coord - wrapI .clamp coord size).natAbs ≤ (coord - index).natAbs) ∧
      (0 ≤ coord → coord < size → wrapI .mirroredRepeat coord size = coord) ∧
      wrapI .mirroredRepeat (coord + 2 * size) size = wrapI .mirroredRepeat coord size ∧
      wrapI .mirroredRepeat (-1 - coord) size = wrapI .mirroredRepeat coord size ↔
    coord % (2 * size) = size - 1 ∨ coord % (2 * size) = size := by
  have lower := Int.emod_nonneg coord (by omega : size * 2 ≠ 0)
  have upper := Int.emod_lt_of_pos coord (by omega : 0 < size * 2)
  rw [wrapI_mirroredRepeat _ positive, wrapI_mirroredRepeat _ positive, wrapI_mirroredRepeat _ positive,
    emod_reflected coord (by omega), mul_comm 2 size, Int.add_emod_right]
  constructor
  · rintro ⟨-, -, -, -, -, symmetric⟩
    split_ifs at symmetric <;> omega
  · intro mid
    refine ⟨fun value => ?_, wrapI_wrap coord positive, fun index _ _ => ?_, fun _ _ => ?_, rfl, ?_⟩
    · dsimp only [wrapI]
      omega
    · simp only [wrapI, reduceCtorEq, if_false]
      omega
    · rw [Int.emod_eq_of_lt ‹_› (by omega), if_pos ‹_›]
    · split_ifs <;> omega

theorem wrapI_iff_one : wrapI .mirroredRepeat (-1 - 0) 1 = wrapI .mirroredRepeat 0 1 :=
  ((wrapI_iff 0 le_rfl).mpr (by decide)).2.2.2.2.2

theorem wrapI_not_symmetric : wrapI .mirroredRepeat (-1 - 0) 2 = 1 ∧ wrapI .mirroredRepeat 0 2 = 0 := by
  decide

end

end RenderScript.Runtime
