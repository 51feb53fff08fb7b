import RenderScript.Types.RsType

/-!
# Levels of detail

How many levels `compute` makes, and how many cells they have.
-/

namespace RenderScript.Types
open Elements

variable {level : Level}

theorem log2_eq_zero_iff {n : Nat} : n.log2 = 0 ↔ n ≤ 1 := by
  rw [Nat.log2_eq_log_two, Nat.log_eq_zero_iff]
  omega

theorem toNat_max (a b : UInt32) : (max a b).toNat = max a.toNat b.toNat := by
  exact apply_ite UInt32.toNat _ _ _

/-- The loop of `rsFindHighBit`. -/
def highBitLoop (val bit : UInt32) : UInt32 :=
  if val > 1 then highBitLoop (val >>> 1) (bit + 1) else bit
termination_by val.toNat
decreasing_by
  rename_i large
  have more : 1 < val.toNat := UInt32.lt_iff_toNat_lt.mp large
  have half : (val >>> 1).toNat = val.toNat / 2 := Nat.shiftRight_one _
  omega

theorem toNat_rsFindHighBit_succ (val : UInt32) : (rsFindHighBit val + 1).toNat = val.toNat.log2 + 1 := by
  have bits : val.toNat.log2 < 32 := by
    rw [Nat.log2_eq_log_two]
    exact Nat.log_lt_of_lt_pow' (by decide) val.toNat_lt
  rw [UInt32.toNat_add, rsFindHighBit, UInt32.toNat_ofNat', UInt32.toNat_one]
  omega

theorem TypeKey.toNat_lodCount (key : TypeKey) : key.lodCount.toNat = if key.mDimLOD then
      max (max key.dimX.toNat.log2 key.dimY.toNat.log2) key.dimZ.toNat.log2 + 1 else 1 := by
  rw [TypeKey.lodCount]
  cases key.mDimLOD with
  | false => rfl
  | true =>
    simp only [if_true, toNat_max, toNat_rsFindHighBit_succ]
    omega

theorem TypeKey.lodCount_ne_zero (key : TypeKey) : key.lodCount ≠ 0 := by
  intro zero
  have count := key.toNat_lodCount
  rw [zero] at count
  split at count <;> cases count

def rowsOf (level : Level) : Nat := max level.y.toNat 1 * max level.z.toNat 1

def cellsOf (level : Level) : Nat := level.x.toNat * rowsOf level

theorem one_le_rowsOf (level : Level) : 1 ≤ rowsOf level := Nat.mul_pos (by omega) (by omega)

theorem toNat_cells (level : Level) : level.cells.toNat = cellsOf level % 2 ^ 32 := by
  rw [Level.cells, UInt32.toNat_mul, UInt32.toNat_mul, toNat_max, toNat_max, UInt32.toNat_one,
    cellsOf, rowsOf, Nat.mod_mul_mod, mul_assoc]

theorem toNat_halved (d : UInt32) : (halved d).toNat = if 1 < d.toNat then d.toNat / 2 else d.toNat := by
  unfold halved
  split
  · rename_i large
    have more : 1 < d.toNat := UInt32.lt_iff_toNat_lt.mp large
    rw [if_pos more, UInt32.toNat_shiftRight, UInt32.toNat_one]
    exact Nat.shiftRight_one _
  · rename_i small
    have less : ¬ 1 < d.toNat := fun more => small (UInt32.lt_iff_toNat_lt.mpr more)
    simp [less]

def totalCells : Nat → Level → Nat
  | 0, _ => 0
  | lods + 1, level => cellsOf level + totalCells lods level.next

theorem countCells_le (lods : Nat) (level : Level) (mCellCount : UInt64) :
    (countCells lods level mCellCount).toNat ≤ mCellCount.toNat + totalCells lods level := by
  induction lods generalizing level mCellCount with
  | zero => exact Nat.le_add_right _ _
  | succ lods ih =>
    have rest := ih level.next (mCellCount + level.cells.toUInt64)
    have sum := Nat.mod_le (mCellCount.toNat + level.cells.toUInt64.toNat) (2 ^ 64)
    rw [UInt64.toNat_add] at rest
    rw [UInt32.toNat_toUInt64, toNat_cells] at rest sum
    rw [countCells, totalCells]
    omega

def depth (level : Level) : Nat :=
  max (max level.x.toNat.log2 level.y.toNat.log2) level.z.toNat.log2

theorem log2_halved (d : UInt32) : (halved d).toNat.log2 = d.toNat.log2 - 1 := by
  rw [toNat_halved]
  split
  · have unfolded := Nat.log2_def d.toNat
    rw [if_pos (by omega)] at unfolded
    omega
  · rw [log2_eq_zero_iff.mpr (by omega)]

theorem depth_next (level : Level) : depth level.next = depth level - 1 := by
  rw [depth, depth, Level.next, log2_halved, log2_halved, log2_halved]
  omega

theorem toNat_x_next {level : Level} (wide : 1 ≤ level.x.toNat) : 1 ≤ level.next.x.toNat := by
  rw [Level.next, toNat_halved]
  split <;> omega

theorem halved_le_self (d : UInt32) : (halved d).toNat ≤ d.toNat := by
  rw [toNat_halved]
  split <;> omega

theorem halved_le (d : UInt32) :
    max (halved d).toNat 1 ≤ max d.toNat 1 ∧ (1 < d.toNat → 2 * max (halved d).toNat 1 ≤ max d.toNat 1) := by
  rw [toNat_halved]
  split <;> omega

theorem one_lt_of_log2 {n : Nat} (large : 1 ≤ n.log2) : 1 < n := not_le.mp (mt log2_eq_zero_iff.mpr (Nat.ne_zero_of_lt large))

theorem cellsOf_next (wide : 1 ≤ level.x.toNat) (deep : 1 ≤ depth level) : 2 * cellsOf level.next ≤ cellsOf level := by
  have shape (l : Level) (positive : 1 ≤ l.x.toNat) : cellsOf l = max l.x.toNat 1 * (max l.y.toNat 1 * max l.z.toNat 1) := by
    rw [max_eq_left positive]
    rfl
  rw [shape level wide, shape level.next (toNat_x_next wide), Level.next]
  obtain ⟨x, halfX⟩ := halved_le level.x
  obtain ⟨y, halfY⟩ := halved_le level.y
  obtain ⟨z, halfZ⟩ := halved_le level.z
  have some : 1 < level.x.toNat ∨ 1 < level.y.toNat ∨ 1 < level.z.toNat := by
    by_contra flat
    simp only [not_or, not_lt, ← log2_eq_zero_iff] at flat
    rw [depth] at deep
    omega
  rcases some with large | large | large
  · rw [← mul_assoc]
    exact Nat.mul_le_mul (halfX large) (Nat.mul_le_mul y z)
  · rw [mul_left_comm, ← mul_assoc 2]
    exact Nat.mul_le_mul x (Nat.mul_le_mul (halfY large) z)
  · rw [mul_left_comm, mul_left_comm 2]
    exact Nat.mul_le_mul x (Nat.mul_le_mul y (halfZ large))

theorem one_le_cellsOf (wide : 1 ≤ level.x.toNat) : 1 ≤ cellsOf level := Nat.mul_pos wide (one_le_rowsOf level)

theorem totalCells_lt {lods : Nat} (wide : 1 ≤ level.x.toNat)
    (levels : lods ≤ depth level + 1) : totalCells lods level < 2 * cellsOf level := by
  have some := one_le_cellsOf wide
  induction lods generalizing level with
  | zero =>
    rw [totalCells]
    omega
  | succ lods ih =>
    rw [totalCells]
    cases lods with
    | zero =>
      rw [totalCells]
      omega
    | succ lods =>
      have wideNext := toNat_x_next wide
      have rest := ih wideNext (by rw [depth_next]; omega) (one_le_cellsOf wideNext)
      have half := cellsOf_next wide (by omega)
      omega

/-- A dimension of the level `lod`. -/
def dimAt (dim lod : Nat) : Nat := if dim = 0 then 0 else max 1 (dim >>> lod)

theorem toNat_iterate_halved (d : UInt32) (lod : Nat) : (halved^[lod] d).toNat = dimAt d.toNat lod := by
  induction lod with
  | zero =>
    rw [dimAt, Nat.shiftRight_zero]
    change d.toNat = _
    split <;> omega
  | succ lod ih =>
    rw [Function.iterate_succ_apply', toNat_halved, ih, dimAt, dimAt, Nat.shiftRight_succ]
    split_ifs <;> omega

theorem iterate_next (level : Level) (lod : Nat) :
    Level.next^[lod] level = ⟨halved^[lod] level.x, halved^[lod] level.y, halved^[lod] level.z⟩ := by
  induction lod generalizing level with
  | zero => rfl
  | succ lod ih => exact ih level.next

theorem one_le_iterate {level : Level} (wide : 1 ≤ level.x.toNat) (lod : Nat) : 1 ≤ (Level.next^[lod] level).x.toNat := by
  rw [iterate_next, toNat_iterate_halved, dimAt]
  split <;> omega

theorem toNat_x_iterate_zero (zero : level.x.toNat = 0) (lod : Nat) : (Level.next^[lod] level).x.toNat = 0 := by
  rw [iterate_next, toNat_iterate_halved, dimAt, if_pos zero]

theorem totalCells_zero (zero : level.x.toNat = 0) (lods : Nat) : totalCells lods level = 0 := by
  induction lods generalizing level with
  | zero => rfl
  | succ lods ih =>
    have next : level.next.x.toNat = 0 := toNat_x_iterate_zero zero 1
    simp [totalCells, ih next, cellsOf, zero]

theorem dims_of_depth (flat : depth level = 0) : level.x.toNat ≤ 1 ∧ level.y.toNat ≤ 1 ∧ level.z.toNat ≤ 1 := by
  rw [depth] at flat
  exact ⟨log2_eq_zero_iff.mp (by omega), log2_eq_zero_iff.mp (by omega), log2_eq_zero_iff.mp (by omega)⟩

theorem toNat_countCells_one (small : cellsOf level < 2 ^ 32) : (countCells 1 level 0).toNat = totalCells 1 level := by
  rw [countCells, countCells, UInt64.zero_add, UInt32.toNat_toUInt64, toNat_cells, Nat.mod_eq_of_lt small]
  rfl

theorem toNat_countCells_two (small : totalCells 2 level < 2 ^ 32) : (countCells 2 level 0).toNat = totalCells 2 level := by
  have sum : totalCells 2 level = cellsOf level + cellsOf level.next := rfl
  rw [sum] at small ⊢
  rw [countCells, countCells, countCells, UInt64.zero_add, UInt64.toNat_add,
    UInt32.toNat_toUInt64, UInt32.toNat_toUInt64, toNat_cells, toNat_cells,
    Nat.mod_eq_of_lt (by omega : cellsOf level < 2 ^ 32),
    Nat.mod_eq_of_lt (by omega : cellsOf level.next < 2 ^ 32), Nat.mod_eq_of_lt (by omega)]

end RenderScript.Types
