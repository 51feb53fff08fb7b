import RenderScript.Types.Levels

/-!
# Computing a type again

`Type::compute` on an object that may have been computed before.
-/

namespace RenderScript.Types

/-- The level arrays are one function, of which the first `length` entries are allocated. -/
structure LevelArrays where
  lodCount : UInt32 := 0
  length : Nat := 0
  lodDim : Nat → Level := fun _ => ⟨0, 0, 0⟩
  mCellCount : UInt64 := 0

/-- The indexes to which `compute` stores, the planes behind the levels. -/
def TypeKey.stores (key : TypeKey) : List Nat :=
  List.range key.lodCount.toNat ++ if key.dimYuv = 0 then [] else
    [1, 1, 2, 2] ++ if key.dimYuv = HAL_PIXEL_FORMAT_YCrCb_420_SP then [1] else []

namespace LevelArrays

def compute (s : LevelArrays) (key : TypeKey) : LevelArrays where
  lodCount := key.lodCount
  length := if key.lodCount ≠ s.lodCount then key.lodCount.toNat else s.length
  lodDim lod := if lod ∈ key.stores then key.lodDim lod else s.lodDim lod
  mCellCount := key.cellCount

def Inside : LevelArrays → List TypeKey → Prop
  | _, [] => True
  | s, key :: rest => (∀ lod ∈ key.stores, lod < (s.compute key).length) ∧ (s.compute key).Inside rest

theorem stores_lt_iff (key : TypeKey) : (∀ lod ∈ key.stores, lod < key.lodCount.toNat) ↔ key.dimYuv = 0 ∨ 3 ≤ key.lodCount.toNat := by
  by_cases plain : key.dimYuv = 0
  · simp [TypeKey.stores, plain]
  · simp only [TypeKey.stores, plain, List.forall_mem_append, List.mem_range, if_false, false_or]
    split <;> simp <;> omega

/-- Whatever was computed before, the arrays have an entry for each level and none for the planes. -/
theorem stores_inside_iff (keys : List TypeKey) :
    Inside {} keys ↔ ∀ key ∈ keys, key.dimYuv = 0 ∨ 3 ≤ key.lodCount.toNat := by
  suffices all : ∀ s : LevelArrays, s.length = s.lodCount.toNat →
      (s.Inside keys ↔ ∀ key ∈ keys, key.dimYuv = 0 ∨ 3 ≤ key.lodCount.toNat) from all {} rfl
  induction keys with
  | nil => simp [Inside]
  | cons key rest ih =>
    intro s sound
    have next : (s.compute key).length = key.lodCount.toNat := by
      by_cases eq : key.lodCount = s.lodCount
      · simp [compute, eq, sound]
      · simp [compute, eq]
    rw [Inside, next, stores_lt_iff, ih _ next, List.forall_mem_cons]

/-- A picture without levels. -/
theorem stores_outside : ¬ Inside {} [⟨4, 4, 0, false, false, 0x11⟩] := by
  intro inside
  exact absurd (inside.1 2 (by decide)) (by decide)

end LevelArrays

theorem countCells_mod (lods : Nat) (level : Level) (cells : UInt64) : (countCells lods level cells).toNat % 2 ^ 32 =
    (cells.toNat + ∑ lod ∈ Finset.range lods, cellsOf (Level.next^[lod] level)) % 2 ^ 32 := by
  induction lods generalizing level cells with
  | zero => rfl
  | succ lods ih =>
    rw [countCells, ih, UInt64.toNat_add, UInt32.toNat_toUInt64, toNat_cells, Finset.sum_range_succ']
    simp only [Function.iterate_succ_apply, Function.iterate_zero_apply]
    omega

theorem dimAt_log2 {dim largest : Nat} (le : dim ≤ largest) : dimAt dim largest.log2 ≤ 1 := by
  have small : dim >>> largest.log2 < 2 := by
    rw [Nat.shiftRight_eq_div_pow]
    exact Nat.div_lt_of_lt_mul (le.trans_lt Nat.lt_log2_self)
  rw [dimAt]
  split <;> omega

/-- The number of levels with `mDimLOD` is such that the last one is a single cell. -/
theorem compute_levels (s : LevelArrays) {key : TypeKey} (plain : key.dimYuv = 0) : let after := s.compute key
    let largest := max (max key.dimX.toNat key.dimY.toNat) key.dimZ.toNat
    after.lodCount.toNat = (if key.mDimLOD then largest.log2 + 1 else 1) ∧
    (∀ lod < after.lodCount.toNat, (after.lodDim lod).x.toNat = dimAt key.dimX.toNat lod ∧
      (after.lodDim lod).y.toNat = dimAt key.dimY.toNat lod ∧ (after.lodDim lod).z.toNat = dimAt key.dimZ.toNat lod) ∧
    (key.mDimLOD → ∀ last, last + 1 = after.lodCount.toNat →
      (after.lodDim last).x.toNat ≤ 1 ∧ (after.lodDim last).y.toNat ≤ 1 ∧ (after.lodDim last).z.toNat ≤ 1) ∧
    after.mCellCount.toNat % 2 ^ 32 = (if key.faces then 6 else 1) *
      (∑ lod ∈ Finset.range after.lodCount.toNat, cellsOf (after.lodDim lod)) % 2 ^ 32 ∧
    after.compute key = after := by
  intro after largest
  have levels : ∀ lod < key.lodCount.toNat, after.lodDim lod = Level.next^[lod] ⟨key.dimX, key.dimY, key.dimZ⟩ := by
    intro lod lt
    simp [after, LevelArrays.compute, TypeKey.stores, TypeKey.lodDim, plain, lt]
  have count := key.toNat_lodCount
  simp only [Nat.log2_eq_log_two, ← (Nat.log_monotone (b := 2)).map_max] at count
  rw [← Nat.log2_eq_log_two] at count
  refine ⟨count, fun lod lt => ?_, fun lods last isLast => ?_, ?_, ?_⟩
  · rw [levels lod lt, iterate_next]
    exact ⟨toNat_iterate_halved .., toNat_iterate_halved .., toNat_iterate_halved ..⟩
  · have single : last = largest.log2 := Nat.succ.inj (isLast.trans (count.trans (if_pos lods)))
    rw [levels last isLast.le, iterate_next]
    simp only [toNat_iterate_halved, single]
    exact ⟨dimAt_log2 (by omega), dimAt_log2 (by omega), dimAt_log2 (by omega)⟩
  · have cells := countCells_mod key.lodCount.toNat ⟨key.dimX, key.dimY, key.dimZ⟩ 0
    change key.cellCount.toNat % 2 ^ 32 = _ * (∑ lod ∈ Finset.range key.lodCount.toNat, _) % _
    rw [Finset.sum_congr rfl fun lod mem => congrArg cellsOf (levels lod (Finset.mem_range.mp mem))]
    rw [UInt64.toNat_zero, Nat.zero_add] at cells
    rw [TypeKey.cellCount, if_neg (not_not.mpr plain), Nat.mul_mod, ← cells]
    split
    · rw [UInt64.toNat_mul]
      change _ * 6 % _ % _ = _
      omega
    · simp
  · simp only [after, LevelArrays.compute, ne_eq, not_true_eq_false, if_false, LevelArrays.mk.injEq, true_and, and_true]
    exact funext fun lod => by split <;> rfl

theorem compute_levels_cube : ((LevelArrays.compute {} ⟨4, 2, 0, true, true, 0⟩).compute ⟨4, 2, 0, true, true, 0⟩).lodCount = 3 := by
  rw [(compute_levels {} rfl).2.2.2.2]
  rfl

/-- Without levels of detail the only level keeps its dimensions. -/
theorem compute_levels_single : ((LevelArrays.compute {} ⟨4, 0, 0, false, false, 0⟩).lodDim 0).x = 4 := by rfl

end RenderScript.Types
