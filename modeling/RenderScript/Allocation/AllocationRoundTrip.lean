import RenderScript.Allocation.AllocationProperties

/-!
# Which allocations come back

The exact condition on dimensions, levels, faces and element size under which the
data part of an allocation restores all its cells.
-/

namespace RenderScript.Allocations
open AlignedBytes RenderScript.Stream Elements RenderScript.Types

section

variable {t : RsType} {malloc : UInt64 → Nat → UInt8} {length : UInt64} {use64 : Bool}
  {scratch : Nat → UInt8}

/-- The cells are the start of the block: one level whose rows have no padding, or which is one
row; or two levels, of which the second is one cell, behind rows without padding. -/
def Linear (t : RsType) : Prop :=
  t.dimX.toNat = 0 ∨
  (t.mLodCount.toNat = 1 ∧ (16 ∣ t.dimX.toNat * t.mElement.getSizeBytes ∧
        faceTotal t * (rowsOf (firstLevel t) * (t.dimX.toNat * t.mElement.getSizeBytes)) < 2 ^ 32 ∨
      rowsOf (firstLevel t) = 1 ∧ t.faces = false)) ∨
  (t.mLodCount.toNat = 2 ∧ t.faces = false ∧ 16 ∣ t.dimX.toNat * t.mElement.getSizeBytes ∧
    rowsOf (firstLevel t) * (t.dimX.toNat * t.mElement.getSizeBytes) + t.mElement.getSizeBytes <
      2 ^ 32)

theorem stride_firstLod : (firstLod t).stride = rsRound (t.dimX.toNat * t.mElement.getSizeBytes) 16 := rfl

theorem stride_of_dvd (fits : t.dimX.toNat * t.mElement.getSizeBytes < 2 ^ 32)
    (whole : 16 ∣ t.dimX.toNat * t.mElement.getSizeBytes) :
    (firstLod t).stride = t.dimX.toNat * t.mElement.getSizeBytes := by
  obtain ⟨count, product⟩ := whole
  rw [stride_firstLod, rsRound_eq (by omega), product, alignUp]
  omega

theorem bytes_firstLod : (firstLod t).bytes = (firstLod t).stride * rowsOf (firstLevel t) := by
  rw [firstLod, bytes_ofLevel]
  rfl

theorem allocSize_eq (plain : Plain t) : (allocationBuildPointerTable t).allocSize =
      faceTotal t * (allocationBuildPointerTable t).faceOffset := by
  rw [DrvState.allocSize, table_faceCount plain.notYuv plain.one_le_mLodCount, faceTotal]
  split
  · exact mul_comm _ _
  · exact (one_mul _).symm

theorem cells_times (t : RsType) : cellsOf (firstLevel t) * t.mElement.getSizeBytes =
      rowsOf (firstLevel t) * (t.dimX.toNat * t.mElement.getSizeBytes) := by
  rw [cellsOf, firstLevel, mul_assoc, mul_left_comm]

section

variable (room : 16 ≤ length.toNat) (plain : Plain t) (pos : 0 < t.mElement.getSizeBytes)
  (known : t.mElement.getSizeBytesUnpadded = some t.mElement.getSizeBytes)

include room plain pos known

theorem restores_of_empty (empty : t.dimX.toNat = 0) : Restores t malloc length use64 scratch := by
  have none : t.mCellCount.toNat = 0 := by
    have few := plain.mCellCount_le
    rw [totalCells_zero empty, Nat.mul_zero] at few
    omega
  have packed : getPackedSizeBytes t = 0 := by simp [getPackedSizeBytes, none]
  apply restores_of_linear room pos known
  · rw [packed]
    decide
  · rw [packed]
    exact Nat.zero_le _
  · intro c isIn
    have noCell := isIn.x
    rw [plain.mLodDim, toNat_x_iterate_zero empty] at noCell
    omega

theorem restores_of_single (one : t.mLodCount.toNat = 1)
    (small : faceTotal t * (rowsOf (firstLevel t) * (t.dimX.toNat * t.mElement.getSizeBytes)) < 2 ^ 32)
    (longer : t.dimX.toNat * t.mElement.getSizeBytes ≤ (firstLod t).stride)
    (tight : (firstLod t).stride = t.dimX.toNat * t.mElement.getSizeBytes ∨ rowsOf (firstLevel t) = 1 ∧ t.faces = false) :
    Restores t malloc length use64 scratch := by
  have total : totalCells 1 (firstLevel t) = cellsOf (firstLevel t) := rfl
  have faces := @faceTotal_pos t
  have fewBytes : cellsOf (firstLevel t) * t.mElement.getSizeBytes < 2 ^ 32 := by
    rw [cells_times]
    exact (Nat.le_mul_of_pos_left _ faces).trans_lt small
  have few := (Nat.le_mul_of_pos_right _ pos).trans_lt fewBytes
  have packed : getPackedSizeBytes t = faceTotal t * (rowsOf (firstLevel t) * (t.dimX.toNat * t.mElement.getSizeBytes)) := by
    have count := plain.mCellCount_of_small (by rw [one]; exact toNat_countCells_one few) (by rw [one]; exact few)
    rw [getPackedSizeBytes, count, one, total, mul_assoc, cells_times]
  have offset : (allocationBuildPointerTable t).faceOffset = (firstLod t).bytes := by
    rw [table_of_single plain.notYuv one]
  have rows : rowsOf (firstLevel t) * (t.dimX.toNat * t.mElement.getSizeBytes) ≤ (firstLod t).bytes := by
    rw [bytes_firstLod, mul_comm]
    exact Nat.mul_le_mul_right _ longer
  apply restores_of_linear room pos known
  · rw [packed]
    exact small
  · rw [packed, allocSize_eq plain, offset]
    exact Nat.mul_le_mul_left _ rows
  · intro c isIn
    have first : c.lod = 0 := by
      have bound := isIn.lod
      omega
    have ends := plain.offset_level_zero_le isIn first (tight.imp_right And.left)
    have face := isIn.face
    rw [packed]
    rcases tight with stride | ⟨-, noFaces⟩
    · have last : (c.face + 1) * (firstLod t).bytes ≤ faceTotal t * (firstLod t).bytes := Nat.mul_le_mul_right _ face
      have bytes : (firstLod t).bytes = rowsOf (firstLevel t) * (t.dimX.toNat * t.mElement.getSizeBytes) := by
        rw [bytes_firstLod, stride, mul_comm]
      rw [offset] at ends
      rw [Nat.succ_mul] at last
      rw [← bytes] at ends ⊢
      exact ends.trans last
    · have single : faceTotal t = 1 := if_neg (by rw [noFaces]; decide)
      rw [single] at face ⊢
      have only : c.face = 0 := by omega
      rw [only, Nat.zero_mul, zero_add] at ends
      rw [one_mul]
      exact ends

end

theorem Plain.depth_of_two (plain : Plain t) (two : t.mLodCount.toNat = 2) : depth (firstLevel t) = 1 := by
  have count := plain.mLodCount
  split at count <;> omega

theorem Plain.second_level (plain : Plain t) (two : t.mLodCount.toNat = 2) (wide : 1 ≤ t.dimX.toNat) :
    (firstLevel t).next.x.toNat = 1 ∧ (firstLevel t).next.y.toNat ≤ 1 ∧ (firstLevel t).next.z.toNat ≤ 1 := by
  have flat : depth (firstLevel t).next = 0 := by
    rw [depth_next, plain.depth_of_two two]
  obtain ⟨x, y, z⟩ := dims_of_depth flat
  exact ⟨le_antisymm x (toNat_x_next wide), y, z⟩

theorem Plain.totalCells_two (plain : Plain t) (two : t.mLodCount.toNat = 2) (wide : 1 ≤ t.dimX.toNat) :
    totalCells 2 (firstLevel t) = cellsOf (firstLevel t) + 1 := by
  obtain ⟨x, y, z⟩ := plain.second_level two wide
  have one : cellsOf (firstLevel t).next = 1 := by
    rw [cellsOf, rowsOf, x, max_eq_right y, max_eq_right z]
  rw [totalCells, totalCells, totalCells, one]

theorem restores_of_two (room : 16 ≤ length.toNat) (plain : Plain t) (pos : 0 < t.mElement.getSizeBytes)
    (known : t.mElement.getSizeBytesUnpadded = some t.mElement.getSizeBytes)
    (wide : 1 ≤ t.dimX.toNat) (two : t.mLodCount.toNat = 2) (noFaces : t.faces = false)
    (small : rowsOf (firstLevel t) * (t.dimX.toNat * t.mElement.getSizeBytes) + t.mElement.getSizeBytes < 2 ^ 32)
    (stride : (firstLod t).stride = t.dimX.toNat * t.mElement.getSizeBytes) :
    Restores t malloc length use64 scratch := by
  have total := plain.totalCells_two two wide
  have single : faceTotal t = 1 := if_neg (by rw [noFaces]; decide)
  have bytes : (firstLod t).bytes = rowsOf (firstLevel t) * (t.dimX.toNat * t.mElement.getSizeBytes) := by
    rw [bytes_firstLod, stride, mul_comm]
  have times : totalCells 2 (firstLevel t) * t.mElement.getSizeBytes = (firstLod t).bytes + t.mElement.getSizeBytes := by
    rw [total, Nat.succ_mul, cells_times, bytes]
  rw [← bytes] at small
  have few : totalCells 2 (firstLevel t) < 2 ^ 32 := by
    have more := Nat.le_mul_of_pos_right (totalCells 2 (firstLevel t)) pos
    omega
  have packed : getPackedSizeBytes t = (firstLod t).bytes + t.mElement.getSizeBytes := by
    have count := plain.mCellCount_of_small (by rw [two]; exact toNat_countCells_two few) (by rw [two]; exact few)
    rw [getPackedSizeBytes, count, two, single, one_mul, times]
  have oneCell : t.mElement.getSizeBytes ≤ (firstLod t).bytes := by
    rw [bytes]
    exact (Nat.le_mul_of_pos_left _ wide).trans (Nat.le_mul_of_pos_left _ (one_le_rowsOf _))
  apply restores_of_linear room pos known
  · rw [packed]
    exact small
  · rw [packed, allocSize_eq plain, table_faceOffset_two two, single]
    omega
  · intro c isIn
    have face : c.face = 0 := by
      have bound := isIn.face
      omega
    have lods : c.lod = 0 ∨ c.lod = 1 := by
      have bound := isIn.lod
      omega
    rw [packed]
    rcases lods with first | second
    · have ends := plain.offset_level_zero_le isIn first (.inl stride)
      rw [face, ← bytes] at ends
      omega
    · obtain ⟨x, y, z⟩ := plain.second_level two wide
      have level : t.mLodDim c.lod = (firstLevel t).next := by
        rw [second]
        exact plain.mLodDim 1
      have inX := isIn.x
      have inY := isIn.y
      have inZ := isIn.z
      rw [level] at inX inY inZ
      have only : c = origin 1 0 := by
        cases c
        simp only [origin, Cell.mk.injEq] at *
        omega
      rw [only, offset_origin, table_lod_one two.ge, Nat.zero_mul]
      exact le_refl _

structure Fits (t : RsType) (limit : Nat) : Prop where
  plain : Plain t
  positive : 0 < t.mElement.getSizeBytes
  wide : 1 ≤ t.dimX.toNat
  word : limit < 2 ^ 32
  packed : limit ≤ faceTotal t *
    (totalCells t.mLodCount.toNat (firstLevel t) * t.mElement.getSizeBytes)
  row : t.dimX.toNat * t.mElement.getSizeBytes + 15 < 2 ^ 32
  planes : t.dimY.toNat = 0 → t.dimZ.toNat ≤ 1
  cells : ∀ c : Cell, c.In t → c.offset t + t.mElement.getSizeBytes ≤ limit

theorem Restores.fits (restores : Restores t malloc length use64 scratch) (holds : Holds t) (plain : Plain t)
    (known : t.mElement.getSizeBytesUnpadded = some t.mElement.getSizeBytes)
    (positive : 0 < t.mElement.getSizeBytes) (wide : 1 ≤ t.dimX.toNat) :
    Fits t (UInt32.ofNat (getPackedSizeBytes t)).toNat where
  plain := plain
  positive := positive
  wide := wide
  word := UInt32.toNat_lt _
  packed := by
    have count := Nat.mul_le_mul_right t.mElement.getSizeBytes plain.mCellCount_le
    rw [mul_assoc] at count
    rw [UInt32.toNat_ofNat']
    exact (Nat.mod_le _ _).trans count
  row := (holds.firstRow plain).row_fits plain positive wide
  planes := by
    intro flat
    by_contra deep
    have isIn := @Plain.in_level_zero t plain 0 0 1 0 wide (by omega) (by omega) faceTotal_pos
    have place := (holds.firstRow plain).row_le_offset plain positive isIn fun x same => by
      cases congrArg Cell.z same
    have row := mul_pos wide positive
    rw [plain.offset_level_zero (Nat.two_pow_pos 32), flat] at place
    omega
  cells := fun _ isIn => restores.linear known positive isIn

section

variable {limit : Nat}

variable (fits : Fits t limit)

include fits

theorem Fits.stride :
    t.dimX.toNat * t.mElement.getSizeBytes ≤ (firstLod t).stride ∧ 16 ∣ (firstLod t).stride ∧ 16 ≤ (firstLod t).stride := by
  have longer := le_alignUp (by decide : 0 < 16) (t.dimX.toNat * t.mElement.getSizeBytes)
  have whole := dvd_alignUp 16 (t.dimX.toNat * t.mElement.getSizeBytes)
  have row := mul_pos fits.wide fits.positive
  rw [stride_firstLod, rsRound_eq fits.row]
  exact ⟨longer, whole, Nat.le_of_dvd (row.trans_le longer) whole⟩

theorem Fits.rows_le_bytes : rowsOf (firstLevel t) * (t.dimX.toNat * t.mElement.getSizeBytes) ≤ (firstLod t).bytes := by
  rw [bytes_firstLod, mul_comm]
  exact Nat.mul_le_mul_right _ fits.stride.1

theorem Fits.dvd_of_stride (tight : (firstLod t).stride ≤ t.dimX.toNat * t.mElement.getSizeBytes) :
    16 ∣ t.dimX.toNat * t.mElement.getSizeBytes := by
  rw [← le_antisymm tight fits.stride.1]
  exact fits.stride.2.1

omit fits in
theorem faceTotal_cases (t : RsType) : t.faces = true ∧ faceTotal t = 6 ∨ t.faces = false ∧ faceTotal t = 1 := by
  cases faces : t.faces with
  | true => exact .inl ⟨rfl, if_pos faces⟩
  | false => exact .inr ⟨rfl, if_neg (by rw [faces]; decide)⟩

theorem Fits.levels : t.mLodCount.toNat ≤ 2 := by
  by_contra three
  have count := fits.plain.mLodCount
  have levels : t.mLodCount.toNat ≤ depth (firstLevel t) + 1 := by
    split at count <;> omega
  have few := Nat.mul_le_mul_right t.mElement.getSizeBytes (totalCells_lt fits.wide levels)
  have rows := fits.rows_le_bytes
  have offset := @table_faceOffset t (by omega)
  have start := @table_lod_two t (by omega)
  have packed := fits.packed
  have size := fits.positive
  rw [Nat.succ_mul, Nat.mul_assoc, cells_times] at few
  rcases faceTotal_cases t with ⟨-, six⟩ | ⟨-, one⟩
  · have last := fits.cells _ (fits.plain.in_origin fits.wide (by omega : 2 < t.mLodCount.toNat) (by omega : 5 < faceTotal t))
    rw [offset_origin, start] at last
    rw [six] at packed
    omega
  · have last := fits.cells _ (fits.plain.in_origin fits.wide (by omega : 2 < t.mLodCount.toNat) (by omega : 0 < faceTotal t))
    rw [offset_origin, start] at last
    rw [one] at packed
    omega

theorem Fits.two_levels (two : t.mLodCount.toNat = 2) : t.faces = false ∧ 16 ∣ t.dimX.toNat * t.mElement.getSizeBytes ∧
      rowsOf (firstLevel t) * (t.dimX.toNat * t.mElement.getSizeBytes) + t.mElement.getSizeBytes < 2 ^ 32 := by
  have rows := fits.rows_le_bytes
  have offset := table_faceOffset_two two
  have start : ((allocationBuildPointerTable t).lod 1).mallocPtr = (firstLod t).bytes := by
    rw [table_lod_one two.ge]
    rfl
  have packed := fits.packed
  have size := fits.positive
  have word := fits.word
  rw [two, fits.plain.totalCells_two two fits.wide, Nat.succ_mul, cells_times] at packed
  rcases faceTotal_cases t with ⟨-, six⟩ | ⟨noFaces, one⟩
  · -- face 5 starts behind ten times the first level, which has at least two cells
    have last := fits.cells _ (fits.plain.in_origin fits.wide (by omega : 1 < t.mLodCount.toNat) (by omega : 5 < faceTotal t))
    have half := cellsOf_next fits.wide (fits.plain.depth_of_two two).ge
    have more := one_le_cellsOf (@toNat_x_next (firstLevel t) fits.wide)
    have twice := Nat.mul_le_mul_right t.mElement.getSizeBytes (by omega : 2 ≤ cellsOf (firstLevel t))
    rw [cells_times] at twice
    rw [offset_origin, start, offset] at last
    rw [six] at packed
    omega
  · have last := fits.cells _ (fits.plain.in_origin fits.wide (by omega : 1 < t.mLodCount.toNat) (by omega : 0 < faceTotal t))
    rw [offset_origin, start, Nat.zero_mul] at last
    rw [one] at packed
    refine ⟨noFaces, fits.dvd_of_stride ?_, by omega⟩
    apply le_of_mul_le_mul_right _ (one_le_rowsOf (firstLevel t))
    rw [← bytes_firstLod, mul_comm (t.dimX.toNat * _)]
    omega

/-- The row number of a plane does not wrap around: a row shortly before would be behind
the dump. -/
theorem Fits.plane_lt : (max t.dimZ.toNat 1 - 1) * t.dimY.toNat < 2 ^ 32 := by
  by_contra wraps
  have high : 0 < t.dimY.toNat := by
    by_contra flat
    rw [Nat.le_zero.mp (not_lt.mp flat), Nat.mul_zero] at wraps
    omega
  have lt : (2 ^ 32 - 1) / t.dimY.toNat < max t.dimZ.toNat 1 := by
    have planes := @Nat.div_lt_iff_lt_mul _ (2 ^ 32 - 1) (max t.dimZ.toNat 1 - 1) high
    omega
  have divided := Nat.div_add_mod' (2 ^ 32 - 1) t.dimY.toNat
  have rest := Nat.mod_lt (2 ^ 32 - 1) high
  have word := t.dimY.toNat_lt
  have ends := fits.cells _ (@Plain.in_level_zero t fits.plain 0 (t.dimY.toNat - 1)
    ((2 ^ 32 - 1) / t.dimY.toNat) 0 fits.wide (by omega) lt faceTotal_pos)
  have product : (2 ^ 32 - 1) / t.dimY.toNat * t.dimY.toNat < 2 ^ 32 := (Nat.div_mul_le_self _ _).trans_lt (by decide)
  rw [fits.plain.offset_level_zero (by omega), Nat.mod_eq_of_lt product] at ends
  have rows : (2 ^ 32 - 1) * 16 ≤ ((2 ^ 32 - 1) / t.dimY.toNat * t.dimY.toNat + (t.dimY.toNat - 1)) * (firstLod t).stride :=
    Nat.mul_le_mul (by omega) fits.stride.2.2
  have limited := fits.word
  omega

theorem Fits.last_cell {face : Nat} (inFace : face < faceTotal t) :
    face * (allocationBuildPointerTable t).faceOffset + (rowsOf (firstLevel t) - 1) * (firstLod t).stride +
      t.dimX.toNat * t.mElement.getSizeBytes ≤ limit := by
  have plane := fits.plane_lt
  have ends := fits.cells _ (@Plain.in_level_zero t fits.plain _
    (max t.dimY.toNat 1 - 1) (max t.dimZ.toNat 1 - 1) face (Nat.sub_lt fits.wide one_pos)
    (by omega) (by omega) inFace)
  have word := t.dimY.toNat_lt
  have row : (t.dimX.toNat - 1) * t.mElement.getSizeBytes + t.mElement.getSizeBytes =
      t.dimX.toNat * t.mElement.getSizeBytes := by
    simp [← Nat.succ_mul, Nat.sub_add_cancel fits.wide]
  have short := fits.row
  have rows : (max t.dimZ.toNat 1 - 1) * t.dimY.toNat + (max t.dimY.toNat 1 - 1) = rowsOf (firstLevel t) - 1 := by
    change _ = max t.dimY.toNat 1 * max t.dimZ.toNat 1 - 1
    rcases eq_zero_or_pos t.dimY.toNat with flat | high
    · rw [flat, max_eq_right (fits.planes flat)]
      rfl
    · rw [Nat.max_eq_left high, Nat.sub_mul, one_mul, mul_comm]
      have planes := Nat.le_mul_of_pos_right t.dimY.toNat (le_max_right t.dimZ.toNat 1)
      omega
  rw [fits.plain.offset_level_zero (by omega), Nat.mod_eq_of_lt plane, rows, Nat.mod_eq_of_lt (by omega)] at ends
  omega

theorem Fits.one_level (one : t.mLodCount.toNat = 1) : 16 ∣ t.dimX.toNat * t.mElement.getSizeBytes ∧
        faceTotal t * (rowsOf (firstLevel t) * (t.dimX.toNat * t.mElement.getSizeBytes)) < 2 ^ 32 ∨
      rowsOf (firstLevel t) = 1 ∧ t.faces = false := by
  have offset : (allocationBuildPointerTable t).faceOffset = (firstLod t).bytes := by
    rw [table_of_single fits.plain.notYuv one]
  have total : totalCells 1 (firstLevel t) = cellsOf (firstLevel t) := rfl
  have packed := fits.packed
  have word := fits.word
  have tight := fits.dvd_of_stride
  have longer := fits.stride.1
  have last := Fits.last_cell fits (Nat.sub_lt faceTotal_pos one_pos)
  obtain ⟨rest, count⟩ : ∃ rest, rowsOf (firstLevel t) = rest + 1 :=
    ⟨_, (Nat.sub_add_cancel (one_le_rowsOf (firstLevel t))).symm⟩
  rw [one, total, cells_times, count, Nat.succ_mul] at packed
  rw [offset, bytes_firstLod, count, mul_comm, Nat.add_sub_cancel, Nat.mul_succ] at last
  rw [count, Nat.succ_mul]
  generalize t.dimX.toNat * t.mElement.getSizeBytes = width at *
  generalize (firstLod t).stride = stride at *
  have padded := Nat.mul_le_mul_left rest longer
  rw [mul_comm stride] at last
  rcases faceTotal_cases t with ⟨-, six⟩ | ⟨noFaces, single⟩
  · rw [six] at packed last ⊢
    exact .inl ⟨tight (by omega), by omega⟩
  · rw [single] at packed last ⊢
    rcases eq_zero_or_pos rest with rfl | several
    · exact .inr ⟨rfl, noFaces⟩
    · exact .inl ⟨tight (le_of_mul_le_mul_left (by omega) several), by omega⟩

end

/-- An element of which `mBitsUnpadded` was never set cannot be written. -/
theorem Restores.known (restores : Restores t malloc length use64 scratch) : t.mElement.getSizeBytesUnpadded.isSome := by
  obtain ⟨values, -, -, -, written, -⟩ := restores (fun _ => 0) fun _ => 0
  cases size : t.mElement.getSizeBytesUnpadded with
  | none =>
    rw [serializeData, getPackedSize, size] at written
    cases written
  | some unpadded => rfl

/-- All cells of an allocation come back exactly when its element has a size and the cells
have no gaps between them in the block. -/
theorem loadData_serializeData (plain : Plain t) (holds : Holds t) (room : 16 ≤ length.toNat)
    (noPacking : ∀ unpadded, t.mElement.getSizeBytesUnpadded = some unpadded → unpadded = t.mElement.getSizeBytes) :
    Restores t malloc length use64 scratch ↔ t.mElement.getSizeBytesUnpadded.isSome ∧ 0 < t.mElement.getSizeBytes ∧ Linear t := by
  have size : t.mElement.getSizeBytesUnpadded.isSome → t.mElement.getSizeBytesUnpadded = some t.mElement.getSizeBytes := by
    intro isSome
    obtain ⟨unpadded, found⟩ := Option.isSome_iff_exists.mp isSome
    rw [found, noPacking unpadded found]
  constructor
  · intro restores
    have known := size restores.known
    have positive := restores.positive room known
    refine ⟨restores.known, positive, ?_⟩
    rcases eq_zero_or_pos t.dimX.toNat with empty | wide
    · exact .inl empty
    have fits := restores.fits holds plain known positive wide
    have levels := fits.levels
    rcases plain.one_le_mLodCount.eq_or_lt with one | several
    · exact .inr (.inl ⟨one.symm, fits.one_level one.symm⟩)
    · have two : t.mLodCount.toNat = 2 := by omega
      exact .inr (.inr ⟨two, fits.two_levels two⟩)
  · rintro ⟨isSome, positive, linear⟩
    have known := size isSome
    rcases eq_zero_or_pos t.dimX.toNat with empty | wide
    · exact restores_of_empty room plain positive known empty
    have short := (holds.firstRow plain).row_fits plain positive wide
    rcases linear with empty | ⟨one, ⟨whole, small⟩ | ⟨single, noFaces⟩⟩ | ⟨two, noFaces, whole, small⟩
    · omega
    · have stride := stride_of_dvd (by omega) whole
      exact restores_of_single room plain positive known one small stride.ge (.inl stride)
    · have faces : faceTotal t = 1 := if_neg (by rw [noFaces]; decide)
      apply restores_of_single room plain positive known one _ _ (.inr ⟨single, noFaces⟩)
      · rw [faces, single]
        omega
      · rw [stride_firstLod, rsRound_eq short]
        exact le_alignUp (by decide) _
    · exact restores_of_two room plain positive known wide two noFaces small (stride_of_dvd (by omega) whole)

end

private def stale (_ : UInt64) (_ : Nat) : UInt8 := 0xcd

private def byte : Element := (createRef .unsigned8 .user false 1 {}).1

private def byteType (dimX dimY : UInt32) : RsType :=
  .create 0 byte
    { dimX := dimX, dimY := dimY, dimZ := 0, mDimLOD := false, faces := false, dimYuv := 0 }

private theorem byteType_plain (dimX dimY : UInt32) : Plain (byteType dimX dimY) := ⟨rfl, rfl⟩

private theorem byteType_size (dimX dimY : UInt32) : (byteType dimX dimY).mElement.getSizeBytes = 1 := by
  change byte.getSizeBytes = 1
  rfl

private theorem byteType_row (dimX dimY : UInt32) :
    (byteType dimX dimY).dimX.toNat * (byteType dimX dimY).mElement.getSizeBytes = dimX.toNat := by
  rw [byteType_size, mul_one]
  rfl

private theorem byteType_offset {dimX dimY : UInt32} (narrow : dimX.toNat ≤ 16) {c : Cell} (isIn : c.In (byteType dimX dimY)) :
    c.offset (byteType dimX dimY) = 16 * c.y + c.x ∧ c.x < dimX.toNat ∧ c.y < max dimY.toNat 1 ∧
      c.z = 0 ∧ c.lod = 0 ∧ c.face = 0 := by
  obtain ⟨x, y, z, lod, face⟩ := c
  have only : lod = 0 := Nat.lt_one_iff.mp isIn.lod
  have flat : z = 0 := by
    have bound := isIn.z
    rw [only] at bound
    exact Nat.lt_one_iff.mp bound
  have inX : x < dimX.toNat := by
    have bound := isIn.x
    rwa [only] at bound
  have inY : y < max dimY.toNat 1 := by
    have bound := isIn.y
    rwa [only] at bound
  have single : face = 0 := Nat.lt_one_iff.mp isIn.face
  have stride : (firstLod (byteType dimX dimY)).stride = 16 := by
    rw [stride_firstLod, byteType_row, rsRound_eq (by omega), alignUp]
    omega
  subst only flat single
  rw [(byteType_plain dimX dimY).offset_level_zero isIn.low, stride, byteType_size]
  refine ⟨?_, inX, inY, rfl, rfl, rfl⟩
  dsimp only
  omega

private theorem byteType_holds {dimX dimY : UInt32} (narrow : dimX.toNat ≤ 16) : Holds (byteType dimX dimY) where
  levels := by
    change 1 ≤ _
    decide
  inside := by
    intro c isIn
    obtain ⟨place, inX, inY, -⟩ := byteType_offset narrow isIn
    have rows : rowsOf (firstLevel (byteType dimX dimY)) = max dimY.toNat 1 := mul_one _
    have single : (byteType dimX dimY).mLodCount.toNat = 1 := rfl
    have faces : faceTotal (byteType dimX dimY) = 1 := rfl
    rw [allocSize_eq (byteType_plain dimX dimY), faces, table_of_single rfl single, bytes_firstLod,
      stride_firstLod, byteType_row, rows, rsRound_eq (by omega), alignUp, place, byteType_size]
    rw [(by omega : (dimX.toNat + (16 - 1)) / 16 * 16 = 16)]
    dsimp only
    omega
  apart := by
    intro c other isIn otherIn ne
    obtain ⟨place, inX, -, z, lod, face⟩ := byteType_offset narrow isIn
    obtain ⟨otherPlace, otherX, -, otherZ, otherLod, otherFace⟩ := byteType_offset narrow otherIn
    rw [place, otherPlace, byteType_size]
    by_contra close
    apply ne
    obtain ⟨x, y, _, _, _⟩ := c
    obtain ⟨x', y', _, _, _⟩ := other
    dsimp only at *
    have sameY : y = y' := by omega
    have sameX : x = x' := by omega
    rw [sameX, sameY, z, lod, face, otherZ, otherLod, otherFace]

/-- A row of 16 bytes comes back. -/
theorem loadData_serializeData_row : Holds (byteType 16 0) ∧ Restores (byteType 16 0) stale 64 false fun _ => 0 := by
  have holds : Holds (byteType 16 0) := byteType_holds (by decide)
  refine ⟨holds, (loadData_serializeData (byteType_plain 16 0) holds (by decide) ?_).mpr ?_⟩
  · intro unpadded found
    cases found
    rfl
  · exact ⟨rfl, one_pos, .inr (.inl ⟨rfl, .inr ⟨rfl, rfl⟩⟩)⟩

/-- Of two rows of one byte the second is behind the dump of two bytes, and comes back as
whatever the new block held. -/
theorem loadData_serializeData_second_row : Plain (byteType 1 2) ∧ Holds (byteType 1 2) ∧
    (byteType 1 2).mElement.getSizeBytesUnpadded = some (byteType 1 2).mElement.getSizeBytes ∧
    ∃ (second : Cell) (contents : Nat → UInt8) (values : List Value) (after : OStream)
      (result : Nat → UInt8) (position : IStream),
      second.In (byteType 1 2) ∧
      serializeData (byteType 1 2) (fun _ => 0) contents = some values ∧
      (OStream.create stale 64 false).addAll stale values = some after ∧
      (loadData (byteType 1 2) fun _ => 0).run { mData := after.bytes, mUse64 := false } = some (some result, position) ∧
      result (second.offset (byteType 1 2)) ≠ contents (second.offset (byteType 1 2)) := by
  refine ⟨byteType_plain 1 2, byteType_holds (by decide), rfl,
    { x := 0, y := 1, z := 0, lod := 0, face := 0 }, fun _ => 7, ?_⟩
  have isIn := @Plain.in_level_zero _ (byteType_plain 1 2) 0 1 0 0 (by decide) (by decide) (by decide) (by decide)
  have written : serializeData (byteType 1 2) (fun _ => 0) (fun _ => 7) = some [.u32 2, .byteArray [7, 7]] := by decide +kernel
  have dumped : ((OStream.create stale 64 false).addAll stale
      [.u32 2, .byteArray [7, 7]]).map OStream.bytes = some [2, 0, 0, 0, 7, 7] := by decide +kernel
  obtain ⟨after, added, bytes⟩ := Option.map_eq_some_iff.mp dumped
  refine ⟨[.u32 2, .byteArray [7, 7]], after, ?_⟩
  rw [bytes]
  exact ⟨_, _, isIn, written, added, rfl, by decide +kernel⟩

end RenderScript.Allocations
