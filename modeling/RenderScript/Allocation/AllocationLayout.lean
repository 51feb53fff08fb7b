import RenderScript.Allocation.Allocation
import RenderScript.Types.RsTypeProperties

/-!
# Layout of allocations

Where the cells of an allocation are in its block, and how many cells the levels
have together.
-/

namespace RenderScript.Allocations
open AlignedBytes Elements RenderScript.Types

variable {count x face : Nat}

theorem rsRound_sixteen (v : Nat) : rsRound v 16 = (v + 15) % 2 ^ 32 / 16 * 16 := by
  have masked : (v + 15) &&& (2 ^ 32 - 2 ^ 4) = (v + 15) % 2 ^ 32 / 2 ^ 4 * 2 ^ 4 := and_mask (by decide) _
  exact masked

theorem rsRound_eq {v : Nat} (fits : v + 15 < 2 ^ 32) : rsRound v 16 = alignUp 16 v := by
  rw [rsRound_sixteen, Nat.mod_eq_of_lt fits, alignUp]

theorem rsRound_lt {v : Nat} (overflows : 2 ^ 32 ≤ v + 15) : rsRound v 16 < v := by
  rw [rsRound_sixteen]
  omega

section

variable {eSize : Nat} {lod : Nat} {level : Level} {o : Nat} {lods : Nat → LodState}

theorem buildLods_below {index : Nat} (lt : index < lod) : (buildLods eSize count lod level o lods).1 index = lods index := by
  induction count generalizing lod level o lods with
  | zero => rfl
  | succ count ih =>
    rw [buildLods, ih (Nat.lt_succ_of_lt lt)]
    exact Function.update_of_ne lt.ne _ _

theorem le_buildLods : o ≤ (buildLods eSize count lod level o lods).2 := by
  induction count generalizing lod level o lods with
  | zero => exact le_refl _
  | succ count ih => exact (Nat.le_add_right _ _).trans ih

theorem buildLods_first : (buildLods eSize (count + 1) lod level o lods).1 lod = LodState.ofLevel eSize level o := by
  rw [buildLods, buildLods_below (Nat.lt_succ_self lod)]
  exact Function.update_self _ _ _

end

def firstLevel (t : RsType) : Level := { x := t.dimX, y := t.dimY, z := t.dimZ }

def firstLod (t : RsType) : LodState := .ofLevel t.mElement.getSizeBytes (firstLevel t) 0

theorem bytes_ofLevel (eSize : Nat) (level : Level) (mallocPtr : Nat) :
    (LodState.ofLevel eSize level mallocPtr).bytes = rsRound (level.x.toNat * eSize) 16 * rowsOf level := by
  rw [LodState.bytes, LodState.ofLevel, toNat_max, toNat_max, UInt32.toNat_one, mul_assoc]
  rfl

section

variable {t : RsType}

def startLods (t : RsType) : Nat → LodState := Function.update (fun _ => {}) 0 (firstLod t)

theorem startLods_zero : startLods t 0 = firstLod t := by
  simp [startLods]

theorem table_of_single (notYuv : t.dimYuv = 0) (one : t.mLodCount.toNat = 1) : allocationBuildPointerTable t =
      { lod := startLods t, lodCount := t.mLodCount, faceOffset := (firstLod t).bytes,
        faceCount := t.faces } := by
  have single : ¬ t.mLodCount > 1 := by
    rw [gt_iff_lt, UInt32.lt_iff_toNat_lt, one]
    exact lt_irrefl _
  unfold allocationBuildPointerTable
  rw [if_neg single, if_neg (not_not.mpr notYuv)]
  rfl

theorem table_of_several (several : 2 ≤ t.mLodCount.toNat) : allocationBuildPointerTable t =
      { lod := (buildLods t.mElement.getSizeBytes (t.mLodCount.toNat - 1) 1 (firstLevel t) (firstLod t).bytes (startLods t)).1
        lodCount := t.mLodCount
        faceOffset := (buildLods t.mElement.getSizeBytes (t.mLodCount.toNat - 1) 1 (firstLevel t)
          (firstLod t).bytes (startLods t)).2
        faceCount := t.faces } := by
  have more : t.mLodCount > 1 := UInt32.lt_iff_toNat_lt.mpr several
  unfold allocationBuildPointerTable
  rw [if_pos more]
  rfl

theorem table_faceCount (notYuv : t.dimYuv = 0) (levels : 1 ≤ t.mLodCount.toNat) :
    (allocationBuildPointerTable t).faceCount = t.faces := by
  rcases levels.eq_or_lt with one | several
  · rw [table_of_single notYuv one.symm]
  · rw [table_of_several several]

theorem table_lod_zero (notYuv : t.dimYuv = 0) (levels : 1 ≤ t.mLodCount.toNat) :
    (allocationBuildPointerTable t).lod 0 = firstLod t := by
  rcases levels.eq_or_lt with one | several
  · rw [table_of_single notYuv one.symm]
    exact startLods_zero
  · rw [table_of_several several]
    exact (buildLods_below zero_lt_one).trans startLods_zero

def secondLod (t : RsType) : LodState :=
  .ofLevel t.mElement.getSizeBytes (firstLevel t) (firstLod t).bytes

theorem bytes_secondLod : (secondLod t).bytes = (firstLod t).bytes := by
  rw [secondLod, firstLod, bytes_ofLevel, bytes_ofLevel]

theorem table_lod_one (several : 2 ≤ t.mLodCount.toNat) : (allocationBuildPointerTable t).lod 1 = secondLod t := by
  obtain ⟨count, levels⟩ : ∃ count, t.mLodCount.toNat - 1 = count + 1 := ⟨t.mLodCount.toNat - 2, by omega⟩
  rw [table_of_several several, levels]
  exact buildLods_first

theorem table_faceOffset (several : 2 ≤ t.mLodCount.toNat) :
    2 * (firstLod t).bytes ≤ (allocationBuildPointerTable t).faceOffset := by
  obtain ⟨count, levels⟩ : ∃ count, t.mLodCount.toNat - 1 = count + 1 := ⟨t.mLodCount.toNat - 2, by omega⟩
  rw [table_of_several several, levels, two_mul]
  calc (firstLod t).bytes + (firstLod t).bytes
      = (firstLod t).bytes + (secondLod t).bytes := by rw [bytes_secondLod]
    _ ≤ _ := le_buildLods

theorem table_faceOffset_two (two : t.mLodCount.toNat = 2) :
    (allocationBuildPointerTable t).faceOffset = 2 * (firstLod t).bytes := by
  rw [table_of_several two.ge, two, two_mul]
  calc _ = (firstLod t).bytes + (secondLod t).bytes := rfl
    _ = (firstLod t).bytes + (firstLod t).bytes := by rw [bytes_secondLod]

theorem table_lod_two (three : 3 ≤ t.mLodCount.toNat) :
    ((allocationBuildPointerTable t).lod 2).mallocPtr = 2 * (firstLod t).bytes := by
  obtain ⟨count, levels⟩ : ∃ count, t.mLodCount.toNat - 1 = count + 2 := ⟨t.mLodCount.toNat - 3, by omega⟩
  rw [table_of_several (by omega), levels, two_mul]
  calc _ = (firstLod t).bytes + (secondLod t).bytes := congrArg LodState.mallocPtr buildLods_first
    _ = (firstLod t).bytes + (firstLod t).bytes := by rw [bytes_secondLod]

end

structure Cell where
  x : Nat
  y : Nat
  z : Nat
  lod : Nat
  face : Nat

variable {c : Cell}

def faceTotal (t : RsType) : Nat := if t.faces then 6 else 1

structure Cell.In (t : RsType) (c : Cell) : Prop where
  lod : c.lod < t.mLodCount.toNat
  face : c.face < faceTotal t
  x : c.x < (t.mLodDim c.lod).x.toNat
  y : c.y < max (t.mLodDim c.lod).y.toNat 1
  z : c.z < max (t.mLodDim c.lod).z.toNat 1

def Cell.offset (t : RsType) (c : Cell) : Nat :=
  getOffsetPtr (allocationBuildPointerTable t) (.ofNat t.mElement.getSizeBytes) (.ofNat c.x)
    (.ofNat c.y) (.ofNat c.z) c.lod c.face

/-- The block holds every contents: each cell has its own bytes inside the block, and each
level an entry in the table. -/
structure Holds (t : RsType) : Prop where
  levels : t.mLodCount.toNat ≤ MAX_LOD
  inside : ∀ c : Cell, c.In t →
    c.offset t + t.mElement.getSizeBytes ≤ (allocationBuildPointerTable t).allocSize
  apart : ∀ c other : Cell, c.In t → other.In t → c ≠ other →
    c.offset t + t.mElement.getSizeBytes ≤ other.offset t ∨
      other.offset t + t.mElement.getSizeBytes ≤ c.offset t

/-- As `getTypeRef` makes it, and not a YUV type. -/
structure Plain (t : RsType) : Prop where
  computed : t = RsType.create t.address t.mElement t.toTypeKey
  notYuv : t.dimYuv = 0

section

variable {t : RsType}

theorem Plain.mLodDim (plain : Plain t) (lod : Nat) : t.mLodDim lod = Level.next^[lod] (firstLevel t) := by
  rw [plain.computed]
  simp [RsType.create, TypeKey.lodDim, plain.notYuv, firstLevel]

theorem Plain.mLodCount (plain : Plain t) : t.mLodCount.toNat = if t.mDimLOD then depth (firstLevel t) + 1 else 1 := by
  have computed := congrArg RsType.mLodCount plain.computed
  rw [computed]
  exact TypeKey.toNat_lodCount t.toTypeKey

theorem Plain.one_le_mLodCount (plain : Plain t) : 1 ≤ t.mLodCount.toNat := by
  rw [plain.mLodCount]
  split <;> omega

theorem Cell.offset_eq {c : Cell} (low : c.y < 2 ^ 32) : c.offset t = ((allocationBuildPointerTable t).lod c.lod).mallocPtr +
      c.face * (allocationBuildPointerTable t).faceOffset +
      c.z * ((allocationBuildPointerTable t).lod c.lod).dimY.toNat % 2 ^ 32 * ((allocationBuildPointerTable t).lod c.lod).stride +
      c.y * ((allocationBuildPointerTable t).lod c.lod).stride +
      c.x * t.mElement.getSizeBytes % 2 ^ 32 := by
  have product (a : Nat) (b : UInt32) : (UInt32.ofNat a * b).toNat = a * b.toNat % 2 ^ 32 := by
    simp
  rw [Cell.offset, getOffsetPtr, product, product, UInt32.toNat_ofNat', UInt32.toNat_ofNat',
    Nat.mod_eq_of_lt low, Nat.mul_mod_mod]

theorem Cell.In.low (isIn : c.In t) : c.y < 2 ^ 32 := by
  have bound := isIn.y
  have word := (t.mLodDim c.lod).y.toNat_lt
  omega

theorem faceTotal_pos : 0 < faceTotal t := by
  rw [faceTotal]
  split <;> decide

theorem Plain.in_level_zero (plain : Plain t) {x y z face : Nat} (inX : x < t.dimX.toNat) (inY : y < max t.dimY.toNat 1)
    (inZ : z < max t.dimZ.toNat 1) (inFace : face < faceTotal t) :
    Cell.In t { x := x, y := y, z := z, lod := 0, face := face } := by
  have level := plain.mLodDim 0
  constructor
  · exact plain.one_le_mLodCount
  · exact inFace
  · rw [level]
    exact inX
  · rw [level]
    exact inY
  · rw [level]
    exact inZ

theorem Plain.offset_level_zero (plain : Plain t) {y z : Nat} (low : y < 2 ^ 32) :
    Cell.offset t { x := x, y := y, z := z, lod := 0, face := face } = face * (allocationBuildPointerTable t).faceOffset +
      (z * t.dimY.toNat % 2 ^ 32 + y) * (firstLod t).stride +
      x * t.mElement.getSizeBytes % 2 ^ 32 := by
  rw [Cell.offset_eq low, table_lod_zero plain.notYuv plain.one_le_mLodCount, add_mul]
  simp only [firstLod, LodState.ofLevel, firstLevel]
  omega

def origin (lod face : Nat) : Cell := { x := 0, y := 0, z := 0, lod := lod, face := face }

theorem Plain.in_origin (plain : Plain t) (wide : 1 ≤ t.dimX.toNat) {lod face : Nat} (inLod : lod < t.mLodCount.toNat)
    (inFace : face < faceTotal t) : (origin lod face).In t where
  lod := inLod
  face := inFace
  x := by
    rw [plain.mLodDim]
    exact one_le_iterate wide lod
  y := lt_max_of_lt_right zero_lt_one
  z := lt_max_of_lt_right zero_lt_one

theorem offset_origin (lod face : Nat) : (origin lod face).offset t = ((allocationBuildPointerTable t).lod lod).mallocPtr +
      face * (allocationBuildPointerTable t).faceOffset := by
  rw [Cell.offset_eq (Nat.two_pow_pos 32), origin]
  simp only [Nat.zero_mul, Nat.zero_mod, add_zero]

def rowCell (x : Nat) : Cell := { x := x, y := 0, z := 0, lod := 0, face := 0 }

theorem Plain.in_rowCell (plain : Plain t) (inside : x < t.dimX.toNat) : (rowCell x).In t :=
  plain.in_level_zero inside (lt_max_of_lt_right zero_lt_one) (lt_max_of_lt_right zero_lt_one) faceTotal_pos

theorem Plain.offset_rowCell (plain : Plain t) (x : Nat) : (rowCell x).offset t = x * t.mElement.getSizeBytes % 2 ^ 32 := by
  rw [rowCell, plain.offset_level_zero (Nat.two_pow_pos 32)]
  simp only [Nat.zero_mul, Nat.zero_mod, zero_add]

structure FirstRow (t : RsType) : Prop where
  inside : ∀ x < t.dimX.toNat,
    (rowCell x).offset t + t.mElement.getSizeBytes ≤ (allocationBuildPointerTable t).allocSize
  apart : ∀ x < t.dimX.toNat, ∀ c : Cell, c.In t → rowCell x ≠ c →
    (rowCell x).offset t + t.mElement.getSizeBytes ≤ c.offset t ∨
      c.offset t + t.mElement.getSizeBytes ≤ (rowCell x).offset t

theorem Holds.firstRow (holds : Holds t) (plain : Plain t) : FirstRow t where
  inside _ below := holds.inside _ (plain.in_rowCell below)
  apart _ below c isIn := holds.apart _ c (plain.in_rowCell below) isIn

theorem FirstRow.offset_lt (row : FirstRow t) (plain : Plain t)
    (pos : 0 < t.mElement.getSizeBytes) (inside : x < t.dimX.toNat) :
    x * t.mElement.getSizeBytes < 2 ^ 32 := by
  by_contra wraps
  generalize size : t.mElement.getSizeBytes = e at *
  have lower := @Nat.lt_div_mul_add (2 ^ 32 + (e - 1)) e pos
  have upper := Nat.div_mul_le_self (2 ^ 32 + (e - 1)) e
  generalize first : (2 ^ 32 + (e - 1)) / e = wrapped at *
  have notLater : wrapped ≤ x := by
    rw [← first]
    apply Nat.le_of_lt_succ
    rw [Nat.div_lt_iff_lt_mul pos, Nat.succ_mul]
    omega
  have some : wrapped ≠ 0 := by
    rintro rfl
    omega
  have cells : rowCell 0 ≠ rowCell wrapped := fun eq => some (congrArg Cell.x eq).symm
  have disjoint := row.apart _ (by omega) _ (plain.in_rowCell (by omega)) cells
  rw [plain.offset_rowCell, plain.offset_rowCell, size] at disjoint
  omega

theorem FirstRow.row_le_offset (row : FirstRow t) (plain : Plain t) (pos : 0 < t.mElement.getSizeBytes) (isIn : c.In t)
    (other : ∀ x, rowCell x ≠ c) : t.dimX.toNat * t.mElement.getSizeBytes ≤ c.offset t := by
  by_contra inRow
  have covering : c.offset t / t.mElement.getSizeBytes < t.dimX.toNat := by
    rw [Nat.div_lt_iff_lt_mul pos]
    omega
  have unwrapped := row.offset_lt plain pos covering
  have lower := @Nat.lt_div_mul_add (c.offset t) _ pos
  have upper := Nat.div_mul_le_self (c.offset t) t.mElement.getSizeBytes
  have disjoint := row.apart _ covering c isIn (other _)
  rw [plain.offset_rowCell, Nat.mod_eq_of_lt unwrapped] at disjoint
  omega

theorem FirstRow.row_le_stride (row : FirstRow t) (plain : Plain t)
    (pos : 0 < t.mElement.getSizeBytes) (wide : 1 ≤ t.dimX.toNat) :
    t.dimX.toNat * t.mElement.getSizeBytes ≤ (firstLod t).stride := by
  by_cases rows : 2 ≤ t.dimY.toNat
  · have isIn := @Plain.in_level_zero t plain 0 1 0 0 wide (by omega) (by omega) faceTotal_pos
    have place := row.row_le_offset plain pos isIn fun x eq => by
      cases congrArg Cell.y eq
    rw [plain.offset_level_zero (by decide)] at place
    simp only [Nat.zero_mul, Nat.zero_mod, zero_add, one_mul, add_zero] at place
    exact place
  by_cases planes : 2 ≤ t.dimZ.toNat
  · have isIn := @Plain.in_level_zero t plain 0 0 1 0 wide (by omega) (by omega) faceTotal_pos
    have place := row.row_le_offset plain pos isIn fun x eq => by
      cases congrArg Cell.z eq
    rw [plain.offset_level_zero (by decide)] at place
    have dims : t.dimY.toNat = 0 ∨ t.dimY.toNat = 1 := by omega
    rcases dims with zero | one
    · rw [zero] at place
      omega
    · rw [one] at place
      omega
  have oneRow : rowsOf (firstLevel t) = 1 := by
    rw [rowsOf, firstLevel]
    dsimp only
    rw [max_eq_right (by omega), max_eq_right (by omega)]
  have bytes : (firstLod t).bytes = (firstLod t).stride := by
    rw [firstLod, bytes_ofLevel, oneRow, mul_one, LodState.ofLevel]
  rw [← bytes]
  rcases plain.one_le_mLodCount.eq_or_lt with single | several
  · by_cases faces : t.faces = true
    · have total : faceTotal t = 6 := if_pos faces
      have isIn := @Plain.in_origin t plain wide 0 1 plain.one_le_mLodCount (by rw [total]; decide)
      have place := row.row_le_offset plain pos isIn fun x eq => by
        cases congrArg Cell.face eq
      rw [offset_origin, table_of_single plain.notYuv single.symm] at place
      dsimp only at place
      rw [startLods_zero, one_mul] at place
      exact place.trans_eq (zero_add _)
    · -- nothing follows the row, so it must end inside the block
      have last : t.dimX.toNat - 1 < t.dimX.toNat := by omega
      have ends := row.inside _ last
      have size : (allocationBuildPointerTable t).allocSize = (firstLod t).bytes := by
        rw [DrvState.allocSize, table_of_single plain.notYuv single.symm]
        exact if_neg faces
      rw [plain.offset_rowCell, Nat.mod_eq_of_lt (row.offset_lt plain pos last), size,
        ← Nat.succ_mul, Nat.succ_eq_add_one, Nat.sub_add_cancel wide] at ends
      exact ends
  · have isIn := Plain.in_origin plain wide several faceTotal_pos
    have place := row.row_le_offset plain pos isIn fun x eq => by
      cases congrArg Cell.lod eq
    rw [offset_origin, table_lod_one several, Nat.zero_mul] at place
    exact place

theorem FirstRow.row_fits (row : FirstRow t) (plain : Plain t)
    (pos : 0 < t.mElement.getSizeBytes) (wide : 1 ≤ t.dimX.toNat) :
    t.dimX.toNat * t.mElement.getSizeBytes + 15 < 2 ^ 32 := by
  by_contra overflows
  have short : (firstLod t).stride < t.dimX.toNat * t.mElement.getSizeBytes := rsRound_lt (not_lt.mp overflows)
  have room := row.row_le_stride plain pos wide
  omega

end

end RenderScript.Allocations
