import RenderScript.Foundation.ByteMemory
import RenderScript.Foundation.Stacking
import RenderScript.Allocation.AllocationProperties

/-!
# Rows of all levels

Where `AllocationBuildPointerTable` and `GetOffsetPtr` place the rows of every face, level and
plane. The rounding to 16 bytes and the number of a line are computed in 32 bits.
-/

namespace RenderScript.Allocations
open AlignedBytes ByteMemory Stacking Elements RenderScript.Types

/-- The dimensions that the table gives to a level: those of the level before. -/
def tableLevel (t : RsType) (lod : Nat) : Level := Level.next^[lod - 1] (firstLevel t)

def levelSize (eSize : Nat) (level : Level) : Nat := rsRound (level.x.toNat * eSize) 16 * rowsOf level

def tableSize (t : RsType) (lod : Nat) : Nat := levelSize t.mElement.getSizeBytes (tableLevel t lod)

theorem halved_eq_zero (d : UInt32) : (halved d).toNat = 0 ↔ d.toNat = 0 := by
  rw [toNat_halved]
  split <;> omega

structure Within (level first : Level) : Prop where
  x : level.x.toNat ≤ first.x.toNat
  y : level.y.toNat ≤ first.y.toNat
  z : level.z.toNat ≤ first.z.toNat
  zeroX : level.x.toNat = 0 ↔ first.x.toNat = 0
  zeroY : level.y.toNat = 0 ↔ first.y.toNat = 0

theorem within_iterate (first : Level) (lod : Nat) : Within (Level.next^[lod] first) first := by
  induction lod with
  | zero => exact ⟨le_rfl, le_rfl, le_rfl, Iff.rfl, Iff.rfl⟩
  | succ lod ih =>
    rw [Function.iterate_succ_apply']
    constructor
    · exact (halved_le_self _).trans ih.x
    · exact (halved_le_self _).trans ih.y
    · exact (halved_le_self _).trans ih.z
    · exact (halved_eq_zero _).trans ih.zeroX
    · exact (halved_eq_zero _).trans ih.zeroY

theorem bytes_levelSize (eSize : Nat) (level : Level) (mallocPtr : Nat) :
    (LodState.ofLevel eSize level mallocPtr).bytes = levelSize eSize level :=
  bytes_ofLevel eSize level mallocPtr

theorem buildLods_spec (eSize count lod : Nat) (level : Level) (o : Nat) (lods : Nat → LodState) :
    (∀ i < count, (buildLods eSize count lod level o lods).1 (lod + i) =
      .ofLevel eSize (Level.next^[i] level) (o + offset (fun j => levelSize eSize (Level.next^[j] level)) i)) ∧
    (buildLods eSize count lod level o lods).2 = o + offset (fun j => levelSize eSize (Level.next^[j] level)) count := by
  induction count generalizing lod level o lods with
  | zero => exact ⟨fun _ lt => absurd lt (Nat.not_lt_zero _), rfl⟩
  | succ count ih =>
    have sizes (i : Nat) : o + offset (fun j => levelSize eSize (Level.next^[j] level)) (i + 1) =
        o + (LodState.ofLevel eSize level o).bytes + offset (fun j => levelSize eSize (Level.next^[j] level.next)) i := by
      rw [offset_succ_left, bytes_levelSize, ← add_assoc]
      rfl
    obtain ⟨entries, total⟩ := ih (lod + 1) level.next (o + (LodState.ofLevel eSize level o).bytes)
      (Function.update lods lod (.ofLevel eSize level o))
    constructor
    · intro i lt
      cases i with
      | zero => exact buildLods_first
      | succ i =>
        rw [sizes, Function.iterate_succ_apply, ← entries i (Nat.lt_of_succ_lt_succ lt), buildLods]
        exact congrArg _ (by omega)
    · rw [sizes, buildLods]
      exact total

section

variable {t : RsType}

theorem Plain.table_lod (plain : Plain t) {lod : Nat} (lt : lod < t.mLodCount.toNat) :
    (allocationBuildPointerTable t).lod lod = .ofLevel t.mElement.getSizeBytes (tableLevel t lod) (offset (tableSize t) lod) := by
  cases lod with
  | zero =>
    rw [table_lod_zero plain.notYuv lt, offset_zero]
    rfl
  | succ lod =>
    have several : 2 ≤ t.mLodCount.toNat := by omega
    have entry := (buildLods_spec t.mElement.getSizeBytes (t.mLodCount.toNat - 1) 1 (firstLevel t)
      (firstLod t).bytes (startLods t)).1 lod (by omega)
    rw [add_comm 1 lod] at entry
    rw [table_of_several several, offset_succ_left]
    refine entry.trans ?_
    rw [firstLod, bytes_levelSize]
    rfl

theorem Plain.table_faceOffset_eq (plain : Plain t) :
    (allocationBuildPointerTable t).faceOffset = offset (tableSize t) t.mLodCount.toNat := by
  rcases plain.one_le_mLodCount.eq_or_lt with one | several
  · rw [table_of_single plain.notYuv one.symm, ← one, offset_succ, offset_zero, zero_add]
    exact bytes_levelSize _ _ _
  · obtain ⟨count, levels⟩ : ∃ count, t.mLodCount.toNat = count + 1 + 1 := ⟨t.mLodCount.toNat - 2, by omega⟩
    have total := (buildLods_spec t.mElement.getSizeBytes (count + 1) 1 (firstLevel t) (firstLod t).bytes (startLods t)).2
    rw [table_of_several several, levels, offset_succ_left]
    refine total.trans ?_
    rw [firstLod, bytes_levelSize]
    rfl

theorem Plain.allocSize_eq (plain : Plain t) : (allocationBuildPointerTable t).allocSize =
      offset (fun _ => offset (tableSize t) t.mLodCount.toNat) (faceTotal t) := by
  rw [DrvState.allocSize, table_faceCount plain.notYuv plain.one_le_mLodCount, plain.table_faceOffset_eq, offset_const, faceTotal]
  split
  · exact mul_comm _ _
  · exact (one_mul _).symm

theorem Plain.mLodCount_eq_one_iff (plain : Plain t) :
    t.mLodCount.toNat = 1 ↔ t.mDimLOD = false ∨ t.dimX ≤ 1 ∧ t.dimY ≤ 1 ∧ t.dimZ ≤ 1 := by
  have small (d : UInt32) : d ≤ 1 ↔ d.toNat.log2 = 0 := UInt32.le_iff_toNat_le.trans log2_eq_zero_iff.symm
  rw [plain.mLodCount, small, small, small, depth]
  cases t.mDimLOD with
  | false => simp
  | true =>
    simp only [if_true, firstLevel, Bool.true_eq_false, false_or]
    omega

theorem depth_of_next_eq {level : Level} (same : level.next = level) : depth level = 0 := by
  have halves := depth_next level
  rw [same] at halves
  omega

/-- The driver knows the dimensions of the type exactly if there is one level. -/
theorem table_dimensions_iff (plain : Plain t) : (t.mLodCount.toNat ≤ MAX_LOD ∧ ∀ lod < t.mLodCount.toNat,
      ((allocationBuildPointerTable t).lod lod).dimX = (t.mLodDim lod).x ∧
      ((allocationBuildPointerTable t).lod lod).dimY = (t.mLodDim lod).y ∧
      ((allocationBuildPointerTable t).lod lod).dimZ = (t.mLodDim lod).z) ↔
    t.mDimLOD = false ∨ t.dimX ≤ 1 ∧ t.dimY ≤ 1 ∧ t.dimZ ≤ 1 := by
  rw [← plain.mLodCount_eq_one_iff]
  constructor
  · rintro ⟨-, agree⟩
    by_contra different
    have several : 2 ≤ t.mLodCount.toNat := by
      have some := plain.one_le_mLodCount
      omega
    obtain ⟨x, y, z⟩ := agree 1 several
    rw [table_lod_one several, plain.mLodDim] at x y z
    have eq := (Level.mk.injEq _ _ _ _ _ _).mpr ⟨x.symm, y.symm, z.symm⟩
    have flat := depth_of_next_eq eq
    have count := plain.mLodCount
    rw [flat] at count
    split at count
    · exact different count
    · exact different count
  · intro one
    refine ⟨one.trans_le (by decide), fun lod lt => ?_⟩
    obtain rfl : lod = 0 := by omega
    rw [table_lod_zero plain.notYuv plain.one_le_mLodCount, plain.mLodDim]
    exact ⟨rfl, rfl, rfl⟩

end

private def float4 : Element := .mk 0 (.set .float32 .user false 4) []

private def float4Type (dimX dimY : UInt32) (mDimLOD : Bool) : RsType :=
  .create 0 float4
    { dimX := dimX, dimY := dimY, dimZ := 0, mDimLOD := mDimLOD, faces := false, dimYuv := 0 }

private theorem float4Type_plain (dimX dimY : UInt32) (mDimLOD : Bool) : Plain (float4Type dimX dimY mDimLOD) := ⟨rfl, rfl⟩

theorem table_dimensions_iff_single : (float4Type 4 4 false).mLodCount.toNat ≤ MAX_LOD ∧
      ((allocationBuildPointerTable (float4Type 4 4 false)).lod 0).dimX = 4 := by
  obtain ⟨room, agree⟩ := (table_dimensions_iff (float4Type_plain 4 4 false)).mpr (.inl rfl)
  exact ⟨room, (agree 0 (by decide)).1⟩

/-- A level of 65536 cells is the first of 17. Level 1 of a four by four type is two by two, but
not in the table. -/
theorem table_dimensions_differ : ¬ (float4Type 65536 1 true).mLodCount.toNat ≤ MAX_LOD ∧
    1 < (float4Type 4 4 true).mLodCount.toNat ∧
    ((float4Type 4 4 true).mLodDim 1).x = 2 ∧
    ((allocationBuildPointerTable (float4Type 4 4 true)).lod 1).dimX = 4 := by
  refine ⟨?_, ?_, ?_, ?_⟩
  · decide +kernel
  · decide +kernel
  · decide +kernel
  · decide +kernel

structure Row where
  face : Nat
  lod : Nat
  z : Nat
  y : Nat
  deriving DecidableEq

variable {r other : Row}

structure Row.In (t : RsType) (r : Row) : Prop where
  face : r.face < faceTotal t
  lod : r.lod < t.mLodCount.toNat
  z : r.z < max ((allocationBuildPointerTable t).lod r.lod).dimZ.toNat 1
  y : r.y < max ((allocationBuildPointerTable t).lod r.lod).dimY.toNat 1

def Row.start (t : RsType) (r : Row) : Nat :=
  getOffsetPtr (allocationBuildPointerTable t) (.ofNat t.mElement.getSizeBytes) 0 (.ofNat r.y) (.ofNat r.z)
    r.lod r.face

def Row.region (t : RsType) (r : Row) : Region :=
  ⟨r.start t, ((allocationBuildPointerTable t).lod r.lod).dimX.toNat * t.mElement.getSizeBytes⟩

structure RowsApart (t : RsType) : Prop where
  apart : ∀ r other : Row, r.In t → other.In t → r ≠ other → (r.region t).Apart (other.region t)
  aligned : ∀ r : Row, r.In t → 16 ∣ r.start t
  inside : ∀ r : Row, r.In t →
    r.start t + (r.region t).length ≤ (allocationBuildPointerTable t).allocSize

def RowsFit (t : RsType) : Prop :=
  t.dimX.toNat * t.mElement.getSizeBytes = 0 ∨
    t.dimX.toNat * t.mElement.getSizeBytes + 15 < 2 ^ 32 ∧
    (max t.dimZ.toNat 1 - 1) * t.dimY.toNat < 2 ^ 32 ∧ (t.dimY.toNat = 0 → t.dimZ.toNat ≤ 1)

section

variable {t : RsType}

def Row.index (t : RsType) (r : Row) : Nat := r.z * (tableLevel t r.lod).y.toNat + r.y

def tableStride (t : RsType) (lod : Nat) : Nat :=
  rsRound ((tableLevel t lod).x.toNat * t.mElement.getSizeBytes) 16

theorem tableSize_eq (t : RsType) (lod : Nat) :
    tableSize t lod = offset (fun _ => tableStride t lod) (rowsOf (tableLevel t lod)) := by
  rw [offset_const, mul_comm]
  rfl

theorem Row.start_eq (plain : Plain t) (isIn : r.In t) :
    r.start t = offset (fun _ => offset (tableSize t) t.mLodCount.toNat) r.face + (offset (tableSize t) r.lod +
        offset (fun _ => tableStride t r.lod) (r.z * (tableLevel t r.lod).y.toNat % 2 ^ 32 + r.y)) := by
  have low : r.y < 2 ^ 32 := by
    have bound := isIn.y
    have word := ((allocationBuildPointerTable t).lod r.lod).dimY.toNat_lt
    omega
  have place := @Cell.offset_eq t ⟨0, r.y, r.z, r.lod, r.face⟩ low
  rw [plain.table_lod isIn.lod, plain.table_faceOffset_eq] at place
  simp only [offset_const]
  refine place.trans ?_
  simp only [LodState.ofLevel, Nat.zero_mul, Nat.zero_mod, add_zero]
  rw [add_mul]
  change _ + _ * _ + _ * tableStride t r.lod + _ * tableStride t r.lod = _
  omega

theorem Row.region_length (plain : Plain t) (isIn : r.In t) :
    (r.region t).length = (tableLevel t r.lod).x.toNat * t.mElement.getSizeBytes := by
  rw [Row.region]
  rw [plain.table_lod isIn.lod]
  rfl

theorem Row.In.table (plain : Plain t) (isIn : r.In t) :
    r.z < max (tableLevel t r.lod).z.toNat 1 ∧ r.y < max (tableLevel t r.lod).y.toNat 1 := by
  have inZ := isIn.z
  have inY := isIn.y
  rw [plain.table_lod isIn.lod] at inZ inY
  exact ⟨inZ, inY⟩

theorem dvd_tableStride (t : RsType) (lod : Nat) : 16 ∣ tableStride t lod := by
  rw [tableStride, rsRound_sixteen]
  exact dvd_mul_left _ _

theorem dvd_tableSize (t : RsType) (lod : Nat) : 16 ∣ tableSize t lod := (dvd_tableStride t lod).mul_right _

theorem Row.dvd_start (plain : Plain t) (isIn : r.In t) : 16 ∣ r.start t := by
  rw [Row.start_eq plain isIn]
  apply dvd_add
  · exact dvd_offset fun _ _ => dvd_offset fun lod _ => dvd_tableSize t lod
  · apply dvd_add
    · exact dvd_offset fun lod _ => dvd_tableSize t lod
    · exact dvd_offset fun _ _ => dvd_tableStride t r.lod

theorem within_tableLevel (t : RsType) (lod : Nat) : Within (tableLevel t lod) (firstLevel t) := within_iterate _ _

theorem rsRound_zero : rsRound 0 16 = 0 := by decide

section

variable (fits : RowsFit t)

include fits

theorem RowsFit.le_tableStride (lod : Nat) : (tableLevel t lod).x.toNat * t.mElement.getSizeBytes ≤ tableStride t lod := by
  have narrow : (tableLevel t lod).x.toNat * t.mElement.getSizeBytes ≤
      t.dimX.toNat * t.mElement.getSizeBytes := Nat.mul_le_mul_right _ (within_tableLevel t lod).x
  rcases fits with empty | ⟨short, -, -⟩
  · omega
  · rw [tableStride, rsRound_eq (by omega)]
    exact le_alignUp (by decide) _

theorem RowsFit.index_eq (inZ : r.z < max (tableLevel t r.lod).z.toNat 1) :
    tableStride t r.lod = 0 ∨ r.z * (tableLevel t r.lod).y.toNat % 2 ^ 32 + r.y = r.index t ∧
        ((tableLevel t r.lod).y.toNat = 0 → r.z = 0) := by
  have within := within_tableLevel t r.lod
  rcases fits with empty | ⟨-, planes, lines⟩
  · refine .inl ?_
    have narrow := Nat.mul_le_mul_right t.mElement.getSizeBytes within.x
    rw [show (firstLevel t).x.toNat * t.mElement.getSizeBytes = 0 from empty] at narrow
    rw [tableStride, Nat.le_zero.mp narrow]
    exact rsRound_zero
  · refine .inr ⟨?_, fun flat => ?_⟩
    · have smaller : r.z * (tableLevel t r.lod).y.toNat ≤ (max t.dimZ.toNat 1 - 1) * t.dimY.toNat := by
        apply Nat.mul_le_mul _ within.y
        have deep : (tableLevel t r.lod).z.toNat ≤ t.dimZ.toNat := within.z
        omega
      rw [Nat.mod_eq_of_lt (by omega), Row.index]
    · have flatFirst := lines (within.zeroY.mp flat)
      have deep : (tableLevel t r.lod).z.toNat ≤ t.dimZ.toNat := within.z
      omega

end

theorem index_injective {lines z y z' y' : Nat} (inY : y < max lines 1) (inY' : y' < max lines 1)
    (flat : lines = 0 → z = 0) (flat' : lines = 0 → z' = 0) (same : z * lines + y = z' * lines + y') :
    z = z' ∧ y = y' := by
  rcases eq_zero_or_pos lines with none | some
  · omega
  · rw [max_eq_left some] at inY inY'
    have quotient (a b : Nat) (below : b < lines) : (a * lines + b) / lines = a := by
      rw [mul_comm, Nat.mul_add_div some, Nat.div_eq_of_lt below, add_zero]
    have planes : z = z' := by
      rw [← quotient z y inY, same, quotient z' y' inY']
    subst planes
    exact ⟨rfl, add_left_cancel same⟩

section

variable (plain : Plain t) (fits : RowsFit t)

include plain fits

theorem RowsFit.row_le (isIn : r.In t) :
    offset (fun _ => tableStride t r.lod) (r.z * (tableLevel t r.lod).y.toNat % 2 ^ 32 + r.y) +
        (r.region t).length ≤ tableSize t r.lod ∧
      offset (tableSize t) r.lod + offset (fun _ => tableStride t r.lod) (r.z * (tableLevel t r.lod).y.toNat % 2 ^ 32 + r.y) +
        (r.region t).length ≤ offset (tableSize t) t.mLodCount.toNat := by
  obtain ⟨inZ, inY⟩ := isIn.table plain
  have room : 0 + (r.region t).length ≤ tableStride t r.lod := by
    rw [Row.region_length plain isIn, zero_add]
    exact fits.le_tableStride r.lod
  have inLevel := @piece_le (fun _ => tableStride t r.lod) _ _ _ _ (row_lt inY inZ) room
  rw [← tableSize_eq, add_zero] at inLevel
  exact ⟨inLevel, piece_le isIn.lod inLevel⟩

theorem RowsFit.apart_lines (isIn : r.In t) (otherIn : other.In t)
    (ne : r ≠ other) (faces : r.face = other.face) (lods : r.lod = other.lod) :
    offset (fun _ => tableStride t r.lod) (r.z * (tableLevel t r.lod).y.toNat % 2 ^ 32 + r.y) + (r.region t).length ≤
      offset (fun _ => tableStride t other.lod) (other.z * (tableLevel t other.lod).y.toNat % 2 ^ 32 + other.y) ∨
    offset (fun _ => tableStride t other.lod)
        (other.z * (tableLevel t other.lod).y.toNat % 2 ^ 32 + other.y) + (other.region t).length ≤
      offset (fun _ => tableStride t r.lod) (r.z * (tableLevel t r.lod).y.toNat % 2 ^ 32 + r.y) := by
  obtain ⟨inZ, inY⟩ := isIn.table plain
  obtain ⟨otherZ, otherY⟩ := otherIn.table plain
  have room := fits.le_tableStride r.lod
  rw [Row.region_length plain isIn, Row.region_length plain otherIn]
  rcases fits.index_eq inZ with empty | ⟨number, flat⟩
  · rw [← lods, empty, offset_const, offset_const]
    omega
  · rcases fits.index_eq otherZ with empty | ⟨otherNumber, otherFlat⟩
    · rw [← lods] at empty ⊢
      omega
    · have numbers : r.index t ≠ other.index t := by
        intro eq
        rw [Row.index, Row.index, ← lods] at eq
        obtain ⟨planes, lines⟩ := index_injective inY (lods ▸ otherY) flat (lods ▸ otherFlat) eq
        apply ne
        cases r
        cases other
        cases faces
        cases lods
        cases planes
        cases lines
        rfl
      rw [number, otherNumber, ← lods]
      rw [← zero_add (_ * _)] at room
      exact @pieces_apart _ _ _ 0 0 _ _ numbers room room

theorem RowsFit.rows_le (isIn : r.In t) (otherIn : other.In t) (ne : r ≠ other) :
    r.start t + (r.region t).length ≤ other.start t ∨ other.start t + (other.region t).length ≤ r.start t := by
  obtain ⟨inLevel, inFace⟩ := fits.row_le plain isIn
  obtain ⟨otherLevel, otherFace⟩ := fits.row_le plain otherIn
  rw [Row.start_eq plain isIn, Row.start_eq plain otherIn]
  -- rows of different faces, of different levels of a face, and of one level
  by_cases faces : r.face = other.face
  · rw [faces]
    by_cases lods : r.lod = other.lod
    · have lines := fits.apart_lines plain isIn otherIn ne faces lods
      have level : offset (tableSize t) r.lod = offset (tableSize t) other.lod := congrArg _ lods
      omega
    · have levels := pieces_apart lods inLevel otherLevel
      omega
  · have apart := @pieces_apart (fun _ => offset (tableSize t) t.mLodCount.toNat) _ _ _ _ _ _ faces inFace otherFace
    omega

theorem RowsFit.rowsApart : RowsApart t := by
  constructor
  · intro r other isIn otherIn ne
    exact Region.apart_of_le (fits.rows_le plain isIn otherIn ne)
  · exact fun r isIn => Row.dvd_start plain isIn
  · intro r isIn
    obtain ⟨-, inFace⟩ := fits.row_le plain isIn
    rw [plain.allocSize_eq, Row.start_eq plain isIn]
    exact piece_le isIn.face inFace

end

theorem Plain.row_in (plain : Plain t) (inFace : r.face < faceTotal t)
    (inLod : r.lod < t.mLodCount.toNat) (inZ : r.z < max (tableLevel t r.lod).z.toNat 1)
    (inY : r.y < max (tableLevel t r.lod).y.toNat 1) : r.In t := by
  refine ⟨inFace, inLod, ?_, ?_⟩
  · rw [plain.table_lod inLod]
    exact inZ
  · rw [plain.table_lod inLod]
    exact inY

/-- Where planes have too many lines, the first line of some plane gets the number of a line of the
first plane. -/
theorem wrapped_line (overflows : 2 ^ 32 ≤ (max t.dimZ.toNat 1 - 1) * t.dimY.toNat) :
    ∃ z y, z < max t.dimZ.toNat 1 ∧ y < max t.dimY.toNat 1 ∧ z ≠ 0 ∧ z * t.dimY.toNat % 2 ^ 32 = y := by
  have lines := t.dimY.toNat_lt
  have some : 0 < t.dimY.toNat := by
    by_contra none
    rw [Nat.eq_zero_of_not_pos none, Nat.mul_zero] at overflows
    omega
  -- the first plane whose first line has no number of its own
  have lower := @Nat.lt_div_mul_add (2 ^ 32 + (t.dimY.toNat - 1)) _ some
  have upper := Nat.div_mul_le_self (2 ^ 32 + (t.dimY.toNat - 1)) t.dimY.toNat
  have inside : (2 ^ 32 + (t.dimY.toNat - 1)) / t.dimY.toNat ≤ max t.dimZ.toNat 1 - 1 := by
    apply Nat.le_of_lt_succ
    rw [Nat.div_lt_iff_lt_mul some, Nat.succ_mul]
    omega
  generalize (2 ^ 32 + (t.dimY.toNat - 1)) / t.dimY.toNat = z at lower upper inside
  refine ⟨z, z * t.dimY.toNat - 2 ^ 32, by omega, by omega, ?_, by omega⟩
  rintro rfl
  omega

section

variable (plain : Plain t) (cells : 0 < t.dimX.toNat * t.mElement.getSizeBytes) (apart : RowsApart t)

include plain cells

theorem Row.length_pos (isIn : r.In t) : 0 < (r.region t).length := by
  rw [Row.region_length plain isIn]
  have wide : 0 < t.dimX.toNat := Nat.pos_of_mul_pos_right cells
  have some : (tableLevel t r.lod).x.toNat ≠ 0 := fun zero =>
    wide.ne' ((within_tableLevel t r.lod).zeroX.mp zero)
  exact mul_pos (pos_of_ne_zero some) (Nat.pos_of_mul_pos_left cells)

include apart

theorem RowsApart.start_of_ne (isIn : r.In t) (otherIn : other.In t) (ne : r ≠ other) :
    r.start t + (tableLevel t r.lod).x.toNat * t.mElement.getSizeBytes ≤ other.start t ∨ other.start t < r.start t := by
  by_contra inside
  rw [← Row.region_length plain isIn, not_or] at inside
  apply apart.apart r other isIn otherIn ne (other.start t)
  · exact ⟨not_lt.mp inside.2, not_le.mp inside.1⟩
  · exact ⟨le_rfl, Nat.lt_add_of_pos_right (Row.length_pos plain cells otherIn)⟩

theorem RowsApart.first_le (isIn : r.In t) (other : r ≠ ⟨0, 0, 0, 0⟩) : t.dimX.toNat * t.mElement.getSizeBytes ≤ r.start t := by
  have firstIn : Row.In t ⟨0, 0, 0, 0⟩ := plain.row_in faceTotal_pos plain.one_le_mLodCount (lt_max_of_lt_right zero_lt_one)
      (lt_max_of_lt_right zero_lt_one)
  have start : Row.start t ⟨0, 0, 0, 0⟩ = 0 := by
    rw [Row.start_eq plain firstIn]
    simp
  rcases apart.start_of_ne plain cells firstIn isIn other.symm with behind | before
  · rw [start, zero_add] at behind
    exact behind
  · omega

theorem RowsApart.planes (flat : t.dimY.toNat = 0) : t.dimZ.toNat ≤ 1 := by
  by_contra deep
  have isIn : Row.In t ⟨0, 0, 1, 0⟩ := plain.row_in faceTotal_pos plain.one_le_mLodCount (lt_max_of_lt_left (not_le.mp deep))
      (lt_max_of_lt_right zero_lt_one)
  have behind := apart.first_le plain cells isIn (by decide)
  have start : Row.start t ⟨0, 0, 1, 0⟩ = 0 := by
    have lines : (tableLevel t 0).y.toNat = 0 := flat
    rw [Row.start_eq plain isIn, lines]
    simp
  omega

theorem RowsApart.le_stride : t.dimX.toNat * t.mElement.getSizeBytes ≤ tableStride t 0 := by
  have first : 0 < faceTotal t := faceTotal_pos
  have low := plain.one_le_mLodCount
  by_cases lines : 2 ≤ t.dimY.toNat
  · have isIn : Row.In t ⟨0, 0, 0, 1⟩ := plain.row_in first low (lt_max_of_lt_right zero_lt_one) (lt_max_of_lt_left lines)
    have behind := apart.first_le plain cells isIn (by decide)
    rw [Row.start_eq plain isIn] at behind
    simpa using behind
  by_cases deep : 2 ≤ t.dimZ.toNat
  · have isIn : Row.In t ⟨0, 0, 1, 0⟩ := plain.row_in first low (lt_max_of_lt_left deep) (lt_max_of_lt_right zero_lt_one)
    have behind := apart.first_le plain cells isIn (by decide)
    have one : (tableLevel t 0).y.toNat = 1 := by
      have some : t.dimY.toNat ≠ 0 := fun flat => by
        have thin := apart.planes plain cells flat
        omega
      change t.dimY.toNat = 1
      omega
    rw [Row.start_eq plain isIn, one] at behind
    simpa using behind
  have size : tableSize t 0 = tableStride t 0 := by
    have rows : rowsOf (tableLevel t 0) = 1 := by
      change max t.dimY.toNat 1 * max t.dimZ.toNat 1 = 1
      rw [max_eq_right (by omega), max_eq_right (by omega)]
    rw [tableSize_eq, rows, offset_const, one_mul]
  by_cases several : 2 ≤ t.mLodCount.toNat
  · have isIn : Row.In t ⟨0, 1, 0, 0⟩ :=
      plain.row_in first several (lt_max_of_lt_right zero_lt_one) (lt_max_of_lt_right zero_lt_one)
    have behind := apart.first_le plain cells isIn (by decide)
    rw [Row.start_eq plain isIn, offset_succ] at behind
    simpa [size] using behind
  have one : t.mLodCount.toNat = 1 := by omega
  have whole : offset (tableSize t) t.mLodCount.toNat = tableStride t 0 := by
    rw [one, offset_succ, offset_zero, zero_add, size]
  by_cases faces : 2 ≤ faceTotal t
  · have isIn : Row.In t ⟨1, 0, 0, 0⟩ :=
      plain.row_in faces low (lt_max_of_lt_right zero_lt_one) (lt_max_of_lt_right zero_lt_one)
    have behind := apart.first_le plain cells isIn (by decide)
    rw [Row.start_eq plain isIn, whole] at behind
    simpa using behind
  · -- nothing follows the row, so it must end inside the block
    have isIn : Row.In t ⟨0, 0, 0, 0⟩ :=
      plain.row_in first low (lt_max_of_lt_right zero_lt_one) (lt_max_of_lt_right zero_lt_one)
    have ends := apart.inside _ isIn
    have single : faceTotal t = 1 := by omega
    rw [Row.region_length plain isIn, plain.allocSize_eq, whole, single, offset_const, one_mul] at ends
    exact (Nat.le_add_left _ _).trans ends

theorem RowsApart.lines_lt : (max t.dimZ.toNat 1 - 1) * t.dimY.toNat < 2 ^ 32 := by
  by_contra overflows
  obtain ⟨z, y, inZ, inY, pos, wrapped⟩ := wrapped_line (not_lt.mp overflows)
  have isIn : Row.In t ⟨0, 0, z, 0⟩ := plain.row_in faceTotal_pos plain.one_le_mLodCount inZ (lt_max_of_lt_right zero_lt_one)
  have otherIn : Row.In t ⟨0, 0, 0, y⟩ := plain.row_in faceTotal_pos plain.one_le_mLodCount (lt_max_of_lt_right zero_lt_one) inY
  have number : (tableLevel t 0).y = t.dimY := rfl
  have eq : Row.start t ⟨0, 0, z, 0⟩ = Row.start t ⟨0, 0, 0, y⟩ := by
    rw [Row.start_eq plain isIn, Row.start_eq plain otherIn]
    rw [number, wrapped, Nat.zero_mul, Nat.zero_mod, zero_add, add_zero]
  have ne : (⟨0, 0, z, 0⟩ : Row) ≠ ⟨0, 0, 0, y⟩ := by
    intro rows
    exact pos (congrArg Row.z rows)
  have long := Row.length_pos plain cells isIn
  rw [Row.region_length plain isIn] at long
  rcases apart.start_of_ne plain cells isIn otherIn ne with behind | before
  · omega
  · omega

end

/-- The rows of the table are apart, aligned and inside the block exactly if they fit. -/
theorem rows_apart_iff (plain : Plain t) : RowsApart t ↔ RowsFit t := by
  constructor
  · intro apart
    rcases eq_zero_or_pos (t.dimX.toNat * t.mElement.getSizeBytes) with empty | cells
    · exact .inl empty
    · refine .inr ⟨?_, apart.lines_lt plain cells, apart.planes plain cells⟩
      by_contra overflows
      have short : tableStride t 0 < t.dimX.toNat * t.mElement.getSizeBytes := rsRound_lt (not_lt.mp overflows)
      have room := apart.le_stride plain cells
      omega
  · intro fits
    exact fits.rowsApart plain

end

theorem rows_apart_iff_padded : RowsApart (float4Type 5 3 true) :=
  (rows_apart_iff (float4Type_plain 5 3 true)).mpr (.inr ⟨by decide, by decide, by decide⟩)

/-- Rows of 4 GiB are rounded to nothing, so that the second is the first. -/
theorem rows_overlap : Plain (float4Type 268435456 2 false) ∧ (float4Type 268435456 2 false).mLodCount.toNat ≤ MAX_LOD ∧
    Row.In (float4Type 268435456 2 false) ⟨0, 0, 0, 0⟩ ∧
    Row.In (float4Type 268435456 2 false) ⟨0, 0, 0, 1⟩ ∧
    Row.region (float4Type 268435456 2 false) ⟨0, 0, 0, 0⟩ = ⟨0, 2 ^ 32⟩ ∧
    Row.region (float4Type 268435456 2 false) ⟨0, 0, 0, 1⟩ = ⟨0, 2 ^ 32⟩ := by
  refine ⟨float4Type_plain _ _ _, by decide, ⟨?_, ?_, ?_, ?_⟩, ⟨?_, ?_, ?_, ?_⟩, ?_, ?_⟩
  all_goals decide +kernel

end RenderScript.Allocations
