import RenderScript.Foundation.LineCopies
import RenderScript.Allocation.RowLayout

/-!
# Boxes of cells

Where the cells of a level are in its rows, and the lines of a box of cells. As long as rows fit,
cells outside a box are apart from its lines.
-/

namespace RenderScript.Allocations
open ByteMemory LineCopies Stacking Elements RenderScript.Types

def Cell.row (c : Cell) : Row := ⟨c.face, c.lod, c.z, c.y⟩

section

variable {t : RsType}

theorem Plain.within_table (plain : Plain t) (lod : Nat) : Within (t.mLodDim lod) (tableLevel t lod) := by
  have steps : lod = (lod - (lod - 1)) + (lod - 1) := by omega
  have level : t.mLodDim lod = Level.next^[lod - (lod - 1)] (tableLevel t lod) := by
    rw [plain.mLodDim, tableLevel, ← Function.iterate_add_apply, ← steps]
  rw [level]
  exact within_iterate _ _

theorem max_one_mono {a b : Nat} (smaller : a ≤ b) : max a 1 ≤ max b 1 := max_le_max smaller le_rfl

theorem Cell.In.row (plain : Plain t) {c : Cell} (isIn : c.In t) : c.row.In t := by
  have within := plain.within_table c.lod
  apply plain.row_in isIn.face isIn.lod
  · exact isIn.z.trans_le (max_one_mono within.z)
  · exact isIn.y.trans_le (max_one_mono within.y)

theorem RowsFit.width_lt (fits : RowsFit t) {x lod : Nat} (inX : x ≤ (tableLevel t lod).x.toNat) :
    x * t.mElement.getSizeBytes < 2 ^ 32 := by
  have narrow : x * t.mElement.getSizeBytes ≤ t.dimX.toNat * t.mElement.getSizeBytes :=
    Nat.mul_le_mul_right _ (inX.trans (within_tableLevel t lod).x)
  rcases fits with empty | ⟨short, -, -⟩
  · rw [empty] at narrow
    exact narrow.trans_lt (by decide)
  · omega

theorem RowsFit.offset_eq (fits : RowsFit t) {c : Cell} (low : c.y < 2 ^ 32) (inX : c.x ≤ (tableLevel t c.lod).x.toNat) :
    c.offset t = c.row.start t + c.x * t.mElement.getSizeBytes := by
  have start := @Cell.offset_eq t { c with x := 0 } low
  dsimp only at start
  rw [Nat.zero_mul, Nat.zero_mod, Nat.add_zero] at start
  rw [Cell.offset_eq low, Nat.mod_eq_of_lt (fits.width_lt inX), ← start]
  rfl

theorem Plain.allocSize_single (plain : Plain t) (one : t.mLodCount.toNat = 1) (noFaces : t.faces = false) :
    (allocationBuildPointerTable t).allocSize = rsRound (t.dimX.toNat * t.mElement.getSizeBytes) 16 * rowsOf (firstLevel t) := by
  have faces : faceTotal t = 1 := if_neg (by rw [noFaces]; decide)
  rw [plain.allocSize_eq, one, faces, offset_const, one_mul, offset_succ, offset_zero, zero_add]
  rfl

end

structure Box where
  x : Nat
  y : Nat
  z : Nat
  w : Nat
  h : Nat
  d : Nat
  lod : Nat
  face : Nat

namespace Box

variable {t : RsType} {b : Box} {c : Cell}

structure In (t : RsType) (b : Box) : Prop where
  lod : b.lod < t.mLodCount.toNat
  face : b.face < faceTotal t
  x : b.x + b.w ≤ (t.mLodDim b.lod).x.toNat
  y : b.y + b.h ≤ max (t.mLodDim b.lod).y.toNat 1
  z : b.z + b.d ≤ max (t.mLodDim b.lod).z.toNat 1

structure Has (b : Box) (c : Cell) : Prop where
  lod : c.lod = b.lod
  face : c.face = b.face
  x : b.x ≤ c.x ∧ c.x < b.x + b.w
  y : b.y ≤ c.y ∧ c.y < b.y + b.h
  z : b.z ≤ c.z ∧ c.z < b.z + b.d

def lines (b : Box) : Nat := b.d * b.h

def lineCell (b : Box) (n : Nat) : Cell where
  x := b.x
  y := b.y + n % b.h
  z := b.z + n / b.h
  lod := b.lod
  face := b.face

def lineAt (t : RsType) (b : Box) (n : Nat) : Nat := (b.lineCell n).offset t

def lineOf (b : Box) (c : Cell) : Nat := (c.z - b.z) * b.h + (c.y - b.y)

theorem lineCell_bounds {n : Nat} (lt : n < b.lines) : n % b.h < b.h ∧ n / b.h < b.d := by
  have some : 0 < b.h := by
    apply pos_of_ne_zero
    intro none
    rw [lines, none, Nat.mul_zero] at lt
    exact Nat.not_lt_zero _ lt
  exact ⟨Nat.mod_lt _ some, (Nat.div_lt_iff_lt_mul some).mpr lt⟩

theorem lineOf_lt (has : b.Has c) : b.lineOf c < b.lines := by
  have inY := has.y
  have inZ := has.z
  calc b.lineOf c < (c.z - b.z) * b.h + b.h := by
        rw [lineOf]
        omega
    _ = (c.z - b.z + 1) * b.h := (Nat.succ_mul _ _).symm
    _ ≤ b.d * b.h := Nat.mul_le_mul_right _ (by omega)

theorem lineCell_lineOf (has : b.Has c) : { b.lineCell (b.lineOf c) with x := c.x } = c := by
  have inY := has.y
  have inZ := has.z
  have lt : c.y - b.y < b.h := by omega
  have some : 0 < b.h := by omega
  have remainder : b.lineOf c % b.h = c.y - b.y := by
    rw [lineOf, Nat.mul_add_mod', Nat.mod_eq_of_lt lt]
  have quotient : b.lineOf c / b.h = c.z - b.z := by
    rw [lineOf, mul_comm, Nat.mul_add_div some, Nat.div_eq_of_lt lt, add_zero]
  cases c
  simp only [lineCell, Cell.mk.injEq, remainder, quotient, true_and]
  dsimp only at inY inZ
  exact ⟨by omega, by omega, has.lod.symm, has.face.symm⟩

theorem lineCell_injective {n m : Nat} (same : (b.lineCell n).row = (b.lineCell m).row) : n = m := by
  have rows := Row.mk.inj same
  have remainder : n % b.h = m % b.h := add_left_cancel rows.2.2.2
  have quotient : n / b.h = m / b.h := add_left_cancel rows.2.2.1
  rw [← Nat.div_add_mod n b.h, ← Nat.div_add_mod m b.h, remainder, quotient]

section

variable (plain : Plain t) (isIn : b.In t)

include plain isIn

theorem In.row {n : Nat} (lt : n < b.lines) : (b.lineCell n).row.In t := by
  have within := plain.within_table b.lod
  obtain ⟨inY, inZ⟩ := lineCell_bounds lt
  apply plain.row_in isIn.face isIn.lod
  · exact (Nat.add_lt_add_left inZ _).trans_le (isIn.z.trans (max_one_mono within.z))
  · exact (Nat.add_lt_add_left inY _).trans_le (isIn.y.trans (max_one_mono within.y))

theorem In.low {n : Nat} (lt : n < b.lines) : (b.lineCell n).y < 2 ^ 32 := by
  have inY := ((isIn.row plain lt).table plain).2
  have word := (tableLevel t b.lod).y.toNat_lt
  change (b.lineCell n).y < max (tableLevel t b.lod).y.toNat 1 at inY
  omega

theorem In.width : b.x + b.w ≤ (tableLevel t b.lod).x.toNat := isIn.x.trans (plain.within_table b.lod).x

theorem In.line_le {n : Nat} (lt : n < b.lines) :
    b.x * t.mElement.getSizeBytes + b.w * t.mElement.getSizeBytes ≤ ((b.lineCell n).row.region t).length := by
  rw [← add_mul, Row.region_length plain (isIn.row plain lt)]
  exact Nat.mul_le_mul_right _ (isIn.width plain)

variable (fits : RowsFit t)

include fits

theorem In.lineAt_eq {n : Nat} (lt : n < b.lines) :
    b.lineAt t n = (b.lineCell n).row.start t + b.x * t.mElement.getSizeBytes :=
  fits.offset_eq (isIn.low plain lt) ((Nat.le_add_right _ _).trans (isIn.width plain))

theorem In.inside {n : Nat} (lt : n < b.lines) :
    b.lineAt t n + b.w * t.mElement.getSizeBytes ≤ (allocationBuildPointerTable t).allocSize := by
  have row := (fits.rowsApart plain).inside _ (isIn.row plain lt)
  have short := isIn.line_le plain lt
  rw [isIn.lineAt_eq plain fits lt]
  omega

theorem In.apart : Apart (b.w * t.mElement.getSizeBytes) b.lines (b.lineAt t) := by
  intro i j before lt
  have iIn := isIn.row plain (before.trans lt)
  have jIn := isIn.row plain lt
  have iShort := isIn.line_le plain (before.trans lt)
  have jShort := isIn.line_le plain lt
  have rows := fits.rows_le plain iIn jIn fun eq => before.ne (lineCell_injective eq)
  rw [isIn.lineAt_eq plain fits (before.trans lt), isIn.lineAt_eq plain fits lt]
  omega

theorem In.outside (cellIn : c.In t) (other : ¬ b.Has c) {j : Nat} (inCell : j < t.mElement.getSizeBytes) :
    Outside (b.w * t.mElement.getSizeBytes) b.lines (b.lineAt t) (c.offset t + j) := by
  intro n lt
  have place := fits.offset_eq cellIn.low (cellIn.x.le.trans (plain.within_table c.lod).x)
  rw [place, isIn.lineAt_eq plain fits lt]
  have inRow : c.x * t.mElement.getSizeBytes + t.mElement.getSizeBytes ≤ (c.row.region t).length := by
    rw [← Nat.succ_mul, Row.region_length plain (cellIn.row plain)]
    exact Nat.mul_le_mul_right _ (cellIn.x.trans_le (plain.within_table c.lod).x)
  have short := isIn.line_le plain lt
  by_cases rows : c.row = (b.lineCell n).row
  · -- in the row of the line, but beside it
    obtain ⟨inY, inZ⟩ := lineCell_bounds lt
    have eq := Row.mk.inj rows
    have beside : c.x < b.x ∨ b.x + b.w ≤ c.x := by
      by_contra inside
      rw [not_or] at inside
      apply other
      refine ⟨eq.2.1, eq.1, ⟨not_lt.mp inside.1, not_le.mp inside.2⟩, ?_, ?_⟩
      · rw [eq.2.2.2]
        exact ⟨Nat.le_add_right _ _, Nat.add_lt_add_left inY _⟩
      · rw [eq.2.2.1]
        exact ⟨Nat.le_add_right _ _, Nat.add_lt_add_left inZ _⟩
    rw [rows]
    rcases beside with left | right
    · have before := Nat.mul_le_mul_right t.mElement.getSizeBytes (Nat.succ_le_of_lt left)
      rw [Nat.succ_mul] at before
      omega
    · have behind := Nat.mul_le_mul_right t.mElement.getSizeBytes right
      rw [add_mul] at behind
      omega
  · have apart := fits.rows_le plain (cellIn.row plain) (isIn.row plain lt) rows
    omega

theorem In.offset_of_has (has : b.Has c) : c.offset t = b.lineAt t (b.lineOf c) + (c.x - b.x) * t.mElement.getSizeBytes := by
  have lt := lineOf_lt has
  have cell := lineCell_lineOf has
  have inX := has.x
  have low : c.y < 2 ^ 32 := by
    rw [← cell]
    exact isIn.low plain lt
  have wide : c.x ≤ (tableLevel t c.lod).x.toNat := by
    rw [has.lod]
    exact inX.2.le.trans (isIn.width plain)
  have row : c.row = (b.lineCell (b.lineOf c)).row := (congrArg Cell.row cell.symm).trans rfl
  rw [fits.offset_eq low wide, isIn.lineAt_eq plain fits lt, row, add_assoc, ← add_mul, Nat.add_sub_cancel' inX.1]

end

def Written (t : RsType) (b : Box) (bytes : Memory) (stride : Nat) (after : Memory) : Prop :=
  ∀ c, b.Has c → ∀ j < t.mElement.getSizeBytes,
    after (c.offset t + j) = bytes (b.lineOf c * stride + ((c.x - b.x) * t.mElement.getSizeBytes + j))

def Unchanged (t : RsType) (b : Box) (before after : Memory) : Prop :=
  ∀ c : Cell, c.In t → ¬ b.Has c → ∀ j < t.mElement.getSizeBytes,
    after (c.offset t + j) = before (c.offset t + j)

def Returned (t : RsType) (b : Box) (bytes : Memory) (stride : Nat) (buffer : Memory) (bufferStride : Nat) :
    Prop :=
  ∀ n < b.lines, ∀ j < b.w * t.mElement.getSizeBytes, buffer (n * bufferStride + j) = bytes (n * stride + j)

theorem In.written (plain : Plain t) (isIn : b.In t) (fits : RowsFit t) (bytes before : Memory) (stride : Nat) :
    Written t b bytes stride (copy bytes (b.w * t.mElement.getSizeBytes) b.lines (b.lineAt t) (· * stride) before) := by
  intro c has j inCell
  have inX := has.x
  have inLine : (c.x - b.x) * t.mElement.getSizeBytes + j < b.w * t.mElement.getSizeBytes := by
    calc (c.x - b.x) * t.mElement.getSizeBytes + j
        < (c.x - b.x) * t.mElement.getSizeBytes + t.mElement.getSizeBytes := Nat.add_lt_add_left inCell _
      _ = (c.x - b.x + 1) * t.mElement.getSizeBytes := (Nat.succ_mul _ _).symm
      _ ≤ b.w * t.mElement.getSizeBytes := Nat.mul_le_mul_right _ (by omega)
  rw [isIn.offset_of_has plain fits has, add_assoc]
  exact copy_at (isIn.apart plain fits) (lineOf_lt has) inLine

theorem In.unchanged (plain : Plain t) (isIn : b.In t) (fits : RowsFit t) (bytes before : Memory) (stride : Nat) :
    Unchanged t b before (copy bytes (b.w * t.mElement.getSizeBytes) b.lines (b.lineAt t) (· * stride) before) :=
  fun _ cellIn other _ inCell => copy_outside (isIn.outside plain fits cellIn other inCell)

theorem In.returned (plain : Plain t) (isIn : b.In t) (fits : RowsFit t) (bytes before buffer : Memory)
    {stride bufferStride : Nat} (wide : b.w * t.mElement.getSizeBytes ≤ bufferStride) :
    Returned t b bytes stride (copy (copy bytes (b.w * t.mElement.getSizeBytes) b.lines (b.lineAt t) (· * stride) before)
        (b.w * t.mElement.getSizeBytes) b.lines (· * bufferStride) (b.lineAt t) buffer) bufferStride := by
  intro n lt j inLine
  exact copy_copy (isIn.apart plain fits) (apart_mul wide) lt inLine

end Box

def planeCell (x y : Nat) : Cell := { x := x, y := y, z := 0, lod := 0, face := 0 }

def Cell.box (c : Cell) : Box :=
  { x := c.x, y := c.y, z := c.z, w := 1, h := 1, d := 1, lod := c.lod, face := c.face }

theorem Cell.box_has {c other : Cell} (has : c.box.Has other) : c = other := by
  obtain ⟨lod, face, x, y, z⟩ := has
  cases c
  cases other
  simp only [Cell.box] at lod face x y z
  simp only [Cell.mk.injEq]
  omega

structure FirstPlane (t : RsType) : Prop where
  inside : ∀ x < t.dimX.toNat, ∀ y < max t.dimY.toNat 1,
    (planeCell x y).offset t + t.mElement.getSizeBytes ≤ (allocationBuildPointerTable t).allocSize
  apart : ∀ x < t.dimX.toNat, ∀ y < max t.dimY.toNat 1, ∀ c : Cell, c.In t → planeCell x y ≠ c →
    (planeCell x y).offset t + t.mElement.getSizeBytes ≤ c.offset t ∨
      c.offset t + t.mElement.getSizeBytes ≤ (planeCell x y).offset t

section

variable {t : RsType}

theorem FirstPlane.firstRow (plane : FirstPlane t) : FirstRow t where
  inside x below := plane.inside x below 0 (lt_max_of_lt_right zero_lt_one)
  apart x below := plane.apart x below 0 (lt_max_of_lt_right zero_lt_one)

theorem FirstPlane.rowsFit (plane : FirstPlane t) (plain : Plain t) : RowsFit t := by
  rcases eq_zero_or_pos (t.dimX.toNat * t.mElement.getSizeBytes) with empty | cells
  · exact .inl empty
  have wide : 0 < t.dimX.toNat := Nat.pos_of_mul_pos_right cells
  have pos := Nat.pos_of_mul_pos_left cells
  refine .inr ⟨plane.firstRow.row_fits plain pos wide, ?_, ?_⟩
  · by_contra overflows
    obtain ⟨z, y, inZ, inY, positive', wraps⟩ := wrapped_line (not_lt.mp overflows)
    have isIn := Plain.in_level_zero plain wide (lt_max_of_lt_right zero_lt_one) inZ faceTotal_pos
    have ne : planeCell 0 y ≠ { x := 0, y := 0, z := z, lod := 0, face := 0 } :=
      fun eq => positive' (congrArg Cell.z eq).symm
    have apart := plane.apart 0 wide y inY _ isIn ne
    have low : y < 2 ^ 32 := by
      omega
    rw [planeCell, plain.offset_level_zero low, plain.offset_level_zero (Nat.two_pow_pos 32), wraps] at apart
    simp only [Nat.zero_mul, Nat.zero_mod, zero_add, add_zero] at apart
    omega
  · intro flat
    by_contra deep
    have isIn := Plain.in_level_zero plain wide (lt_max_of_lt_right zero_lt_one)
      (lt_max_of_lt_left (not_le.mp deep)) faceTotal_pos
    have place := plane.firstRow.row_le_offset plain pos isIn fun x eq => by
      cases congrArg Cell.z eq
    rw [plain.offset_level_zero (Nat.two_pow_pos 32), flat] at place
    omega

theorem FirstPlane.of_write (writes : ∀ x < t.dimX.toNat, ∀ y < max t.dimY.toNat 1, ∀ before bytes : Memory,
      (planeCell x y).offset t + t.mElement.getSizeBytes ≤ (allocationBuildPointerTable t).allocSize ∧
      (planeCell x y).box.Unchanged t before (write before ⟨(planeCell x y).offset t, t.mElement.getSizeBytes⟩ bytes)) :
    FirstPlane t := by
  constructor
  · intro x inX y inY
    exact (writes x inX y inY (fun _ => 0) fun _ => 0).1
  · intro x inX y inY c isIn ne
    by_contra overlap
    rw [not_or, not_le, not_le] at overlap
    have eq := (writes x inX y inY (fun _ => 0) fun _ => 1).2 c isIn fun has => ne (Cell.box_has has)
    -- the later of both starts is in both cells
    rcases le_total ((planeCell x y).offset t) (c.offset t) with before | behind
    · have first := eq 0 (by omega)
      rw [add_zero, write, if_pos ⟨before, overlap.1⟩] at first
      exact (by decide : (1 : UInt8) ≠ 0) first
    · obtain ⟨j, place⟩ := Nat.exists_eq_add_of_le behind
      have shared := eq j (by omega)
      rw [← place, write, if_pos ⟨le_rfl, by dsimp only; omega⟩] at shared
      exact (by decide : (1 : UInt8) ≠ 0) shared

end

end RenderScript.Allocations
