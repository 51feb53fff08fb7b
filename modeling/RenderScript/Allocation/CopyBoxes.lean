import RenderScript.Allocation.Copies

/-!
# Boxes that are copied

Which cells the copies of one, two and three dimensions write and read. Two of them forget a part
of the request: the level, and the plane that the box starts with.
-/

namespace RenderScript.Copies
open ByteMemory LineCopies Elements RenderScript.Types Allocations Option

variable {src : Source} {lineSize lodStride stride n : Nat}

/-!
## Requests as boxes
-/

structure Alloc.Of (t : RsType) (a : Alloc) : Prop where
  type : a.type = t
  laid : a.laid = t

section

variable {t : RsType} {a a' : Alloc} {xoff yoff zoff w h : UInt32} {lod face d : Nat}

theorem init_eq {script : Bool} {block : Memory} (made : rsdAllocationInit t script block = some a) :
    a = { type := t, laid := t, script := script, block := block } ∧ t.mLodCount.toNat ≤ MAX_LOD := by
  unfold rsdAllocationInit at made
  split at made
  · cases made
    exact ⟨rfl, by assumption⟩
  · cases made

theorem Alloc.Of.copyCells {a' : Alloc} {dst ct size : Nat} {src : Memory} (of : a.Of t)
    (copied : a.copyCells dst src ct size = some a') : a'.Of t := by
  obtain ⟨-, refs, rfl⟩ := Alloc.copyCells_inv copied
  exact ⟨of.type, of.laid⟩

theorem Alloc.Of.copyLines {a' : Alloc} {width stride lines dst : Nat}
    (of : a.Of t) (copied : copyLines width lineSize stride lodStride lines dst src a = some a') : a'.Of t := by
  induction lines generalizing dst src a with
  | zero =>
    cases copied
    exact of
  | succ lines ih =>
    obtain ⟨next, first, rest⟩ := bind_eq_some_iff.mp copied
    exact ih (of.copyCells first) rest

theorem Alloc.Of.copySlices {width slices : Nat} (of : a.Of t)
    (copied : copySlices xoff yoff h lod width lineSize stride slices zoff src a = some a') : a'.Of t := by
  induction slices generalizing zoff src a with
  | zero =>
    cases copied
    exact of
  | succ slices ih =>
    rw [Copies.copySlices] at copied
    split at copied
    · cases copied
      exact of
    · obtain ⟨next, first, rest⟩ := bind_eq_some_iff.mp copied
      exact ih (of.copyLines first) rest

theorem Alloc.Of.table (of : a.Of t) : a.table = allocationBuildPointerTable t := by
  rw [Alloc.table, of.laid]

theorem Alloc.Of.getOffsetPtr (of : a.Of t) (xoff yoff zoff : UInt32) (lod face : Nat) : a.getOffsetPtr xoff yoff zoff lod face =
      Cell.offset t { x := xoff.toNat, y := yoff.toNat, z := zoff.toNat, lod := lod, face := face } := by
  rw [Cell.offset, Alloc.getOffsetPtr, Alloc.table, Alloc.elementSizeBytes, of.type, of.laid]
  simp only [UInt32.ofNat_toNat]

theorem offset_add {c : Cell} {i : Nat} (low : c.y + i < 2 ^ 32) : Cell.offset t { c with y := c.y + i } =
      c.offset t + i * ((allocationBuildPointerTable t).lod c.lod).stride := by
  rw [Cell.offset_eq low, Cell.offset_eq ((Nat.le_add_right _ _).trans_lt low)]
  dsimp only
  rw [add_mul]
  omega

def requestBox (xoff yoff zoff w h : UInt32) (d lod face : Nat) : Box where
  x := xoff.toNat
  y := yoff.toNat
  z := zoff.toNat
  w := w.toNat
  h := h.toNat
  d := d
  lod := lod
  face := face

section

variable (plain : Plain t) (isIn : (requestBox xoff yoff zoff w h d lod face).In t)

include isIn

theorem lineCount_eq : lineCount yoff h = h.toNat := by
  have inY : yoff.toNat + h.toNat ≤ max (t.mLodDim lod).y.toNat 1 := isIn.y
  have word := (t.mLodDim lod).y.toNat_lt
  rw [lineCount, UInt32.toNat_add, Nat.mod_eq_of_lt (by omega), Nat.add_sub_cancel_left]

include plain

theorem slicePtr_eq (of : a.Of t) (lt : n < d * h.toNat) : a.slicePtr xoff yoff zoff lod face (lineCount yoff h) n =
      (requestBox xoff yoff zoff w h d lod face).lineAt t n := by
  have low := isIn.low plain lt
  have deep : zoff.toNat + n / h.toNat < 2 ^ 32 := by
    have inZ := isIn.z
    have word := (t.mLodDim lod).z.toNat_lt
    have inBox : n / h.toNat < d := (@Box.lineCell_bounds (requestBox xoff yoff zoff w h d lod face) n lt).2
    change zoff.toNat + d ≤ max (t.mLodDim lod).z.toNat 1 at inZ
    omega
  have plane : (zoff + .ofNat (n / h.toNat)).toNat = zoff.toNat + n / h.toNat := by
    rw [UInt32.toNat_add, UInt32.toNat_ofNat', Nat.add_mod_mod, Nat.mod_eq_of_lt deep]
  have line := @offset_add t ⟨xoff.toNat, yoff.toNat, zoff.toNat + n / h.toNat, lod, face⟩ _ low
  rw [lineCount_eq isIn, Alloc.slicePtr, of.getOffsetPtr, plane, of.table]
  exact line.symm

theorem lineAt_first (of : a.Of t) {i : Nat} (some : 0 < d) (lt : i < h.toNat) :
    a.getOffsetPtr xoff yoff zoff lod face + i * (a.table.lod lod).stride =
      (requestBox xoff yoff zoff w h d lod face).lineAt t i := by
  rw [← slicePtr_eq plain isIn of (lt.trans_le (Nat.le_mul_of_pos_left _ some)), lineCount_eq isIn, Alloc.slicePtr_first lt]

end

theorem lineSize_eq (plain : Plain t) (fits : RowsFit t) (isIn : (requestBox xoff yoff zoff w h d lod face).In t) :
    t.mElement.getSizeBytes % 2 ^ 32 * w.toNat = w.toNat * t.mElement.getSizeBytes := by
  have short := fits.width_lt ((Nat.le_add_left _ _).trans (isIn.width plain))
  rcases eq_zero_or_pos w.toNat with none | some
  · simp [none]
  · rw [Nat.mod_eq_of_lt ((Nat.le_mul_of_pos_left _ some).trans_lt short), mul_comm]

end

def Spaced (lineSize stride : Nat) : Prop := stride = 0 ∨ lineSize ≤ stride

theorem Spaced.le (spaced : Spaced lineSize stride) : lineSize ≤ lineStride lineSize stride := by
  unfold lineStride
  split
  · exact le_rfl
  · exact spaced.resolve_left (by assumption)

/-!
## Two dimensions
-/

section

variable {t : RsType} {a : Alloc} {xoff yoff w h : UInt32} {lod face : Nat} {bytes buffer : Memory}
  {stride : Nat}

theorem Alloc.Of.elementSizeBytes (of : a.Of t) : a.elementSizeBytes.toNat = t.mElement.getSizeBytes % 2 ^ 32 := by
  rw [Alloc.elementSizeBytes, of.type, UInt32.toNat_ofNat']

theorem Alloc.data2D_eq_bind : a.rsdAllocationData2D xoff yoff lod face w h (.buffer bytes) stride =
      (copyLines w.toNat (a.elementSizeBytes.toNat * w.toNat)
        (lineStride (a.elementSizeBytes.toNat * w.toNat) stride) (a.table.lod lod).stride (lineCount yoff h)
        (a.getOffsetPtr xoff yoff 0 lod face) (.buffer bytes) a).bind fun after =>
          after.copyYuv xoff yoff face h (a.elementSizeBytes.toNat * w.toNat) ((Source.buffer bytes).advance
            (lineCount yoff h * lineStride (a.elementSizeBytes.toNat * w.toNat) stride)) := rfl

theorem Alloc.copyYuv_plain (notYuv : a.type.dimYuv = 0) : a.copyYuv xoff yoff face h lineSize src = some a := if_pos notYuv

variable (plain : Plain t) (fits : RowsFit t) (isIn : (requestBox xoff yoff 0 w h 1 lod face).In t)

include plain fits isIn

theorem Alloc.Of.lines_inside (of : a.Of t) (i : Nat) (lt : i < h.toNat) :
    a.getOffsetPtr xoff yoff 0 lod face + i * (a.table.lod lod).stride + w.toNat * t.mElement.getSizeBytes ≤ a.table.allocSize := by
  rw [lineAt_first plain isIn of one_pos lt, of.table]
  exact isIn.inside plain fits (lt.trans_eq (one_mul _).symm)

theorem Alloc.Of.data2D (of : a.Of t) :
    ∃ refs, a.rsdAllocationData2D xoff yoff lod face w h (.buffer bytes) stride = some { a with
        block := copy bytes (w.toNat * t.mElement.getSizeBytes) (requestBox xoff yoff 0 w h 1 lod face).lines
          ((requestBox xoff yoff 0 w h 1 lod face).lineAt t)
          (· * lineStride (w.toNat * t.mElement.getSizeBytes) stride) a.block
        refs := refs } := by
  have count : (requestBox xoff yoff 0 w h 1 lod face).lines = h.toNat := one_mul _
  have place (i : Nat) (below : i < h.toNat) := lineAt_first plain isIn of one_pos below
  obtain ⟨refs, copied⟩ := @copyLines_eq _ _ _ _
    (lineStride (w.toNat * t.mElement.getSizeBytes) stride) (a.table.lod lod).stride h.toNat
    (a.getOffsetPtr xoff yoff 0 lod face) 0 (of.lines_inside plain fits isIn)
  simp only [zero_add] at copied
  refine ⟨refs, ?_⟩
  rw [Alloc.data2D_eq_bind, of.elementSizeBytes, lineSize_eq plain fits isIn, lineCount_eq isIn, copied,
    count, ← copy_congr place fun _ _ => rfl]
  exact Alloc.copyYuv_plain (of.type ▸ plain.notYuv)

theorem Alloc.Of.read2D (of : a.Of t) : a.rsdAllocationRead2D xoff yoff lod face w h stride buffer =
      some (copy a.block (w.toNat * t.mElement.getSizeBytes) (requestBox xoff yoff 0 w h 1 lod face).lines
        (· * lineStride (w.toNat * t.mElement.getSizeBytes) stride)
        ((requestBox xoff yoff 0 w h 1 lod face).lineAt t) buffer) := by
  have count : (requestBox xoff yoff 0 w h 1 lod face).lines = h.toNat := one_mul _
  unfold Alloc.rsdAllocationRead2D
  rw [of.elementSizeBytes, lineSize_eq plain fits isIn, lineCount_eq isIn]
  rw [Alloc.readLines_eq (of.lines_inside plain fits isIn), count, ← copy_congr (fun _ _ => rfl) fun _ below => lineAt_first plain isIn of one_pos below]
  simp only [zero_add]

end

/-!
## Reading back what was written
-/

/-- Writing a rectangle changes no other cell, and reading it gives what was written. -/
def Exchanges2D (t : RsType) (lod face : Nat) (xoff yoff w h : UInt32) : Prop :=
  ∀ (script : Bool) (block bytes : Memory) (stride bufferStride : Nat),
    Spaced (w.toNat * t.mElement.getSizeBytes) stride →
    Spaced (w.toNat * t.mElement.getSizeBytes) bufferStride →
    ∃ a a', rsdAllocationInit t script block = some a ∧
      a.rsdAllocationData2D xoff yoff lod face w h (.buffer bytes) stride = some a' ∧
      (requestBox xoff yoff 0 w h 1 lod face).Unchanged t block a'.block ∧
      ∀ buffer, ∃ out, a'.rsdAllocationRead2D xoff yoff lod face w h bufferStride buffer = some out ∧
        (requestBox xoff yoff 0 w h 1 lod face).Returned t bytes
          (lineStride (w.toNat * t.mElement.getSizeBytes) stride) out
          (lineStride (w.toNat * t.mElement.getSizeBytes) bufferStride)

section

variable {t : RsType} {xoff yoff w h : UInt32} {lod face : Nat}

theorem exchanges2D (plain : Plain t) (levels : t.mLodCount.toNat ≤ MAX_LOD) (fits : RowsFit t)
    (isIn : (requestBox xoff yoff 0 w h 1 lod face).In t) : Exchanges2D t lod face xoff yoff w h := by
  intro script block bytes stride bufferStride _ spaced
  have of : Alloc.Of t { type := t, laid := t, script := script, block := block } := ⟨rfl, rfl⟩
  obtain ⟨refs, written⟩ := of.data2D plain fits isIn
  refine ⟨_, _, if_pos levels, written, isIn.unchanged plain fits bytes block _, fun buffer => ?_⟩
  exact ⟨_, Alloc.Of.read2D plain fits isIn ⟨rfl, rfl⟩, isIn.returned plain fits bytes block buffer spaced.le⟩

theorem whole_in (plain : Plain t) : (requestBox 0 0 0 t.dimX t.dimY 1 0 0).In t := by
  have level := plain.mLodDim 0
  refine ⟨plain.one_le_mLodCount, faceTotal_pos, ?_, ?_, le_max_right _ _⟩
  · exact (zero_add _).trans_le (level ▸ le_rfl)
  · exact (zero_add _).trans_le (level ▸ le_max_left _ _)

end

/-!
## Single cells

A cell of the first plane is written and read as one line, by requests of any dimension.
-/

section

variable {t : RsType} {a a' : Alloc} {x y : Nat} {bytes : Memory}

theorem cell_request (plain : Plain t) (inX : x < t.dimX.toNat) (inY : y < max t.dimY.toNat 1) :
    (requestBox (.ofNat x) (.ofNat y) 0 1 1 1 0 0).In t ∧ requestBox (.ofNat x) (.ofNat y) 0 1 1 1 0 0 = (planeCell x y).box := by
  have level := plain.mLodDim 0
  have wordX := t.dimX.toNat_lt
  have wordY := t.dimY.toNat_lt
  have eq : requestBox (.ofNat x) (.ofNat y) 0 1 1 1 0 0 = (planeCell x y).box := by
    rw [requestBox, UInt32.toNat_ofNat', UInt32.toNat_ofNat', Nat.mod_eq_of_lt (by omega), Nat.mod_eq_of_lt (by omega)]
    rfl
  refine ⟨?_, eq⟩
  rw [eq]
  constructor
  · exact plain.one_le_mLodCount
  · exact faceTotal_pos
  · rw [show (planeCell x y).box.lod = 0 from rfl, level]
    exact inX
  · rw [show (planeCell x y).box.lod = 0 from rfl, level]
    exact inY
  · exact le_max_right _ _

section

variable (plain : Plain t) (of : a.Of t) (inX : x < t.dimX.toNat) (inY : y < max t.dimY.toNat 1)

include plain of inX inY

theorem cell_address : a.getOffsetPtr (.ofNat x) (.ofNat y) 0 0 0 = (planeCell x y).offset t := by
  have req := (cell_request plain inX inY).2
  rw [of.getOffsetPtr]
  exact congrArg (fun b : Box => Cell.offset t ⟨b.x, b.y, b.z, b.lod, b.face⟩) req

theorem cell_of_copyLines (copied : copyLines 1 lineSize stride lodStride (lineCount (.ofNat y) 1)
      (a.getOffsetPtr (.ofNat x) (.ofNat y) 0 0 0) (.buffer bytes) a = some a') :
    (planeCell x y).offset t + lineSize ≤ (allocationBuildPointerTable t).allocSize ∧
      a'.Of t ∧ a'.block = write a.block ⟨(planeCell x y).offset t, lineSize⟩ bytes := by
  have req := cell_request plain inX inY
  rw [lineCount_eq req.1, cell_address plain of inX inY] at copied
  obtain ⟨inside, refs, rfl⟩ := Alloc.copyCells_inv (copyLines_one.symm.trans copied)
  rw [of.table] at inside
  exact ⟨inside, ⟨of.type, of.laid⟩, rfl⟩

omit of in
theorem size_lt_of_readLines {src : Nat} {out : Memory}
    (read : a.readLines (t.mElement.getSizeBytes % 2 ^ 32) (t.mElement.getSizeBytes % 2 ^ 32) lodStride
      (lineCount (.ofNat y) 1) src 0 (fun _ => 1) = some out)
    (ret : (requestBox (.ofNat x) (.ofNat y) 0 1 1 1 0 0).Returned t (fun _ => 0) stride out stride) :
    t.mElement.getSizeBytes < 2 ^ 32 := by
  by_contra large
  rw [lineCount_eq (cell_request plain inX inY).1] at read
  have small : t.mElement.getSizeBytes % 2 ^ 32 < t.mElement.getSizeBytes :=
    (Nat.mod_lt _ (by decide)).trans_le (not_lt.mp large)
  have kept := Alloc.readLines_behind le_rfl ((zero_add _).trans (one_mul _)).le read
  have cell := ret 0 one_pos (t.mElement.getSizeBytes % 2 ^ 32) (small.trans_eq (one_mul _).symm)
  rw [Nat.zero_mul, zero_add, kept] at cell
  exact (by decide : (1 : UInt8) ≠ 0) cell

end

end

/-!
## When two dimensions work
-/

section

variable {t : RsType} {a a' : Alloc} {x y : Nat} {bytes : Memory}

theorem data2D_cell (plain : Plain t) (of : a.Of t) (inX : x < t.dimX.toNat) (inY : y < max t.dimY.toNat 1)
    (wrote : a.rsdAllocationData2D (.ofNat x) (.ofNat y) 0 0 1 1 (.buffer bytes) 0 = some a') :
    (planeCell x y).offset t + t.mElement.getSizeBytes % 2 ^ 32 ≤ (allocationBuildPointerTable t).allocSize ∧
      a'.Of t ∧ a'.block = write a.block ⟨(planeCell x y).offset t, t.mElement.getSizeBytes % 2 ^ 32⟩ bytes := by
  rw [Alloc.data2D_eq_bind, of.elementSizeBytes, UInt32.toNat_one, mul_one] at wrote
  obtain ⟨after, copied, chroma⟩ := bind_eq_some_iff.mp wrote
  have cell := cell_of_copyLines plain of inX inY copied
  rw [Alloc.copyYuv_plain (cell.2.1.type ▸ plain.notYuv)] at chroma
  cases chroma
  exact cell

theorem firstPlane_of_exchanges2D (plain : Plain t) (exchanges : ∀ xoff yoff, (requestBox xoff yoff 0 1 1 1 0 0).In t →
      Exchanges2D t 0 0 xoff yoff 1 1) : FirstPlane t := by
  apply FirstPlane.of_write
  intro x inX y inY before bytes
  obtain ⟨inRequest, req⟩ := cell_request plain inX inY
  have exchange := exchanges _ _ inRequest
  have small : t.mElement.getSizeBytes < 2 ^ 32 := by
    obtain ⟨a, a', made, wrote, -, reads⟩ := exchange true (fun _ => 0) (fun _ => 0) 0 0 (.inl rfl) (.inl rfl)
    obtain ⟨out, read, ret⟩ := reads fun _ => 1
    obtain ⟨rfl, -⟩ := init_eq made
    obtain ⟨-, of, -⟩ := data2D_cell plain ⟨rfl, rfl⟩ inX inY wrote
    unfold Alloc.rsdAllocationRead2D at read
    rw [of.elementSizeBytes, UInt32.toNat_one, mul_one] at read
    exact size_lt_of_readLines plain inX inY read ret
  obtain ⟨a, a', made, wrote, unchanged, -⟩ := exchange true before bytes 0 0 (.inl rfl) (.inl rfl)
  obtain ⟨rfl, -⟩ := init_eq made
  obtain ⟨inside, -, block⟩ := data2D_cell plain ⟨rfl, rfl⟩ inX inY wrote
  rw [Nat.mod_eq_of_lt small] at inside block
  rw [block, req] at unchanged
  exact ⟨inside, unchanged⟩

/-- Rectangles of all levels and faces are exchanged exactly if the table has room for the levels
and the rows fit. -/
theorem exchanges2D_iff (plain : Plain t) : (∀ lod face xoff yoff w h, (requestBox xoff yoff 0 w h 1 lod face).In t →
      Exchanges2D t lod face xoff yoff w h) ↔ t.mLodCount.toNat ≤ MAX_LOD ∧ RowsFit t := by
  constructor
  · intro exchanges
    have empty : (requestBox 0 0 0 0 0 1 0 0).In t :=
      ⟨plain.one_le_mLodCount, faceTotal_pos, Nat.zero_le _, Nat.zero_le _, le_max_right _ _⟩
    obtain ⟨a, a', made, -⟩ := exchanges 0 0 0 0 0 0 empty true (fun _ => 0) (fun _ => 0) 0 0 (.inl rfl) (.inl rfl)
    have plane := firstPlane_of_exchanges2D plain fun xoff yoff => exchanges 0 0 xoff yoff 1 1
    exact ⟨(init_eq made).2, plane.rowsFit plain⟩
  · rintro ⟨levels, fits⟩ lod face xoff yoff w h isIn
    exact exchanges2D plain levels fits isIn

end

private def quad : Element := .mk 0 (.set .float32 .user false 4) []

private def planes (dimX dimY dimZ : UInt32) (mDimLOD : Bool) : RsType :=
  .create 0 quad
    { dimX := dimX, dimY := dimY, dimZ := dimZ, mDimLOD := mDimLOD, faces := false, dimYuv := 0 }

private theorem planes_plain (dimX dimY dimZ : UInt32) (mDimLOD : Bool) : Plain (planes dimX dimY dimZ mDimLOD) := ⟨rfl, rfl⟩

theorem exchanges2D_iff_level : Exchanges2D (planes 5 3 0 true) 1 0 1 0 1 1 := by
  apply (exchanges2D_iff (planes_plain 5 3 0 true)).mpr
  · exact ⟨by decide +kernel, .inr ⟨by decide, by decide, by decide⟩⟩
  · constructor
    all_goals decide +kernel

/-- The stride of rows of more than 4 GiB is 16, so that the second cell of the first row is the
first cell of the second. -/
theorem exchanges2D_overlap : Plain (planes 268435457 2 0 false) ∧ (planes 268435457 2 0 false).mLodCount.toNat ≤ MAX_LOD ∧
    (requestBox 1 0 0 1 1 1 0 0).In (planes 268435457 2 0 false) ∧
    ¬ Exchanges2D (planes 268435457 2 0 false) 0 0 1 0 1 1 := by
  have plain := planes_plain 268435457 2 0 false
  have inX : 1 < (planes 268435457 2 0 false).dimX.toNat := by decide
  have inY : 0 < max (planes 268435457 2 0 false).dimY.toNat 1 := by decide
  refine ⟨plain, by decide +kernel, (cell_request plain inX inY).1, fun exchanges => ?_⟩
  obtain ⟨a, a', made, wrote, unchanged, -⟩ := exchanges true (fun _ => 0) (fun _ => 1) 0 0 (.inl rfl) (.inl rfl)
  obtain ⟨rfl, -⟩ := init_eq made
  obtain ⟨-, -, block⟩ := data2D_cell plain ⟨rfl, rfl⟩ inX inY wrote
  have second : (planeCell 0 1).In (planes 268435457 2 0 false) :=
    plain.in_level_zero (by decide) (by decide) (by decide) (by decide)
  have eq := unchanged (planeCell 0 1) second (fun has => absurd has.x.1 (by decide)) 0 (by decide)
  have place : (planeCell 0 1).offset (planes 268435457 2 0 false) + 0 =
      (planeCell 1 0).offset (planes 268435457 2 0 false) := by decide +kernel
  rw [block, place, write, if_pos ⟨le_rfl, Nat.lt_add_of_pos_right (by decide)⟩] at eq
  exact (by decide : (1 : UInt8) ≠ 0) eq

/-!
## Three dimensions
-/

section

variable {t : RsType} {a a' : Alloc} {xoff yoff zoff w h d : UInt32} {lod stride : Nat} {bytes buffer : Memory}

/-- The planes from `zoff` to `d`. -/
def sliceBox (xoff yoff zoff w h d : UInt32) (lod : Nat) : Box :=
  requestBox xoff yoff zoff w h (sliceCount zoff d) lod 0

theorem sliceBox_in (isIn : (requestBox xoff yoff zoff w h d.toNat lod 0).In t) : (sliceBox xoff yoff zoff w h d lod).In t := by
  refine { isIn with z := ?_ }
  have inZ : zoff.toNat + d.toNat ≤ max (t.mLodDim lod).z.toNat 1 := isIn.z
  change zoff.toNat + (d.toNat - zoff.toNat) ≤ max (t.mLodDim lod).z.toNat 1
  omega

theorem Alloc.Of.lineSize3D (of : a.Of t) : (a.elementSizeBytes * w).toNat = w.toNat * t.mElement.getSizeBytes % 2 ^ 32 := by
  rw [UInt32.toNat_mul, of.elementSizeBytes, Nat.mod_mul_mod, mul_comm]

section

variable (plain : Plain t) (fits : RowsFit t) (isIn : (requestBox xoff yoff zoff w h d.toNat lod 0).In t)

include plain isIn

theorem Alloc.Of.slicePtr (of : a.Of t) (lt : n < (sliceBox xoff yoff zoff w h d lod).lines) :
    a.slicePtr xoff yoff zoff lod 0 h.toNat n = (sliceBox xoff yoff zoff w h d lod).lineAt t n := by
  have place := slicePtr_eq plain (sliceBox_in isIn) of lt
  rw [lineCount_eq isIn] at place
  exact place

include fits

theorem lineSize3D_eq : w.toNat * t.mElement.getSizeBytes % 2 ^ 32 = w.toNat * t.mElement.getSizeBytes :=
  Nat.mod_eq_of_lt (fits.width_lt ((Nat.le_add_left _ _).trans (isIn.width plain)))

theorem Alloc.Of.slices_inside (of : a.Of t) : ∀ n < sliceCount zoff d * lineCount yoff h,
      a.slicePtr xoff yoff zoff lod 0 (lineCount yoff h) n + w.toNat * t.mElement.getSizeBytes ≤ a.table.allocSize := by
  intro n lt
  rw [lineCount_eq isIn] at lt ⊢
  rw [of.slicePtr plain isIn lt, of.table]
  exact (sliceBox_in isIn).inside plain fits lt

/-- Only the planes below `d` are written. -/
theorem Alloc.Of.data3D (of : a.Of t) :
    ∃ refs, a.rsdAllocationData3D xoff yoff zoff lod w h d (.buffer bytes) stride = some { a with
        block := copy bytes (w.toNat * t.mElement.getSizeBytes) (sliceBox xoff yoff zoff w h d lod).lines
          ((sliceBox xoff yoff zoff w h d lod).lineAt t)
          (· * lineStride (w.toNat * t.mElement.getSizeBytes) stride) a.block
        refs := refs } := by
  obtain ⟨refs, copied⟩ := @copySlices_eq _ _ _ _ _ _ _ _ _
    (lineStride (w.toNat * t.mElement.getSizeBytes) stride) (sliceCount zoff d) 0
    (of.slices_inside plain fits isIn)
  simp only [zero_add] at copied
  refine ⟨refs, ?_⟩
  unfold Alloc.rsdAllocationData3D
  rw [of.lineSize3D, lineSize3D_eq plain fits isIn]
  refine copied.trans (congrArg (fun block => some { a with block := block, refs := refs }) ?_)
  rw [lineCount_eq isIn]
  exact copy_congr (fun n lt => of.slicePtr plain isIn lt) fun _ _ => rfl

theorem Alloc.Of.read3D (of : a.Of t) : a.rsdAllocationRead3D xoff yoff zoff lod w h d stride buffer =
      some (copy a.block (w.toNat * t.mElement.getSizeBytes) (sliceBox xoff yoff zoff w h d lod).lines
        (· * lineStride (w.toNat * t.mElement.getSizeBytes) stride)
        ((sliceBox xoff yoff zoff w h d lod).lineAt t) buffer) := by
  unfold Alloc.rsdAllocationRead3D
  rw [of.lineSize3D, lineSize3D_eq plain fits isIn]
  refine (Alloc.readSlices_eq (of.slices_inside plain fits isIn)).trans (congrArg some ?_)
  simp only [zero_add]
  rw [lineCount_eq isIn]
  exact copy_congr (fun _ _ => rfl) fun n below => of.slicePtr plain isIn below

end

/-- Writing a box changes its cells to the source lines and no other cell, and reading it returns the
same lines. -/
def Exchanges3D (t : RsType) (lod : Nat) (xoff yoff zoff w h d : UInt32) : Prop :=
  ∀ (script : Bool) (block bytes : Memory) (stride bufferStride : Nat),
    Spaced (w.toNat * t.mElement.getSizeBytes) stride →
    Spaced (w.toNat * t.mElement.getSizeBytes) bufferStride →
    ∃ a a', rsdAllocationInit t script block = some a ∧
      a.rsdAllocationData3D xoff yoff zoff lod w h d (.buffer bytes) stride = some a' ∧
      (requestBox xoff yoff zoff w h d.toNat lod 0).Written t bytes
        (lineStride (w.toNat * t.mElement.getSizeBytes) stride) a'.block ∧
      (requestBox xoff yoff zoff w h d.toNat lod 0).Unchanged t block a'.block ∧
      ∀ buffer, ∃ out, a'.rsdAllocationRead3D xoff yoff zoff lod w h d bufferStride buffer = some out ∧
        (requestBox xoff yoff zoff w h d.toNat lod 0).Returned t bytes
          (lineStride (w.toNat * t.mElement.getSizeBytes) stride) out
          (lineStride (w.toNat * t.mElement.getSizeBytes) bufferStride)

structure Filled (t : RsType) (w h d : UInt32) : Prop where
  w : 0 < w.toNat
  h : 0 < h.toNat
  d : 0 < d.toNat
  size : 0 < t.mElement.getSizeBytes

theorem filled_of_has {c : Cell} {j slices face : Nat} (fewer : slices ≤ d.toNat)
    (has : (requestBox xoff yoff zoff w h slices lod face).Has c) (inCell : j < t.mElement.getSizeBytes) :
    Filled t w h d := by
  obtain ⟨-, -, inX, inY, inZ⟩ := has
  simp only [requestBox] at inX inY inZ
  constructor
  · omega
  · omega
  · omega
  · omega

theorem exchanges3D (plain : Plain t) (levels : t.mLodCount.toNat ≤ MAX_LOD) (fits : RowsFit t)
    (isIn : (requestBox xoff yoff zoff w h d.toNat lod 0).In t) (good : Filled t w h d → zoff = 0) :
    Exchanges3D t lod xoff yoff zoff w h d := by
  intro script block bytes stride bufferStride _ spaced
  have of : Alloc.Of t { type := t, laid := t, script := script, block := block } := ⟨rfl, rfl⟩
  obtain ⟨refs, written⟩ := Alloc.Of.data3D plain fits isIn of
  have slicesIn := sliceBox_in isIn
  by_cases filled : Filled t w h d
  · have whole : sliceBox xoff yoff zoff w h d lod = requestBox xoff yoff zoff w h d.toNat lod 0 := by
      simp [sliceBox, sliceCount, good filled]
    rw [← whole]
    exact ⟨_, _, if_pos levels, written, slicesIn.written plain fits bytes block _,
      slicesIn.unchanged plain fits bytes block _, fun buffer =>
        ⟨_, Alloc.Of.read3D plain fits isIn ⟨rfl, rfl⟩, slicesIn.returned plain fits bytes block buffer spaced.le⟩⟩
  · refine ⟨_, _, if_pos levels, written, ?_, ?_, fun buffer =>
      ⟨_, Alloc.Of.read3D plain fits isIn ⟨rfl, rfl⟩, ?_⟩⟩
    · exact fun c has j inCell => absurd (filled_of_has le_rfl has inCell) filled
    · intro c cellIn _ j inCell
      exact slicesIn.unchanged plain fits bytes block _ c cellIn
        (fun has => filled (filled_of_has (Nat.sub_le _ _) has inCell)) j inCell
    · intro n lt j inLine
      have lines := (Nat.zero_le n).trans_lt lt
      have line := (Nat.zero_le j).trans_lt inLine
      exact absurd ⟨Nat.pos_of_mul_pos_right line, Nat.pos_of_mul_pos_left lines, Nat.pos_of_mul_pos_right lines,
        Nat.pos_of_mul_pos_left line⟩ filled

theorem Exchanges3D.first_plane (isIn : (requestBox xoff yoff zoff w h d.toNat lod 0).In t)
    (exchanges : Exchanges3D t lod xoff yoff zoff w h d) (filled : Filled t w h d) : zoff = 0 := by
  by_contra later
  have behind : zoff.toNat ≠ 0 := fun zero => later (UInt32.toNat_inj.mp zero)
  obtain ⟨a, a', made, wrote, -, -, reads⟩ :=
    exchanges true (fun _ => 0) (fun _ => 0) 0 (w.toNat * t.mElement.getSizeBytes) (.inl rfl) (.inr le_rfl)
  obtain ⟨out, read, ret⟩ := reads fun _ => 1
  obtain ⟨rfl, -⟩ := init_eq made
  have of : a'.Of t := Alloc.Of.copySlices ⟨rfl, rfl⟩ wrote
  have wide := mul_pos filled.w filled.size
  have given : lineStride ((a'.elementSizeBytes * w).toNat) (w.toNat * t.mElement.getSizeBytes) =
      w.toNat * t.mElement.getSizeBytes := if_neg wide.ne'
  unfold Alloc.rsdAllocationRead3D at read
  dsimp only at read
  rw [given, of.lineSize3D] at read
  have fewer : sliceCount zoff d * lineCount yoff h ≤ d.toNat * h.toNat - 1 := by
    rw [lineCount_eq isIn]
    calc sliceCount zoff d * h.toNat ≤ (d.toNat - 1) * h.toNat :=
          Nat.mul_le_mul_right _ (show d.toNat - zoff.toNat ≤ _ by omega)
      _ = d.toNat * h.toNat - h.toNat := Nat.sub_one_mul _ _
      _ ≤ d.toNat * h.toNat - 1 := Nat.sub_le_sub_left filled.h _
  have kept := Alloc.readSlices_behind (Nat.mod_le _ _) ((zero_add _).le.trans (Nat.mul_le_mul_right _ fewer)) read
  have last := ret (d.toNat * h.toNat - 1) (Nat.sub_one_lt (mul_pos filled.d filled.h).ne') 0 wide
  rw [add_zero, show lineStride (w.toNat * t.mElement.getSizeBytes) (w.toNat * t.mElement.getSizeBytes) =
    w.toNat * t.mElement.getSizeBytes from if_neg wide.ne', kept] at last
  exact (by decide : (1 : UInt8) ≠ 0) last

theorem Exchanges3D.cell (plain : Plain t) (exchanges : Exchanges3D t 0 xoff yoff 0 1 1 1) : Exchanges2D t 0 0 xoff yoff 1 1 := by
  intro script block bytes stride bufferStride spaced bufferSpaced
  obtain ⟨a, a', made, wrote, -, unchanged, reads⟩ := exchanges script block bytes stride bufferStride spaced bufferSpaced
  have lineSize (a : Alloc) : a.elementSizeBytes.toNat * (1 : UInt32).toNat = (a.elementSizeBytes * 1).toNat := by
    rw [mul_one, UInt32.toNat_one, mul_one]
  obtain ⟨after, copied, rest⟩ := bind_eq_some_iff.mp wrote
  cases rest
  obtain ⟨rfl, -⟩ := init_eq made
  have of : a'.Of t := Alloc.Of.copyLines ⟨rfl, rfl⟩ copied
  refine ⟨_, a', made, ?_, unchanged, fun buffer => ?_⟩
  · rw [Alloc.data2D_eq_bind, lineSize]
    exact bind_eq_some_iff.mpr ⟨a', copied, Alloc.copyYuv_plain (of.type ▸ plain.notYuv)⟩
  · obtain ⟨out, read, ret⟩ := reads buffer
    obtain ⟨lines, first, rest⟩ := bind_eq_some_iff.mp read
    cases rest
    refine ⟨out, ?_, ret⟩
    rw [Alloc.rsdAllocationRead2D, lineSize]
    exact first

/-- Boxes with bytes are exchanged only if they start with the first plane, and these all are exactly
if the table has room for the levels and the rows fit. -/
theorem exchanges3D_iff (plain : Plain t) : (∀ lod xoff yoff zoff w h d, (requestBox xoff yoff zoff w h d.toNat lod 0).In t →
      Exchanges3D t lod xoff yoff zoff w h d → Filled t w h d → zoff = 0) ∧
    ((∀ lod xoff yoff zoff w h d, (requestBox xoff yoff zoff w h d.toNat lod 0).In t →
      (Filled t w h d → zoff = 0) → Exchanges3D t lod xoff yoff zoff w h d) ↔ t.mLodCount.toNat ≤ MAX_LOD ∧ RowsFit t) := by
  refine ⟨fun lod xoff yoff zoff w h d isIn exchanges filled => exchanges.first_plane isIn filled, ?_⟩
  constructor
  · intro exchanges
    have empty : (requestBox 0 0 0 0 0 0 0 0).In t :=
      ⟨plain.one_le_mLodCount, faceTotal_pos, Nat.zero_le _, Nat.zero_le _, Nat.zero_le _⟩
    obtain ⟨a, a', made, -⟩ := exchanges 0 0 0 0 0 0 0 empty (fun _ => rfl) true (fun _ => 0) (fun _ => 0) 0 0
      (.inl rfl) (.inl rfl)
    have plane := firstPlane_of_exchanges2D plain fun xoff yoff isIn =>
      (exchanges 0 xoff yoff 0 1 1 1 isIn fun _ => rfl).cell plain
    exact ⟨(init_eq made).2, plane.rowsFit plain⟩
  · rintro ⟨levels, fits⟩ lod xoff yoff zoff w h d isIn good
    exact exchanges3D plain levels fits isIn good

end

theorem exchanges3D_iff_box : Exchanges3D (planes 4 3 2 false) 0 1 1 0 2 2 2 := by
  have fits : RowsFit (planes 4 3 2 false) := .inr ⟨by decide, by decide, by decide⟩
  apply (exchanges3D_iff (planes_plain 4 3 2 false)).2.mpr ⟨by decide +kernel, fits⟩
  · constructor
    all_goals decide +kernel
  · exact fun _ => rfl

/-- Nothing is copied to the second plane, because `1 < 1` does not hold. -/
theorem exchanges3D_nothing : (requestBox 0 0 1 1 1 1 0 0).In (planes 4 3 2 false) ∧ Filled (planes 4 3 2 false) 1 1 1 ∧
    (∀ (a : Alloc) (bytes : Memory), a.rsdAllocationData3D 0 0 1 0 1 1 1 (.buffer bytes) 0 = some a) ∧
    ¬ Exchanges3D (planes 4 3 2 false) 0 0 0 1 1 1 1 := by
  have isIn : (requestBox 0 0 1 1 1 1 0 0).In (planes 4 3 2 false) := by
    constructor
    all_goals decide +kernel
  have filled : Filled (planes 4 3 2 false) 1 1 1 := ⟨by decide, by decide, by decide, by decide⟩
  refine ⟨isIn, filled, fun _ _ => rfl, fun exchanges => ?_⟩
  exact absurd (exchanges.first_plane isIn filled) (by decide)

/-!
## One dimension
-/

section

variable {t : RsType} {a a' : Alloc} {xoff count : UInt32} {lod x : Nat} {bytes buffer : Memory}

/-- Writing a range of a level changes its cells and no others, and reading it returns them. -/
def Exchanges1D (t : RsType) (lod : Nat) (xoff count : UInt32) : Prop :=
  ∀ (script : Bool) (block bytes : Memory),
    ∃ a a', rsdAllocationInit t script block = some a ∧
      a.data1D xoff lod count (.buffer bytes) (count.toNat * t.mElement.getSizeBytes) = some (a', false) ∧
      (requestBox xoff 0 0 count 1 1 lod 0).Written t bytes (count.toNat * t.mElement.getSizeBytes) a'.block ∧
      (requestBox xoff 0 0 count 1 1 lod 0).Unchanged t block a'.block ∧
      ∀ buffer, ∃ out,
        a'.read1D xoff lod count buffer (count.toNat * t.mElement.getSizeBytes) = some (out, false) ∧
        (requestBox xoff 0 0 count 1 1 lod 0).Returned t bytes (count.toNat * t.mElement.getSizeBytes) out
          (count.toNat * t.mElement.getSizeBytes)

theorem line_start : (requestBox xoff 0 0 count 1 1 0 0).lineAt t 0 = (planeCell xoff.toNat 0).offset t := by
  rw [Box.lineAt]
  simp [Box.lineCell, requestBox, planeCell]

theorem Alloc.Of.rangePtr (of : a.Of t) : a.getOffsetPtr xoff 0 0 0 0 = (requestBox xoff 0 0 count 1 1 0 0).lineAt t 0 := by
  rw [line_start, of.getOffsetPtr, UInt32.toNat_zero]
  rfl

theorem Alloc.Of.data1D_eq_map (of : a.Of t) : a.data1D xoff lod count (.buffer bytes) (count.toNat * t.mElement.getSizeBytes) =
      (a.copyCells ((requestBox xoff 0 0 count 1 1 0 0).lineAt t 0) bytes count.toNat
        (count.toNat * t.mElement.getSizeBytes)).map (·, false) := by
  rw [Alloc.data1D, of.type, if_neg (not_not.mpr rfl), Alloc.rsdAllocationData1D, of.type, of.rangePtr]
  rfl

theorem Alloc.Of.read1D_eq_map (of : a.Of t) : a.read1D xoff lod count buffer (count.toNat * t.mElement.getSizeBytes) =
      (a.load ((requestBox xoff 0 0 count 1 1 0 0).lineAt t 0)
        (count.toNat * t.mElement.getSizeBytes) 0 buffer).map (·, false) := by
  rw [Alloc.read1D, of.type, if_neg (not_not.mpr rfl), Alloc.rsdAllocationRead1D, of.type, of.rangePtr]

theorem Alloc.Of.range_inside (plain : Plain t) (fits : RowsFit t) (isIn : (requestBox xoff 0 0 count 1 1 0 0).In t) (of : a.Of t) :
    (requestBox xoff 0 0 count 1 1 0 0).lineAt t 0 + count.toNat * t.mElement.getSizeBytes ≤ a.table.allocSize :=
  of.table ▸ isIn.inside plain fits one_pos

theorem Alloc.Of.data1D (plain : Plain t) (fits : RowsFit t) (isIn : (requestBox xoff 0 0 count 1 1 0 0).In t) (of : a.Of t) :
    ∃ refs, a.data1D xoff lod count (.buffer bytes) (count.toNat * t.mElement.getSizeBytes) = some ({ a with
        block := copy bytes (count.toNat * t.mElement.getSizeBytes) 1
          ((requestBox xoff 0 0 count 1 1 0 0).lineAt t) (· * (count.toNat * t.mElement.getSizeBytes)) a.block
        refs := refs }, false) := by
  obtain ⟨refs, copied⟩ := Alloc.copyCells_eq (of.range_inside plain fits isIn)
  refine ⟨refs, of.data1D_eq_map.trans ?_⟩
  refine (congrArg (Option.map (·, false)) copied).trans ?_
  simp only [map_some, copy, Nat.zero_mul, zero_add]

theorem Alloc.Of.read1D (plain : Plain t) (fits : RowsFit t) (isIn : (requestBox xoff 0 0 count 1 1 0 0).In t) (of : a.Of t) :
    a.read1D xoff lod count buffer (count.toNat * t.mElement.getSizeBytes) =
      some (copy a.block (count.toNat * t.mElement.getSizeBytes) 1 (· * (count.toNat * t.mElement.getSizeBytes))
        ((requestBox xoff 0 0 count 1 1 0 0).lineAt t) buffer, false) := by
  have inside := of.range_inside plain fits isIn
  refine of.read1D_eq_map.trans ((congrArg (Option.map (·, false)) (Alloc.load_eq inside)).trans ?_)
  simp [copy]

theorem data1D_cell (of : a.Of t) (inX : x < t.dimX.toNat)
    (wrote : a.data1D (.ofNat x) lod 1 (.buffer bytes) ((1 : UInt32).toNat * t.mElement.getSizeBytes) = some (a', false)) :
    (planeCell x 0).offset t + t.mElement.getSizeBytes ≤ (allocationBuildPointerTable t).allocSize ∧
      a'.block = write a.block ⟨(planeCell x 0).offset t, t.mElement.getSizeBytes⟩ bytes := by
  have word := t.dimX.toNat_lt
  have place : (UInt32.ofNat x).toNat = x := by
    rw [UInt32.toNat_ofNat', Nat.mod_eq_of_lt (by omega)]
  rw [of.data1D_eq_map, line_start, place, UInt32.toNat_one, one_mul] at wrote
  obtain ⟨after, copied, eq⟩ := map_eq_some_iff.mp wrote
  cases eq
  obtain ⟨inside, refs, rfl⟩ := Alloc.copyCells_inv copied
  rw [of.table] at inside
  exact ⟨inside, rfl⟩

theorem first_range_in (plain : Plain t) (isIn : (requestBox xoff 0 0 count 1 1 lod 0).In t) :
    (requestBox xoff 0 0 count 1 1 0 0).In t := by
  have level := plain.mLodDim 0
  refine ⟨plain.one_le_mLodCount, faceTotal_pos, ?_, le_max_right _ _, le_max_right _ _⟩
  have within : Within (t.mLodDim lod) (firstLevel t) := by
    rw [plain.mLodDim]
    exact within_iterate _ _
  rw [show (requestBox xoff 0 0 count 1 1 0 0).lod = 0 from rfl, level]
  exact isIn.x.trans within.x

theorem exchanges1D (plain : Plain t) (levels : t.mLodCount.toNat ≤ MAX_LOD) (fits : RowsFit t)
    (isIn : (requestBox xoff 0 0 count 1 1 lod 0).In t) (good : Filled t count 1 1 → lod = 0) :
    Exchanges1D t lod xoff count := by
  intro script block bytes
  have of : Alloc.Of t { type := t, laid := t, script := script, block := block } := ⟨rfl, rfl⟩
  have firstIn := first_range_in plain isIn
  obtain ⟨refs, written⟩ := @Alloc.Of.data1D t _ xoff _ lod bytes plain fits firstIn of
  by_cases filled : Filled t count 1 1
  · obtain rfl := good filled
    exact ⟨_, _, if_pos levels, written, firstIn.written plain fits bytes block _,
      firstIn.unchanged plain fits bytes block _, fun buffer =>
        ⟨_, Alloc.Of.read1D plain fits firstIn ⟨rfl, rfl⟩, firstIn.returned plain fits bytes block buffer le_rfl⟩⟩
  · refine ⟨_, _, if_pos levels, written, ?_, ?_, fun buffer =>
      ⟨_, Alloc.Of.read1D plain fits firstIn ⟨rfl, rfl⟩, ?_⟩⟩
    · exact fun c has j inCell => absurd (filled_of_has le_rfl has inCell) filled
    · intro c cellIn _ j inCell
      exact firstIn.unchanged plain fits bytes block _ c cellIn (fun has => filled (filled_of_has le_rfl has inCell)) j inCell
    · intro n lt j inLine
      have line := (Nat.zero_le j).trans_lt inLine
      exact absurd ⟨Nat.pos_of_mul_pos_right line, one_pos, one_pos, Nat.pos_of_mul_pos_left line⟩ filled

theorem firstPlane_of_exchanges1D (plain : Plain t) (line : t.dimY = 0)
    (exchanges : ∀ xoff count, (requestBox xoff 0 0 count 1 1 0 0).In t → Exchanges1D t 0 xoff count) :
    FirstPlane t := by
  apply FirstPlane.of_write
  intro x inX y inY before bytes
  obtain rfl : y = 0 := by
    rw [line] at inY
    exact Nat.lt_one_iff.mp inY
  obtain ⟨inRequest, req⟩ := cell_request plain inX inY
  obtain ⟨a, a', made, wrote, -, unchanged, -⟩ := exchanges (.ofNat x) 1 inRequest true before bytes
  obtain ⟨rfl, -⟩ := init_eq made
  obtain ⟨inside, block⟩ := data1D_cell ⟨rfl, rfl⟩ inX wrote
  rw [block] at unchanged
  exact ⟨inside, req ▸ unchanged⟩

theorem Exchanges1D.first_level (plain : Plain t) (cells : 0 < t.dimX.toNat * t.mElement.getSizeBytes)
    (exchanges : Exchanges1D t lod 0 1) : lod = 0 := by
  by_contra other
  have wide : 0 < t.dimX.toNat := Nat.pos_of_mul_pos_right cells
  obtain ⟨a, a', made, wrote, -, unchanged, -⟩ := exchanges true (fun _ => 0) fun _ => 1
  obtain ⟨rfl, -⟩ := init_eq made
  obtain ⟨-, block⟩ := data1D_cell ⟨rfl, rfl⟩ wide wrote
  have eq := unchanged (planeCell 0 0) (plain.in_rowCell wide) (fun has => other has.lod.symm) 0
    (Nat.pos_of_mul_pos_left cells)
  rw [block, add_zero, write, if_pos ⟨le_rfl, Nat.lt_add_of_pos_right (Nat.pos_of_mul_pos_left cells)⟩] at eq
  exact (by decide : (1 : UInt8) ≠ 0) eq

/-- Ranges of a level are exchanged exactly if it is the first one and its row fits. -/
theorem exchanges1D_iff (plain : Plain t) (line : t.dimY = 0) (flat : t.dimZ = 0) (isLevel : lod < t.mLodCount.toNat) :
    (∀ xoff count, (requestBox xoff 0 0 count 1 1 lod 0).In t → Exchanges1D t lod xoff count) ↔
      t.mLodCount.toNat ≤ MAX_LOD ∧ (t.dimX.toNat * t.mElement.getSizeBytes = 0 ∨
          lod = 0 ∧ t.dimX.toNat * t.mElement.getSizeBytes + 15 < 2 ^ 32) := by
  constructor
  · intro exchanges
    have empty : (requestBox 0 0 0 0 1 1 lod 0).In t :=
      ⟨isLevel, faceTotal_pos, Nat.zero_le _, le_max_right _ _, le_max_right _ _⟩
    obtain ⟨a, a', made, -⟩ := exchanges 0 0 empty true (fun _ => 0) fun _ => 0
    refine ⟨(init_eq made).2, ?_⟩
    rcases eq_zero_or_pos (t.dimX.toNat * t.mElement.getSizeBytes) with none | cells
    · exact .inl none
    · have wide : 0 < t.dimX.toNat := Nat.pos_of_mul_pos_right cells
      have first : (requestBox 0 0 0 1 1 1 lod 0).In t := by
        refine ⟨isLevel, faceTotal_pos, ?_, le_max_right _ _, le_max_right _ _⟩
        exact (plain.in_origin wide isLevel faceTotal_pos).x
      obtain rfl := (exchanges 0 1 first).first_level plain cells
      have fits := (firstPlane_of_exchanges1D plain line exchanges).rowsFit plain
      exact .inr ⟨rfl, (fits.resolve_left cells.ne').1⟩
  · rintro ⟨levels, cond⟩ xoff count isIn
    have fits : RowsFit t := by
      rcases cond with none | ⟨-, short⟩
      · exact .inl none
      · exact .inr ⟨short, by simp [line], fun _ => by simp [flat]⟩
    refine exchanges1D plain levels fits isIn fun filled => ?_
    rcases cond with none | ⟨first, -⟩
    · have inX := (first_range_in plain isIn).width plain
      have range := (Nat.le_add_left _ _).trans inX
      have some := mul_pos (filled.w.trans_le range) filled.size
      exact absurd none some.ne'
    · exact first

end

theorem exchanges1D_iff_first : Exchanges1D (planes 6 0 0 true) 0 2 3 := by
  apply (exchanges1D_iff (planes_plain 6 0 0 true) rfl rfl (by decide +kernel)).mpr
  · exact ⟨by decide +kernel, .inr ⟨rfl, by decide⟩⟩
  · constructor
    all_goals decide +kernel

/-- A write to the second level. -/
theorem exchanges1D_second : Plain (planes 6 0 0 true) ∧ 1 < (planes 6 0 0 true).mLodCount.toNat ∧
    (requestBox 0 0 0 1 1 1 1 0).In (planes 6 0 0 true) ∧ ¬ Exchanges1D (planes 6 0 0 true) 1 0 1 := by
  refine ⟨planes_plain 6 0 0 true, by decide +kernel, ?_, fun exchanges => ?_⟩
  · constructor
    all_goals decide +kernel
  · cases exchanges.first_level (planes_plain 6 0 0 true) (by decide)

end RenderScript.Copies
