import RenderScript.Allocation.CopyBoxes
import RenderScript.Allocation.YuvPlanes

/-!
# Pictures that are uploaded

`rsdAllocationData2D` for images in YV12 and NV21. After the luma lines it copies the chroma
planes from the same source, to the coordinates of the luma and with the stride of the planes.
-/

namespace RenderScript.Copies
open ByteMemory LineCopies AlignedBytes RenderScript.Types Allocations

structure Picture (t : RsType) (format : PlanarFormat) : Prop where
  single : ¬ t.mLodCount > 1
  yuv : t.dimYuv = format.yuv
  bytes : t.mElement.getSizeBytes = 1
  flat : t.dimZ = 0
  oneFace : t.faces = false

structure Rectangle (t : RsType) where
  xoff : UInt32
  yoff : UInt32
  w : UInt32
  h : UInt32
  evenX : 2 ∣ xoff.toNat
  evenY : 2 ∣ yoff.toNat
  evenW : 2 ∣ w.toNat
  evenH : 2 ∣ h.toNat
  wide : 0 < w.toNat
  inX : xoff.toNat + w.toNat ≤ t.dimX.toNat
  inY : yoff.toNat + h.toNat ≤ t.dimY.toNat

inductive ChromaOrder where
  | crFirst
  | cbFirst
  deriving DecidableEq

/-- Where the samples of a picture without padding are. NV21 has one plane for both. -/
def packedSamples (w h : Nat) : PlanarFormat → ChromaOrder → Samples
  | .yv12, .crFirst => .ofPlanes 0 (w * h + h / 2 * (w / 2)) (w * h) w (w / 2) 1
  | .yv12, .cbFirst => .ofPlanes 0 (w * h) (w * h + h / 2 * (w / 2)) w (w / 2) 1
  | .nv21, _ => .ofPlanes 0 (w * h + 1) (w * h) w w 2

def imageSamples (t : RsType) (format : PlanarFormat) : Samples :=
  format.samples 0 (alignUp 16 t.dimX.toNat) t.dimY.toNat

namespace Rectangle

variable {t : RsType} (r : Rectangle t)

structure Has (x y : Nat) : Prop where
  left : r.xoff.toNat ≤ x
  right : x < r.xoff.toNat + r.w.toNat
  top : r.yoff.toNat ≤ y
  bottom : y < r.yoff.toNat + r.h.toNat

/-- The samples of the rectangle are those of the source, and all others as before. -/
structure LumaCopied (format : PlanarFormat) (order : ChromaOrder) (before bytes after : Memory) : Prop where
  copied : ∀ i < r.h.toNat, ∀ j < r.w.toNat,
    after ((imageSamples t format).y (r.xoff.toNat + j) (r.yoff.toNat + i)) =
      bytes ((packedSamples r.w.toNat r.h.toNat format order).y j i)
  kept : ∀ x < t.dimX.toNat, ∀ y < t.dimY.toNat, ¬ r.Has x y →
    after ((imageSamples t format).y x y) = before ((imageSamples t format).y x y)

/-- The same for the blocks of two by two pixels. The last pixels of an odd row or column have no
chroma samples. -/
structure ChromaCopied (format : PlanarFormat) (order : ChromaOrder) (before bytes after : Memory) : Prop where
  cb : ∀ i < r.h.toNat, ∀ j < r.w.toNat,
    after ((imageSamples t format).cb (r.xoff.toNat + j) (r.yoff.toNat + i)) =
      bytes ((packedSamples r.w.toNat r.h.toNat format order).cb j i)
  cr : ∀ i < r.h.toNat, ∀ j < r.w.toNat,
    after ((imageSamples t format).cr (r.xoff.toNat + j) (r.yoff.toNat + i)) =
      bytes ((packedSamples r.w.toNat r.h.toNat format order).cr j i)
  cbKept : ∀ x y, x / 2 < t.dimX.toNat / 2 → y / 2 < t.dimY.toNat / 2 → ¬ r.Has x y →
    after ((imageSamples t format).cb x y) = before ((imageSamples t format).cb x y)
  crKept : ∀ x y, x / 2 < t.dimX.toNat / 2 → y / 2 < t.dimY.toNat / 2 → ¬ r.Has x y →
    after ((imageSamples t format).cr x y) = before ((imageSamples t format).cr x y)

def Copied (format : PlanarFormat) (order : ChromaOrder) (before bytes after : Memory) : Prop :=
  r.LumaCopied format order before bytes after ∧ r.ChromaCopied format order before bytes after

/-- Every picture of the size of the rectangle gets there, whatever the image held. -/
def Uploads (format : PlanarFormat) (order : ChromaOrder) : Prop :=
  ∀ (script : Bool) (block bytes : Memory) (stride : Nat), stride = 0 ∨ stride = r.w.toNat →
    ∃ a after, rsdAllocationInit t script block = some a ∧
      a.rsdAllocationData2D r.xoff r.yoff 0 0 r.w r.h (.buffer bytes) stride = some after ∧
      r.Copied format order block bytes after.block

/-- The chroma lines are at the coordinates of the luma, and as far apart in the source as in the
image. -/
def Fits (format : PlanarFormat) (order : ChromaOrder) : Prop :=
  r.h = 0 ∨ t.dimX.toNat + 15 < 2 ^ 32 ∧
    match format with
    | .yv12 => order = .cbFirst ∧ r.xoff = 0 ∧ r.yoff = 0 ∧
        r.w.toNat / 2 = alignUp 16 (alignUp 16 t.dimX.toNat / 2)
    | .nv21 => r.yoff = 0 ∧ (r.h.toNat ≤ 2 ∨ r.w.toNat = alignUp 16 t.dimX.toNat)

end Rectangle

theorem Alloc.copyCells_zero (a : Alloc) (dst : Nat) (src : Memory) (size : Nat) : a.copyCells dst src 0 size = a.store dst size src := by
  unfold Alloc.copyCells Alloc.decRefs
  split
  · split <;> rfl
  · rfl

variable {src : Source} {lines : Nat}

/-- No references are counted for the chroma lines. -/
theorem copyChromaLines_eq {a : Alloc} {clineSize lodStride dst : Nat} :
    copyChromaLines clineSize lodStride lines dst src a = copyLines 0 clineSize lodStride lodStride lines dst src a := by
  induction lines generalizing dst src a with
  | zero => rfl
  | succ lines ih => simp [copyChromaLines, copyLines, Alloc.copyCells_zero, ih]

section

variable {t : RsType} {format : PlanarFormat} {a after : Alloc} {bytes : Memory} {stride : Nat}

/-- Lines that start in the upper left corner of the rectangle, with luma coordinates. -/
def Rectangle.lineAt (r : Rectangle t) (lod : LodState) (i : Nat) : Nat :=
  lod.mallocPtr + r.yoff.toNat * lod.stride + r.xoff.toNat + i * lod.stride

def Rectangle.lumaBlock (r : Rectangle t) (bytes block : Memory) : Memory :=
  copy bytes r.w.toNat r.h.toNat (r.lineAt ((allocationBuildPointerTable t).lod 0)) (· * r.w.toNat) block

def Rectangle.chromaBlock (r : Rectangle t) (n start : Nat) (lod : LodState) (bytes block : Memory) : Memory :=
  copy bytes n (r.h.toNat / 2) (r.lineAt lod) (fun i => start + i * lod.stride) block

def Rectangle.newBlock (r : Rectangle t) (format : PlanarFormat) (bytes block : Memory) : Memory :=
  let lod := (allocationBuildPointerTable t).lod
  match format with
  | .yv12 =>
    r.chromaBlock (r.w.toNat / 2) (r.h.toNat * r.w.toNat + r.h.toNat / 2 * (lod 1).stride) (lod 2) bytes
      (r.chromaBlock (r.w.toNat / 2) (r.h.toNat * r.w.toNat) (lod 1) bytes (r.lumaBlock bytes block))
  | .nv21 =>
    r.chromaBlock r.w.toNat (r.h.toNat * r.w.toNat) (lod 2) bytes (r.lumaBlock bytes block)

def Rectangle.LinesInside (r : Rectangle t) (n lines : Nat) (lod : LodState) : Prop :=
  ∀ i < lines, r.lineAt lod i + n ≤ (allocationBuildPointerTable t).allocSize

def Rectangle.Inside (r : Rectangle t) (format : PlanarFormat) : Prop :=
  let lod := (allocationBuildPointerTable t).lod
  r.LinesInside r.w.toNat r.h.toNat (lod 0) ∧
    match format with
    | .yv12 => r.LinesInside (r.w.toNat / 2) (r.h.toNat / 2) (lod 1) ∧
        r.LinesInside (r.w.toNat / 2) (r.h.toNat / 2) (lod 2)
    | .nv21 => r.LinesInside r.w.toNat (r.h.toNat / 2) (lod 2)

namespace Rectangle

variable {rest : List Nat} (r : Rectangle t)

theorem lineCount_eq : lineCount r.yoff r.h = r.h.toNat := by
  have inY := r.inY
  have word := t.dimY.toNat_lt
  rw [lineCount, UInt32.toNat_add, Nat.mod_eq_of_lt (by omega), Nat.add_sub_cancel_left]

theorem chromaLineCount_eq : chromaLineCount r.yoff r.h = r.h.toNat / 2 := by
  have inY := r.inY
  have word := t.dimY.toNat_lt
  have evenY := r.evenY
  rw [chromaLineCount, UInt32.toNat_shiftRight, UInt32.toNat_shiftRight, UInt32.toNat_add, Nat.mod_eq_of_lt (by omega)]
  change (r.yoff.toNat + r.h.toNat) >>> 1 - r.yoff.toNat >>> 1 = _
  omega

theorem getOffsetPtr_eq (bytes : t.mElement.getSizeBytes = 1) (of : a.Of t) (lod : Nat) :
    a.getOffsetPtr r.xoff r.yoff 0 lod 0 = r.lineAt ((allocationBuildPointerTable t).lod lod) 0 := by
  rw [Alloc.getOffsetPtr, of.table, Alloc.elementSizeBytes, of.type, bytes, Allocations.getOffsetPtr, lineAt,
    UInt32.zero_mul, UInt32.toNat_zero, Nat.zero_mul, Nat.zero_mul]
  exact congrArg (fun x : UInt32 => _ + 0 + 0 + _ + x.toNat) (mul_one _)

theorem lineAt_eq (lod : LodState) (i : Nat) : r.lineAt lod i = r.lineAt lod 0 + i * lod.stride := by
  rw [lineAt, lineAt, Nat.zero_mul, add_zero]

/-- One plane, of which the source starts at `start`. -/
theorem copyChroma_cons (sizeBytes : t.mElement.getSizeBytes = 1) (of : a.Of t) {n lod start : Nat}
    (inside : r.LinesInside n (r.h.toNat / 2) ((allocationBuildPointerTable t).lod lod)) :
    ∃ refs, copyChroma r.xoff r.yoff r.h 0 n (lod :: rest) (.buffer fun i => bytes (start + i)) a =
      copyChroma r.xoff r.yoff r.h 0 n rest (.buffer fun i =>
          bytes (start + r.h.toNat / 2 * ((allocationBuildPointerTable t).lod lod).stride + i))
        { a with block := r.chromaBlock n start ((allocationBuildPointerTable t).lod lod) bytes a.block, refs := refs } := by
  obtain ⟨refs, lines⟩ := @copyLines_eq _ _ _ _ _ ((allocationBuildPointerTable t).lod lod).stride (r.h.toNat / 2)
    (r.lineAt ((allocationBuildPointerTable t).lod lod) 0) start fun i lt => by
      rw [← lineAt_eq, of.table]
      exact inside i lt
  simp only [← lineAt_eq] at lines
  refine ⟨refs, ?_⟩
  rw [copyChroma, r.chromaLineCount_eq, r.getOffsetPtr_eq sizeBytes of, of.table, copyChromaLines_eq, lines,
    Source.advance_buffer]
  rfl

theorem inside_of_copyChroma (sizeBytes : t.mElement.getSizeBytes = 1) (of : a.Of t) {n lod : Nat}
        (copied : copyChroma r.xoff r.yoff r.h 0 n (lod :: rest) src a = some after) :
    r.LinesInside n (r.h.toNat / 2) ((allocationBuildPointerTable t).lod lod) := by
  obtain ⟨next, lines, -⟩ := Option.bind_eq_some_iff.mp copied
  intro i lt
  have inside := inside_of_copyLines (copyChromaLines_eq.symm.trans lines) i (lt.trans_eq r.chromaLineCount_eq.symm)
  rwa [r.getOffsetPtr_eq sizeBytes of, of.table, ← lineAt_eq] at inside

theorem data2D_eq_bind (sizeBytes : t.mElement.getSizeBytes = 1) (of : a.Of t) (tight : stride = 0 ∨ stride = r.w.toNat) :
    a.rsdAllocationData2D r.xoff r.yoff 0 0 r.w r.h (.buffer bytes) stride =
      (copyLines r.w.toNat r.w.toNat r.w.toNat ((allocationBuildPointerTable t).lod 0).stride r.h.toNat
        (r.lineAt ((allocationBuildPointerTable t).lod 0) 0) (.buffer bytes) a).bind fun next =>
          next.copyYuv r.xoff r.yoff 0 r.h r.w.toNat (.buffer fun i => bytes (r.h.toNat * r.w.toNat + i)) := by
  have lineSize : a.elementSizeBytes.toNat * r.w.toNat = r.w.toNat := by
    rw [of.elementSizeBytes, sizeBytes]
    exact Nat.one_mul _
  have spacing : lineStride r.w.toNat stride = r.w.toNat := by
    unfold lineStride
    split
    · rfl
    · exact tight.resolve_left (by assumption)
  rw [Alloc.data2D_eq_bind, lineSize, spacing, r.lineCount_eq, r.getOffsetPtr_eq sizeBytes of, of.table]
  rfl

theorem copyLuma_eq (of : a.Of t) (inside : r.LinesInside r.w.toNat r.h.toNat ((allocationBuildPointerTable t).lod 0)) :
    ∃ refs, copyLines r.w.toNat r.w.toNat r.w.toNat ((allocationBuildPointerTable t).lod 0).stride r.h.toNat
        (r.lineAt ((allocationBuildPointerTable t).lod 0) 0) (.buffer bytes) a =
      some { a with block := r.lumaBlock bytes a.block, refs := refs } := by
  obtain ⟨refs, copied⟩ := @copyLines_eq _ _ _ _ _ ((allocationBuildPointerTable t).lod 0).stride r.h.toNat
    (r.lineAt ((allocationBuildPointerTable t).lod 0) 0) 0 fun i lt => by
      rw [← lineAt_eq, of.table]
      exact inside i lt
  simp only [zero_add, ← lineAt_eq] at copied
  exact ⟨refs, copied⟩

theorem inside_of_copyLuma (of : a.Of t)
    (copied : copyLines r.w.toNat r.w.toNat r.w.toNat ((allocationBuildPointerTable t).lod 0).stride r.h.toNat
      (r.lineAt ((allocationBuildPointerTable t).lod 0) 0) src a = some after) :
    r.LinesInside r.w.toNat r.h.toNat ((allocationBuildPointerTable t).lod 0) := by
  intro i lt
  have inside := inside_of_copyLines copied i lt
  rwa [of.table, ← lineAt_eq] at inside

variable (picture : Picture t format) (of : a.Of t) (tight : stride = 0 ∨ stride = r.w.toNat)

theorem copyYuv_yv12 (picture : Picture t .yv12) (of : a.Of t) :
    a.copyYuv r.xoff r.yoff 0 r.h r.w.toNat src = copyChroma r.xoff r.yoff r.h 0 (r.w.toNat / 2) [1, 2] src a := by
  unfold Alloc.copyYuv
  rw [of.type, picture.yuv, if_neg (by decide), if_pos (by decide), Nat.shiftRight_one]

theorem copyYuv_nv21 (picture : Picture t .nv21) (of : a.Of t) :
    a.copyYuv r.xoff r.yoff 0 r.h r.w.toNat src = copyChroma r.xoff r.yoff r.h 0 r.w.toNat [2] src a := by
  unfold Alloc.copyYuv
  rw [of.type, picture.yuv, if_neg (by decide), if_neg (by decide), if_pos (by decide)]

include picture of tight

theorem data2D_eq (inside : r.Inside format) : ∃ refs, a.rsdAllocationData2D r.xoff r.yoff 0 0 r.w r.h (.buffer bytes) stride =
      some { a with block := r.newBlock format bytes a.block, refs := refs } := by
  obtain ⟨inLuma, inChroma⟩ := inside
  obtain ⟨refs, luma⟩ := copyLuma_eq r of inLuma
  have of' : Alloc.Of t { a with block := r.lumaBlock bytes a.block, refs := refs } := ⟨of.type, of.laid⟩
  rw [r.data2D_eq_bind picture.bytes of tight, luma, Option.bind_some]
  cases format with
  | yv12 =>
    obtain ⟨refs, cb⟩ := r.copyChroma_cons picture.bytes of' inChroma.1
    rw [r.copyYuv_yv12 picture of', cb]
    refine r.copyChroma_cons picture.bytes ?_ inChroma.2
    exact ⟨of.type, of.laid⟩
  | nv21 =>
    rw [r.copyYuv_nv21 picture of']
    exact r.copyChroma_cons picture.bytes of' inChroma

theorem inside_of_data2D (copied : a.rsdAllocationData2D r.xoff r.yoff 0 0 r.w r.h (.buffer bytes) stride = some after) :
    r.Inside format := by
  rw [r.data2D_eq_bind picture.bytes of tight] at copied
  obtain ⟨next, luma, rest⟩ := Option.bind_eq_some_iff.mp copied
  have of' : Alloc.Of t next := of.copyLines luma
  refine ⟨r.inside_of_copyLuma of luma, ?_⟩
  obtain ⟨refs, copiedLuma⟩ := copyLuma_eq r of (r.inside_of_copyLuma of luma)
  cases luma.symm.trans copiedLuma
  cases format with
  | yv12 =>
    rw [r.copyYuv_yv12 picture of'] at rest
    have inFirst := r.inside_of_copyChroma picture.bytes of' rest
    obtain ⟨refs, cb⟩ := r.copyChroma_cons picture.bytes of' inFirst
    rw [cb] at rest
    refine ⟨inFirst, r.inside_of_copyChroma picture.bytes ?_ rest⟩
    exact ⟨of.type, of.laid⟩
  | nv21 =>
    rw [r.copyYuv_nv21 picture of'] at rest
    exact r.inside_of_copyChroma picture.bytes of' rest

end Rectangle

theorem Rectangle.uploads_iff (r : Rectangle t) (picture : Picture t format) {order : ChromaOrder} : r.Uploads format order ↔
      r.Inside format ∧ ∀ block bytes, r.Copied format order block bytes (r.newBlock format bytes block) := by
  constructor
  · intro uploads
    have made (block bytes : Memory) : r.Inside format ∧ r.Copied format order block bytes (r.newBlock format bytes block) := by
      obtain ⟨a, after, created, copied, samples⟩ := uploads true block bytes 0 (.inl rfl)
      obtain ⟨rfl, -⟩ := init_eq created
      have of : Alloc.Of t { type := t, laid := t, script := true, block := block } := ⟨rfl, rfl⟩
      have inside := r.inside_of_data2D picture of (.inl rfl) copied
      obtain ⟨refs, result⟩ := r.data2D_eq picture of (.inl rfl) inside
      cases copied.symm.trans result
      exact ⟨inside, samples⟩
    exact ⟨(made (fun _ => 0) fun _ => 0).1, fun block bytes => (made block bytes).2⟩
  · rintro ⟨inside, samples⟩ script block bytes stride tight
    have levels : t.mLodCount.toNat ≤ MAX_LOD := (UInt32.le_iff_toNat_le.mp (UInt32.not_lt.mp picture.single)).trans (by decide)
    obtain ⟨refs, copied⟩ := @Rectangle.data2D_eq t _ ⟨t, t, script, block, fun _ => 0⟩ bytes stride r picture
      ⟨rfl, rfl⟩ tight inside
    exact ⟨_, _, if_pos levels, copied, samples block bytes⟩

end

section

variable {t : RsType} {format : PlanarFormat}

theorem Picture.table (picture : Picture t format) :
    let lod := (allocationBuildPointerTable t).lod
    let first := LodState.ofLevel 1 { x := t.dimX, y := t.dimY, z := 0 } 0
    let chroma := deriveYUVLayout format.yuv first
    lod 0 = first ∧ lod 1 = chroma.1 ∧ lod 2 = chroma.2.1 ∧
      (allocationBuildPointerTable t).allocSize = first.bytes + chroma.2.2 := by
  have set : format.yuv ≠ 0 := by
    cases format with
    | yv12 => decide
    | nv21 => decide
  simp only [allocationBuildPointerTable, picture.bytes, picture.yuv, picture.flat, picture.oneFace,
    if_neg picture.single, if_pos set]
  exact ⟨rfl, rfl, rfl, rfl⟩

theorem Picture.allocSize_wide (picture : Picture t format) (overflows : 2 ^ 32 ≤ t.dimX.toNat + 15) :
    (allocationBuildPointerTable t).allocSize = 0 := by
  have word := t.dimX.toNat_lt
  have none : rsRound (t.dimX.toNat * 1) 16 = 0 := by
    rw [rsRound_sixteen]
    omega
  have chroma : rsRound (0 >>> 1) 16 = 0 := by decide
  rw [picture.table.2.2.2]
  cases format with
  | yv12 =>
    change rsRound (t.dimX.toNat * 1) 16 * _ * _ +
      (rsRound (rsRound (t.dimX.toNat * 1) 16 >>> 1) 16 * _ + rsRound (rsRound (t.dimX.toNat * 1) 16 >>> 1) 16 * _) = 0
    rw [none, chroma]
    simp
  | nv21 =>
    change rsRound (t.dimX.toNat * 1) 16 * _ * _ + rsRound (t.dimX.toNat * 1) 16 * _ = 0
    rw [none]
    simp

variable (fits : t.dimX.toNat + 15 < 2 ^ 32)

include fits

theorem stride_eq : rsRound (t.dimX.toNat * 1) 16 = alignUp 16 t.dimX.toNat := by
  rw [mul_one]
  exact rsRound_eq fits

theorem chromaStride_eq : rsRound (alignUp 16 t.dimX.toNat >>> 1) 16 = alignUp 16 (alignUp 16 t.dimX.toNat / 2) := by
  have lt : alignUp 16 t.dimX.toNat < t.dimX.toNat + 16 := alignUp_lt (by decide) _
  exact rsRound_eq (by omega)

theorem Picture.luma (picture : Picture t format) :
    let lod := (allocationBuildPointerTable t).lod 0
    lod.mallocPtr = 0 ∧ lod.stride = alignUp 16 t.dimX.toNat := by
  rw [picture.table.1]
  exact ⟨rfl, stride_eq fits⟩

theorem firstBytes_eq (some : 0 < t.dimY.toNat) : (LodState.ofLevel 1 { x := t.dimX, y := t.dimY, z := 0 } 0).bytes =
      alignUp 16 t.dimX.toNat * t.dimY.toNat := by
  change rsRound (t.dimX.toNat * 1) 16 * (max t.dimY 1).toNat * 1 = _
  rw [stride_eq fits, toNat_max, UInt32.toNat_one, max_eq_left some, mul_one]

theorem Picture.yv12 (picture : Picture t .yv12) (some : 0 < t.dimY.toNat) :
    let d := allocationBuildPointerTable t
    let cstride := alignUp 16 (alignUp 16 t.dimX.toNat / 2)
    let luma := alignUp 16 t.dimX.toNat * t.dimY.toNat
    let plane := cstride * (t.dimY.toNat / 2)
    (d.lod 1).mallocPtr = luma + plane ∧ (d.lod 1).stride = cstride ∧
      (d.lod 2).mallocPtr = luma ∧ (d.lod 2).stride = cstride ∧ d.allocSize = luma + (plane + plane) := by
  obtain ⟨-, one, two, size⟩ := picture.table
  have half : (t.dimY / 2).toNat = t.dimY.toNat / 2 := UInt32.toNat_div _ _
  dsimp only
  rw [one, two, size, firstBytes_eq fits some, ← chromaStride_eq fits, ← stride_eq fits, ← half]
  exact ⟨rfl, rfl, rfl, rfl, rfl⟩

theorem Picture.nv21 (picture : Picture t .nv21) (some : 0 < t.dimY.toNat) :
    let d := allocationBuildPointerTable t
    let luma := alignUp 16 t.dimX.toNat * t.dimY.toNat
    (d.lod 2).mallocPtr = luma ∧ (d.lod 2).stride = alignUp 16 t.dimX.toNat ∧
      d.allocSize = luma + alignUp 16 t.dimX.toNat * (t.dimY.toNat / 2) := by
  obtain ⟨-, -, two, size⟩ := picture.table
  have half : (t.dimY / 2).toNat = t.dimY.toNat / 2 := UInt32.toNat_div _ _
  dsimp only
  rw [two, size, firstBytes_eq fits some, ← stride_eq fits, ← half]
  exact ⟨rfl, rfl, rfl⟩

end

section

variable {t : RsType} (r : Rectangle t) {lod : LodState} {bytes block : Memory} {n start i j location : Nat}

namespace Rectangle

theorem lineAt_row (lod : LodState) (i : Nat) :
    r.lineAt lod i = lod.mallocPtr + (r.yoff.toNat + i) * lod.stride + r.xoff.toNat := by
  rw [lineAt, add_mul]
  omega

theorem lineAt_apart (narrow : n ≤ lod.stride) : Apart n lines (r.lineAt lod) := by
  intro k l before lt
  have apart := @apart_mul n lines _ narrow k l before lt
  dsimp only at apart
  rw [lineAt, lineAt]
  omega

theorem chromaBlock_at (narrow : n ≤ lod.stride) (inLines : i < r.h.toNat / 2) (inside : j < n) :
    r.chromaBlock n start lod bytes block (r.lineAt lod i + j) = bytes (start + i * lod.stride + j) :=
  copy_at (r.lineAt_apart narrow) inLines inside

theorem outside_lines {row column : Nat} (width : r.xoff.toNat + n ≤ lod.stride) (inRow : column < lod.stride)
    (other : ¬ (r.yoff.toNat ≤ row ∧ row < r.yoff.toNat + lines ∧ r.xoff.toNat ≤ column ∧ column < r.xoff.toNat + n)) :
    Outside n lines (r.lineAt lod) (lod.mallocPtr + row * lod.stride + column) := by
  intro i lt
  rw [lineAt_row]
  rcases lt_trichotomy row (r.yoff.toNat + i) with above | rfl | under
  · have rows : (row + 1) * lod.stride ≤ (r.yoff.toNat + i) * lod.stride := Nat.mul_le_mul_right _ above
    rw [Nat.succ_mul] at rows
    omega
  · by_contra inside
    exact other (by omega)
  · have rows : (r.yoff.toNat + i + 1) * lod.stride ≤ row * lod.stride := Nat.mul_le_mul_right _ under
    rw [Nat.succ_mul] at rows
    omega

theorem chromaBlock_before (before : location < r.lineAt lod 0) :
    r.chromaBlock n start lod bytes block location = block location := by
  refine copy_outside fun i _ => .inl ?_
  rw [lineAt_eq]
  exact Nat.lt_add_right _ before

theorem chromaBlock_behind (narrow : n ≤ lod.stride) (behind : r.lineAt lod 0 + r.h.toNat / 2 * lod.stride ≤ location) :
    r.chromaBlock n start lod bytes block location = block location := by
  refine copy_outside fun i lt => .inr ?_
  rw [lineAt_eq]
  calc r.lineAt lod 0 + i * lod.stride + n ≤ r.lineAt lod 0 + (i + 1) * lod.stride := by
        rw [Nat.succ_mul]
        omega
    _ ≤ r.lineAt lod 0 + r.h.toNat / 2 * lod.stride := Nat.add_le_add_left (Nat.mul_le_mul_right _ lt) _
    _ ≤ location := behind

theorem mallocPtr_le_lineAt (lod : LodState) (i : Nat) : lod.mallocPtr ≤ r.lineAt lod i := by
  rw [lineAt]
  omega

/-!
### Luma
-/

variable {format : PlanarFormat} (picture : Picture t format) (fits : t.dimX.toNat + 15 < 2 ^ 32)

theorem width_le : r.xoff.toNat + r.w.toNat ≤ alignUp 16 t.dimX.toNat := r.inX.trans (le_alignUp (by decide) _)

theorem chromaWidth_le : r.xoff.toNat / 2 + r.w.toNat / 2 ≤ alignUp 16 (alignUp 16 t.dimX.toNat / 2) := by
  have inX := r.width_le
  have half : alignUp 16 t.dimX.toNat / 2 ≤ alignUp 16 (alignUp 16 t.dimX.toNat / 2) := le_alignUp (by decide) _
  omega

theorem pixel_lt {stride x y rows : Nat} (inX : x < stride) (inY : y < rows) : y * stride + x < stride * rows := by
  calc y * stride + x < y * stride + stride := Nat.add_lt_add_left inX _
    _ = (y + 1) * stride := (Nat.succ_mul y stride).symm
    _ ≤ rows * stride := Nat.mul_le_mul_right stride inY
    _ = stride * rows := mul_comm _ _

include picture fits

theorem luma_lineAt (i : Nat) : r.lineAt ((allocationBuildPointerTable t).lod 0) i =
    (r.yoff.toNat + i) * alignUp 16 t.dimX.toNat + r.xoff.toNat := by
  obtain ⟨ptr, stride⟩ := picture.luma fits
  rw [lineAt_row, ptr, stride, zero_add]

theorem luma_line_le (lt : i < r.h.toNat) : r.lineAt ((allocationBuildPointerTable t).lod 0) i + r.w.toNat ≤
      alignUp 16 t.dimX.toNat * t.dimY.toNat := by
  have inY := r.inY
  have wide := r.wide
  have width := r.width_le
  have last := @pixel_lt (alignUp 16 t.dimX.toNat) (r.xoff.toNat + r.w.toNat - 1) (r.yoff.toNat + i)
    t.dimY.toNat (by omega) (by omega)
  rw [r.luma_lineAt picture fits]
  omega

theorem lumaBlock_at (inLines : i < r.h.toNat) (inside : j < r.w.toNat) :
    r.lumaBlock bytes block ((r.yoff.toNat + i) * alignUp 16 t.dimX.toNat + (r.xoff.toNat + j)) = bytes (i * r.w.toNat + j) := by
  have narrow : r.w.toNat ≤ ((allocationBuildPointerTable t).lod 0).stride := by
    rw [(picture.luma fits).2]
    exact (Nat.le_add_left _ _).trans r.width_le
  rw [← add_assoc, ← r.luma_lineAt picture fits]
  exact copy_at (r.lineAt_apart narrow) inLines inside

theorem lumaBlock_behind (behind : alignUp 16 t.dimX.toNat * t.dimY.toNat ≤ location) :
    r.lumaBlock bytes block location = block location :=
  copy_outside fun _ lt => .inr ((r.luma_line_le picture fits lt).trans behind)

theorem lumaBlock_other {x y : Nat} (inX : x < t.dimX.toNat) (other : ¬ r.Has x y) :
    r.lumaBlock bytes block (y * alignUp 16 t.dimX.toNat + x) = block (y * alignUp 16 t.dimX.toNat + x) := by
  obtain ⟨ptr, stride⟩ := picture.luma fits
  have out : Outside r.w.toNat r.h.toNat (r.lineAt ((allocationBuildPointerTable t).lod 0))
      (((allocationBuildPointerTable t).lod 0).mallocPtr + y * ((allocationBuildPointerTable t).lod 0).stride + x) := by
    apply r.outside_lines
    · rw [stride]
      exact r.width_le
    · rw [stride]
      exact inX.trans_le (le_alignUp (by decide) _)
    · rintro ⟨top, bottom, left, right⟩
      exact other ⟨left, right, top, bottom⟩
  rw [ptr, stride, zero_add] at out
  exact copy_outside out

theorem newBlock_luma (some : 0 < t.dimY.toNat) (before : location < alignUp 16 t.dimX.toNat * t.dimY.toNat) :
    r.newBlock format bytes block location = r.lumaBlock bytes block location := by
  cases format with
  | yv12 =>
    obtain ⟨one, -, two, -⟩ := picture.yv12 fits some
    have first := r.mallocPtr_le_lineAt ((allocationBuildPointerTable t).lod 1) 0
    have second := r.mallocPtr_le_lineAt ((allocationBuildPointerTable t).lod 2) 0
    rw [newBlock, r.chromaBlock_before (by omega), r.chromaBlock_before (by omega)]
  | nv21 =>
    obtain ⟨two, -⟩ := picture.nv21 fits some
    have second := r.mallocPtr_le_lineAt ((allocationBuildPointerTable t).lod 2) 0
    rw [newBlock, r.chromaBlock_before (by omega)]

end Rectangle

end

section

variable {t : RsType} {r : Rectangle t} {order : ChromaOrder} {bytes block : Memory}

namespace Rectangle

theorem lumaCopied {format : PlanarFormat} (picture : Picture t format) (fits : t.dimX.toNat + 15 < 2 ^ 32)
    (some : 0 < t.dimY.toNat) : r.LumaCopied format order block bytes (r.newBlock format bytes block) := by
  have place (x y : Nat) : (imageSamples t format).y x y = y * alignUp 16 t.dimX.toNat + x := by
    cases format with
    | yv12 => exact congrArg (· + x) (zero_add _)
    | nv21 => exact congrArg (· + x) (zero_add _)
  have source (j i : Nat) : (packedSamples r.w.toNat r.h.toNat format order).y j i = i * r.w.toNat + j := by
    cases format with
    | yv12 =>
      cases order with
      | crFirst => exact congrArg (· + j) (zero_add _)
      | cbFirst => exact congrArg (· + j) (zero_add _)
    | nv21 => exact congrArg (· + j) (zero_add _)
  have row : t.dimX.toNat ≤ alignUp 16 t.dimX.toNat := le_alignUp (by decide) _
  have inX := r.inX
  have inY := r.inY
  refine { copied := ?copied, kept := ?kept }
  case copied =>
    intro i inLines j inside
    rw [place, source, r.newBlock_luma picture fits some (pixel_lt (by omega) (by omega)),
      r.lumaBlock_at picture fits inLines inside]
  case kept =>
    intro x left y top other
    rw [place, r.newBlock_luma picture fits some (pixel_lt (by omega) top), r.lumaBlock_other picture fits left other]

/-!
### YV12
-/

section

def crBase (t : RsType) : Nat := alignUp 16 t.dimX.toNat * t.dimY.toNat

def cstride (t : RsType) : Nat := alignUp 16 (alignUp 16 t.dimX.toNat / 2)

def cbBase (t : RsType) : Nat := crBase t + cstride t * (t.dimY.toNat / 2)

theorem cb_yv12 (x y : Nat) : (imageSamples t .yv12).cb x y = cbBase t + y / 2 * cstride t + x / 2 := by
  simp [imageSamples, PlanarFormat.samples, Samples.ofPlanes, cbBase, crBase, cstride]

theorem cr_yv12 (x y : Nat) : (imageSamples t .yv12).cr x y = crBase t + y / 2 * cstride t + x / 2 := by
  simp [imageSamples, PlanarFormat.samples, Samples.ofPlanes, crBase, cstride]

variable (picture : Picture t .yv12) (fits : t.dimX.toNat + 15 < 2 ^ 32) (some : 0 < t.dimY.toNat)

include picture fits some

theorem cb_lineAt (i : Nat) : r.lineAt ((allocationBuildPointerTable t).lod 1) i =
    cbBase t + (r.yoff.toNat + i) * cstride t + r.xoff.toNat := by
  obtain ⟨one, stride, -⟩ := picture.yv12 fits some
  rw [lineAt_row, one, stride]
  rfl

theorem cr_lineAt (i : Nat) : r.lineAt ((allocationBuildPointerTable t).lod 2) i =
    crBase t + (r.yoff.toNat + i) * cstride t + r.xoff.toNat := by
  obtain ⟨-, -, two, stride, -⟩ := picture.yv12 fits some
  rw [lineAt_row, two, stride]
  rfl

theorem chromaCopied_yv12 (left : r.xoff = 0) (top : r.yoff = 0) (full : r.w.toNat / 2 = cstride t) :
    r.ChromaCopied .yv12 .cbFirst block bytes (r.newBlock .yv12 bytes block) := by
  have evenW := r.evenW
  have evenH := r.evenH
  have inY := r.inY
  have row : t.dimX.toNat / 2 ≤ cstride t := (Nat.div_le_div_right (le_alignUp (by decide) _)).trans (le_alignUp (by decide) _)
  obtain ⟨-, stride1, -, stride2, -⟩ := picture.yv12 fits some
  change _ = cstride t at stride1
  change _ = cstride t at stride2
  have x0 : r.xoff.toNat = 0 := congrArg UInt32.toNat left
  have y0 : r.yoff.toNat = 0 := congrArg UInt32.toNat top
  have cbLine (i : Nat) : r.lineAt ((allocationBuildPointerTable t).lod 1) i = cbBase t + i * cstride t := by
    rw [cb_lineAt picture fits some, x0, y0, zero_add, add_zero]
  have crLine (i : Nat) : r.lineAt ((allocationBuildPointerTable t).lod 2) i = crBase t + i * cstride t := by
    rw [cr_lineAt picture fits some, x0, y0, zero_add, add_zero]
  have narrow1 := (full.trans stride1.symm).le
  have narrow2 := (full.trans stride2.symm).le
  -- the lines of the Cr plane end before the Cb plane
  have planes : r.h.toNat / 2 * cstride t ≤ cstride t * (t.dimY.toNat / 2) := by
    rw [mul_comm]
    exact Nat.mul_le_mul_left _ (by omega)
  have behindCr {loc : Nat} (behind : crBase t + r.h.toNat / 2 * cstride t ≤ loc) :
      r.newBlock .yv12 bytes block loc =
        r.chromaBlock (r.w.toNat / 2) (r.h.toNat * r.w.toNat) ((allocationBuildPointerTable t).lod 1) bytes
          (r.lumaBlock bytes block) loc := by
    apply r.chromaBlock_behind narrow2
    rwa [crLine, stride2, Nat.zero_mul, add_zero]
  -- a block that is not copied is below the rectangle
  have under {x y : Nat} (inX : x / 2 < t.dimX.toNat / 2) (other : ¬ r.Has x y) :
      r.h.toNat / 2 * cstride t ≤ y / 2 * cstride t := by
    refine Nat.mul_le_mul_right _ (Nat.le_of_not_lt fun above => other ?_)
    exact ⟨by omega, by omega, by omega, by omega⟩
  refine { cb := ?cb, cr := ?cr, cbKept := ?cbKept, crKept := ?crKept }
  case cb =>
    intro i inLines j inside
    rw [x0, y0, zero_add, zero_add, cb_yv12, behindCr (by unfold cbBase; omega), ← cbLine,
      r.chromaBlock_at narrow1 (by omega) (by omega), stride1]
    simp only [packedSamples, Samples.ofPlanes, full, mul_comm r.h.toNat, mul_one]
  case cr =>
    intro i inLines j inside
    rw [x0, y0, zero_add, zero_add, cr_yv12, ← crLine, newBlock,
      r.chromaBlock_at narrow2 (by omega) (by omega), stride1, stride2]
    simp only [packedSamples, Samples.ofPlanes, full, mul_comm r.h.toNat, mul_one]
  case cbKept =>
    intro x y inX inY other
    have rows := under inX other
    have before : crBase t ≤ cbBase t := Nat.le_add_right _ _
    rw [cb_yv12, behindCr (by unfold cbBase; omega), r.chromaBlock_behind narrow1, r.lumaBlock_behind picture fits]
    · change crBase t ≤ _
      omega
    · rw [cbLine, stride1, Nat.zero_mul, add_zero]
      omega
  case crKept =>
    intro x y inX inY other
    have rows := under inX other
    have last := pixel_lt (inX.trans_le row) inY
    rw [cr_yv12, behindCr (by omega), r.chromaBlock_before, r.lumaBlock_behind picture fits]
    · change crBase t ≤ _
      omega
    · rw [cbLine, Nat.zero_mul, add_zero]
      unfold cbBase
      omega

theorem start_of_chromaCopied_yv12 (tall : 0 < r.h.toNat)
    (copied : ∀ block bytes, r.ChromaCopied .yv12 order block bytes (r.newBlock .yv12 bytes block)) :
    r.xoff.toNat = 0 ∧ r.yoff.toNat = 0 := by
  have evenH := r.evenH
  have inY := r.inY
  have wide := r.wide
  have evenW := r.evenW
  have width : r.xoff.toNat / 2 + r.w.toNat / 2 ≤ cstride t := r.chromaWidth_le
  by_contra elsewhere
  have before : r.yoff.toNat / 2 * cstride t + r.xoff.toNat / 2 < r.yoff.toNat * cstride t + r.xoff.toNat := by
    have rows : r.yoff.toNat / 2 * cstride t ≤ r.yoff.toNat * cstride t := Nat.mul_le_mul_right _ (Nat.div_le_self _ _)
    rcases eq_zero_or_pos r.xoff.toNat with left | right
    · have lower : r.yoff.toNat / 2 * cstride t < r.yoff.toNat * cstride t := mul_lt_mul_of_pos_right (by omega) (by omega)
      omega
    · omega
  have last : r.yoff.toNat / 2 * cstride t + r.xoff.toNat / 2 < cstride t * (t.dimY.toNat / 2) := pixel_lt (by omega) (by omega)
  have sample := (copied (fun _ => 0) fun _ => 1).cr 0 tall 0 wide
  rw [add_zero, add_zero, cr_yv12, newBlock, r.chromaBlock_before, r.chromaBlock_before,
    r.lumaBlock_behind picture fits] at sample
  · exact (by decide : (0 : UInt8) ≠ 1) sample
  · change crBase t ≤ _
    omega
  · rw [cb_lineAt picture fits some, cbBase]
    omega
  · rw [cr_lineAt picture fits some, add_zero]
    omega

/-- There, the first Cr sample is as far behind the Cb samples as the lines in the image are apart. -/
theorem fits_of_chromaCopied_yv12 (tall : 0 < r.h.toNat)
    (copied : ∀ block bytes, r.ChromaCopied .yv12 order block bytes (r.newBlock .yv12 bytes block)) :
    order = .cbFirst ∧ r.w.toNat / 2 = cstride t := by
  obtain ⟨left, top⟩ := start_of_chromaCopied_yv12 picture fits some tall copied
  have evenH := r.evenH
  have evenW := r.evenW
  have wide := r.wide
  have width : r.xoff.toNat / 2 + r.w.toNat / 2 ≤ cstride t := r.chromaWidth_le
  obtain ⟨-, stride1, -, stride2, -⟩ := picture.yv12 fits some
  change _ = cstride t at stride1
  change _ = cstride t at stride2
  have first : (imageSamples t .yv12).cr (r.xoff.toNat + 0) (r.yoff.toNat + 0) =
      r.lineAt ((allocationBuildPointerTable t).lod 2) 0 + 0 := by
    rw [cr_yv12, cr_lineAt picture fits some, left, top]
  have place : r.h.toNat * r.w.toNat + r.h.toNat / 2 * cstride t = (packedSamples r.w.toNat r.h.toNat .yv12 order).cr 0 0 := by
    have sample := (copied (fun _ => 0) fun k =>
      if k = (packedSamples r.w.toNat r.h.toNat .yv12 order).cr 0 0 then 1 else 0).cr 0 tall 0 wide
    rw [first, newBlock, r.chromaBlock_at (by omega) (by omega) (by omega), if_pos rfl, stride1, Nat.zero_mul] at sample
    by_contra other
    rw [Nat.add_zero, if_neg other] at sample
    exact (by decide : (0 : UInt8) ≠ 1) sample
  have lines : 0 < r.h.toNat / 2 := by omega
  cases order with
  | crFirst =>
    have none : r.h.toNat / 2 * cstride t = 0 := by
      simpa [packedSamples, Samples.ofPlanes, mul_comm r.h.toNat] using place
    have some := mul_pos lines (by omega : 0 < cstride t)
    omega
  | cbFirst =>
    refine ⟨rfl, (Nat.eq_of_mul_eq_mul_left lines ?_).symm⟩
    simpa [packedSamples, Samples.ofPlanes, mul_comm r.h.toNat] using place

end

/-!
### NV21
-/

section

theorem cr_nv21 (x y : Nat) : (imageSamples t .nv21).cr x y = crBase t + y / 2 * alignUp 16 t.dimX.toNat + x / 2 * 2 := by
  simp [imageSamples, PlanarFormat.samples, Samples.ofPlanes, crBase]

theorem cb_nv21 (x y : Nat) : (imageSamples t .nv21).cb x y = crBase t + y / 2 * alignUp 16 t.dimX.toNat + (x / 2 * 2 + 1) := by
  simp [imageSamples, PlanarFormat.samples, Samples.ofPlanes, crBase]
  omega

variable (picture : Picture t .nv21) (fits : t.dimX.toNat + 15 < 2 ^ 32) (some : 0 < t.dimY.toNat)

include picture fits some

theorem crcb_lineAt (i : Nat) : r.lineAt ((allocationBuildPointerTable t).lod 2) i =
    crBase t + (r.yoff.toNat + i) * alignUp 16 t.dimX.toNat + r.xoff.toNat := by
  obtain ⟨two, stride, -⟩ := picture.nv21 fits some
  rw [lineAt_row, two, stride]
  rfl

theorem chromaCopied_nv21 (top : r.yoff = 0) (full : r.h.toNat ≤ 2 ∨ r.w.toNat = alignUp 16 t.dimX.toNat) :
    r.ChromaCopied .nv21 order block bytes (r.newBlock .nv21 bytes block) := by
  have evenX := r.evenX
  have evenW := r.evenW
  have evenH := r.evenH
  have inX := r.inX
  have row : t.dimX.toNat ≤ alignUp 16 t.dimX.toNat := le_alignUp (by decide) _
  obtain ⟨two, stride, -⟩ := picture.nv21 fits some
  have y0 : r.yoff.toNat = 0 := congrArg UInt32.toNat top
  have line (i : Nat) : r.lineAt ((allocationBuildPointerTable t).lod 2) i =
      crBase t + i * alignUp 16 t.dimX.toNat + r.xoff.toNat := by
    rw [crcb_lineAt picture fits some, y0, zero_add]
  have narrow : r.w.toNat ≤ ((allocationBuildPointerTable t).lod 2).stride := by omega
  have source {i : Nat} (inLines : i < r.h.toNat) : i / 2 * alignUp 16 t.dimX.toNat = i / 2 * r.w.toNat := by
    rcases full with single | eq
    · rw [Nat.div_eq_of_lt (by omega), Nat.zero_mul, Nat.zero_mul]
    · rw [eq]
  have copied {i k : Nat} (inLines : i < r.h.toNat) (inside : k < r.w.toNat) :
      r.newBlock .nv21 bytes block (crBase t + i / 2 * alignUp 16 t.dimX.toNat + r.xoff.toNat + k) =
        bytes (r.w.toNat * r.h.toNat + i / 2 * r.w.toNat + k) := by
    rw [← line, newBlock, r.chromaBlock_at narrow (by omega) inside, stride, source inLines, mul_comm r.h.toNat]
  have kept {x y k : Nat} (inX : x / 2 < t.dimX.toNat / 2) (other : ¬ r.Has x y) (half : k / 2 = x / 2) :
      r.newBlock .nv21 bytes block (crBase t + y / 2 * alignUp 16 t.dimX.toNat + k) =
        block (crBase t + y / 2 * alignUp 16 t.dimX.toNat + k) := by
    have out : Outside r.w.toNat (r.h.toNat / 2) (r.lineAt ((allocationBuildPointerTable t).lod 2))
        (((allocationBuildPointerTable t).lod 2).mallocPtr + y / 2 * ((allocationBuildPointerTable t).lod 2).stride + k) := by
      apply r.outside_lines (by omega) (by omega)
      rintro ⟨above, lt, left, right⟩
      exact other ⟨by omega, by omega, by omega, by omega⟩
    rw [two, stride] at out
    refine (copy_outside out).trans (r.lumaBlock_behind picture fits ?_)
    rw [add_assoc]
    exact Nat.le_add_right _ _
  refine { cb := ?cb, cr := ?cr, cbKept := ?cbKept, crKept := ?crKept }
  case cb =>
    intro i inLines j inside
    have place : (r.xoff.toNat + j) / 2 * 2 + 1 = r.xoff.toNat + (j / 2 * 2 + 1) := by omega
    rw [y0, zero_add, cb_nv21, place, ← add_assoc, copied inLines (by omega)]
    simp only [packedSamples, Samples.ofPlanes]
    congr 1
    omega
  case cr =>
    intro i inLines j inside
    have place : (r.xoff.toNat + j) / 2 * 2 = r.xoff.toNat + j / 2 * 2 := by omega
    rw [y0, zero_add, cr_nv21, place, ← add_assoc, copied inLines (by omega)]
    simp [packedSamples, Samples.ofPlanes]
  case cbKept =>
    intro x y inX _ other
    rw [cb_nv21]
    exact kept inX other (by omega)
  case crKept =>
    intro x y inX _ other
    rw [cr_nv21]
    exact kept inX other (by omega)

theorem top_of_chromaCopied_nv21 (tall : 0 < r.h.toNat)
    (copied : ∀ block bytes, r.ChromaCopied .nv21 order block bytes (r.newBlock .nv21 bytes block)) :
    r.yoff.toNat = 0 := by
  have wide := r.wide
  have width := r.width_le
  by_contra elsewhere
  have before : r.yoff.toNat / 2 * alignUp 16 t.dimX.toNat < r.yoff.toNat * alignUp 16 t.dimX.toNat :=
    mul_lt_mul_of_pos_right (by omega) (by omega)
  have sample := (copied (fun _ => 0) fun _ => 1).cr 0 tall 0 wide
  rw [add_zero, add_zero, cr_nv21, newBlock, r.chromaBlock_before, r.lumaBlock_behind picture fits] at sample
  · exact (by decide : (0 : UInt8) ≠ 1) sample
  · change crBase t ≤ _
    omega
  · rw [crcb_lineAt picture fits some, add_zero]
    omega

theorem fits_of_chromaCopied_nv21 (tall : 0 < r.h.toNat)
    (copied : ∀ block bytes, r.ChromaCopied .nv21 order block bytes (r.newBlock .nv21 bytes block)) :
    r.h.toNat ≤ 2 ∨ r.w.toNat = alignUp 16 t.dimX.toNat := by
  have top := top_of_chromaCopied_nv21 picture fits some tall copied
  rcases lt_or_ge 2 r.h.toNat with lines | single
  swap
  · exact .inl single
  have evenX := r.evenX
  have evenH := r.evenH
  have wide := r.wide
  have width := r.width_le
  obtain ⟨-, stride, -⟩ := picture.nv21 fits some
  have second : (imageSamples t .nv21).cr (r.xoff.toNat + 0) (r.yoff.toNat + 2) =
      r.lineAt ((allocationBuildPointerTable t).lod 2) 1 + 0 := by
    rw [cr_nv21, crcb_lineAt picture fits some, top]
    omega
  have place : r.h.toNat * r.w.toNat + 1 * alignUp 16 t.dimX.toNat =
      (packedSamples r.w.toNat r.h.toNat .nv21 order).cr 0 2 := by
    have sample := (copied (fun _ => 0) fun k =>
      if k = (packedSamples r.w.toNat r.h.toNat .nv21 order).cr 0 2 then 1 else 0).cr 2 lines 0 wide
    rw [second, newBlock, r.chromaBlock_at (by omega) (by omega) wide, if_pos rfl, stride] at sample
    by_contra other
    rw [add_zero, if_neg other] at sample
    exact (by decide : (0 : UInt8) ≠ 1) sample
  right
  simpa [packedSamples, Samples.ofPlanes, mul_comm r.h.toNat] using place.symm

end

end Rectangle

end

section

variable {t : RsType} {format : PlanarFormat} {order : ChromaOrder} {r : Rectangle t}

namespace Rectangle

variable (picture : Picture t format)

include picture

theorem inside_of_fits (wide : t.dimX.toNat + 15 < 2 ^ 32) (tall : 0 < r.h.toNat)
    (fits : r.Fits format order) : r.Inside format := by
  have inY := r.inY
  have some : 0 < t.dimY.toNat := by omega
  have notEmpty : r.h ≠ 0 := fun none => tall.ne' (congrArg UInt32.toNat none)
  have planes := (fits.resolve_left notEmpty).2
  have last {i : Nat} (lt : i < r.h.toNat / 2) (stride : Nat) : i * stride + stride ≤ stride * (t.dimY.toNat / 2) := by
    rw [← Nat.succ_mul, mul_comm]
    exact Nat.mul_le_mul_left _ (by omega)
  have luma {i : Nat} (lt : i < r.h.toNat) := r.luma_line_le picture wide lt
  cases format with
  | yv12 =>
    obtain ⟨-, left, top, full⟩ := planes
    have x0 : r.xoff.toNat = 0 := congrArg UInt32.toNat left
    have y0 : r.yoff.toNat = 0 := congrArg UInt32.toNat top
    obtain ⟨-, -, -, -, size⟩ := picture.yv12 wide some
    change _ = crBase t + (cstride t * (t.dimY.toNat / 2) + cstride t * (t.dimY.toNat / 2)) at size
    change _ = cstride t at full
    refine ⟨fun i lt => ?_, fun i lt => ?_, fun i lt => ?_⟩
    · exact (luma lt).trans ((Nat.le_add_right _ _).trans_eq size.symm)
    · have line := last lt (cstride t)
      rw [cb_lineAt picture wide some, size, full, x0, y0, cbBase, zero_add]
      omega
    · have line := last lt (cstride t)
      rw [cr_lineAt picture wide some, size, full, x0, y0, zero_add]
      omega
  | nv21 =>
    have y0 : r.yoff.toNat = 0 := congrArg UInt32.toNat planes.1
    have width := r.width_le
    obtain ⟨-, -, size⟩ := picture.nv21 wide some
    change _ = crBase t + _ at size
    refine ⟨fun i lt => ?_, fun i lt => ?_⟩
    · exact (luma lt).trans ((Nat.le_add_right _ _).trans_eq size.symm)
    · have line := last lt (alignUp 16 t.dimX.toNat)
      rw [crcb_lineAt picture wide some, size, y0, zero_add]
      omega

theorem uploads_of_empty (empty : r.h = 0) : r.Uploads format order := by
  have none : r.h.toNat = 0 := congrArg UInt32.toNat empty
  have noLine {n : Nat} {lod : LodState} {lines : Nat} (zero : lines = 0) : r.LinesInside n lines lod :=
    fun i lt => absurd lt (zero ▸ Nat.not_lt_zero i)
  have noChroma : r.h.toNat / 2 = 0 := by rw [none]
  have eq (bytes block : Memory) : r.newBlock format bytes block = block := by
    cases format with
    | yv12 => rw [newBlock, chromaBlock, chromaBlock, lumaBlock, noChroma, none, copy, copy, copy]
    | nv21 => rw [newBlock, chromaBlock, lumaBlock, noChroma, none, copy, copy]
  rw [r.uploads_iff picture]
  constructor
  · refine ⟨noLine none, ?_⟩
    cases format with
    | yv12 => exact ⟨noLine noChroma, noLine noChroma⟩
    | nv21 => exact noLine noChroma
  · intro block bytes
    rw [eq]
    have nothing {i : Nat} {P : Prop} (lt : i < r.h.toNat) : P := absurd lt (none ▸ Nat.not_lt_zero i)
    exact ⟨⟨fun _ lt => nothing lt, fun _ _ _ _ _ => rfl⟩,
      ⟨fun _ lt => nothing lt, fun _ lt => nothing lt, fun _ _ _ _ _ => rfl, fun _ _ _ _ _ => rfl⟩⟩

theorem uploads_of_fits (fitting : r.Fits format order) : r.Uploads format order := by
  rcases fitting with empty | ⟨fits, planes⟩
  · exact uploads_of_empty picture empty
  by_cases empty : r.h = 0
  · exact uploads_of_empty picture empty
  have tall : 0 < r.h.toNat := pos_of_ne_zero fun none => empty (UInt32.toNat_inj.mp none)
  have some : 0 < t.dimY.toNat := tall.trans_le ((Nat.le_add_left _ _).trans r.inY)
  refine (r.uploads_iff picture).mpr ⟨inside_of_fits picture fits tall (.inr ⟨fits, planes⟩), ?_⟩
  refine fun block bytes => ⟨lumaCopied picture fits some, ?_⟩
  cases format with
  | yv12 =>
    obtain ⟨rfl, left, top, full⟩ := planes
    exact chromaCopied_yv12 picture fits some left top full
  | nv21 =>
    obtain ⟨top, full⟩ := planes
    exact chromaCopied_nv21 picture fits some top full

theorem fits_of_uploads (uploads : r.Uploads format order) : r.Fits format order := by
  refine or_iff_not_imp_left.mpr fun notEmpty => ?_
  have tall : 0 < r.h.toNat := pos_of_ne_zero fun none => notEmpty (UInt32.toNat_inj.mp none)
  have some : 0 < t.dimY.toNat := tall.trans_le ((Nat.le_add_left _ _).trans r.inY)
  obtain ⟨inside, copied⟩ := (r.uploads_iff picture).mp uploads
  have chroma block bytes := (copied block bytes).2
  have fits : t.dimX.toNat + 15 < 2 ^ 32 := by
    by_contra overflows
    have line := inside.1 0 tall
    have wide := r.wide
    rw [picture.allocSize_wide (Nat.le_of_not_lt overflows)] at line
    omega
  refine ⟨fits, ?_⟩
  cases format with
  | yv12 =>
    obtain ⟨left, top⟩ := start_of_chromaCopied_yv12 picture fits some tall chroma
    obtain ⟨first, full⟩ := fits_of_chromaCopied_yv12 picture fits some tall chroma
    exact ⟨first, UInt32.toNat_inj.mp left, UInt32.toNat_inj.mp top, full⟩
  | nv21 =>
    have top := top_of_chromaCopied_nv21 picture fits some tall chroma
    exact ⟨UInt32.toNat_inj.mp top, fits_of_chromaCopied_nv21 picture fits some tall chroma⟩

end Rectangle

/-- The picture gets to the samples of the rectangle, and to no others, exactly if the chroma lines
need not be halved and follow each other as in the image. -/
theorem uploads_iff_fits (picture : Picture t format) (order : ChromaOrder) (r : Rectangle t) :
    r.Uploads format order ↔ r.Fits format order :=
  ⟨Rectangle.fits_of_uploads picture, Rectangle.uploads_of_fits picture⟩

private def lumaCell : Elements.Element := .mk 0 (.set .unsigned8 .pixelYUV true 1) []

private def frame (dimX dimY : UInt32) (format : PlanarFormat) : RsType :=
  .create 0 lumaCell
    { dimX := dimX, dimY := dimY, dimZ := 0, mDimLOD := false, faces := false, dimYuv := format.yuv }

private theorem frame_picture (dimX dimY : UInt32) (format : PlanarFormat) : Picture (frame dimX dimY format) format where
  single := (by decide : ¬ (1 : UInt32) > 1)
  yuv := rfl
  bytes := (by decide : lumaCell.getSizeBytes = 1)
  flat := rfl
  oneFace := rfl

private def whole : Rectangle (frame 32 4 .yv12) :=
  ⟨0, 0, 32, 4, by decide, by decide, by decide, by decide, by decide, by decide, by decide⟩

theorem uploads_iff_fits_whole : whole.Uploads .yv12 .cbFirst :=
  (uploads_iff_fits (frame_picture 32 4 .yv12) .cbFirst whole).mpr (.inr ⟨by decide, rfl, rfl, rfl, by decide⟩)

private def lower : Rectangle (frame 32 4 .nv21) :=
  ⟨0, 2, 32, 2, by decide, by decide, by decide, by decide, by decide, by decide, by decide⟩

/-- The lower half of an image in NV21, and a whole one in YV12 with the planes in its own order. -/
theorem uploads_lost : (∀ order, ¬ lower.Uploads .nv21 order) ∧ ¬ whole.Uploads .yv12 .crFirst := by
  constructor
  · intro order uploads
    rcases Rectangle.fits_of_uploads (frame_picture 32 4 .nv21) uploads with empty | ⟨-, top, -⟩
    · exact (by decide : ¬ lower.h = 0) empty
    · exact (by decide : ¬ lower.yoff = 0) top
  · intro uploads
    rcases Rectangle.fits_of_uploads (frame_picture 32 4 .yv12) uploads with empty | ⟨-, first, -⟩
    · exact (by decide : ¬ whole.h = 0) empty
    · cases first

end

end RenderScript.Copies
