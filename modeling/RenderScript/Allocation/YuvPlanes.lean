import RenderScript.Allocation.AllocationLayout

/-!
# Planes of YUV images

The entries 1 and 2 of the pointer table stand for the chroma planes. `DeriveYUVLayout` of
rsdAllocation.cpp sets them for images in memory and `lockNextBuffer` of
rsGrallocConsumer.cpp for received ones. `rsGetElementAtYuv_uchar_U`, its counterpart for V
and the kernel of rsCpuIntrinsicYuvToRGB.cpp read them. Addresses are natural numbers.
-/

namespace RenderScript.Allocations
open AlignedBytes RenderScript.Types

inductive PlanarFormat where
  | yv12
  | nv21
  deriving DecidableEq

def PlanarFormat.yuv : PlanarFormat → UInt32
  | .yv12 => HAL_PIXEL_FORMAT_YV12
  | .nv21 => HAL_PIXEL_FORMAT_YCrCb_420_SP

def PlanarFormat.step : PlanarFormat → Nat
  | .yv12 => 1
  | .nv21 => 2

/-- Where the samples of the pixel in column `x` and row `r` are. -/
structure Samples where
  y : Nat → Nat → Nat
  cb : Nat → Nat → Nat
  cr : Nat → Nat → Nat

/-- Planes of which every second pixel in both directions has a chroma sample. -/
def Samples.ofPlanes (y cb cr ystride cstride step : Nat) : Samples where
  y := fun x r => y + r * ystride + x
  cb := fun x r => cb + r / 2 * cstride + x / 2 * step
  cr := fun x r => cr + r / 2 * cstride + x / 2 * step

/-- What the formats say. The Cr plane follows the luma plane, and then Cb; NV21 has both in
turn, Cr first. -/
def PlanarFormat.samples (base stride height : Nat) : PlanarFormat → Samples
  | .yv12 =>
    let cstride := alignUp 16 (stride / 2)
    .ofPlanes base (base + stride * height + cstride * (height / 2)) (base + stride * height) stride cstride 1
  | .nv21 => .ofPlanes base (base + stride * height + 1) (base + stride * height) stride stride 2

structure Plane where
  mallocPtr : Option Nat
  stride : Nat

/-- The parts of `drvState` that the readers use. -/
structure Planes where
  lod0 : Plane
  lod1 : Plane
  lod2 : Plane
  dimY : UInt32
  shift : Nat
  step : UInt32

/-- The table of an allocation in memory at `ptr`. -/
def deriveYUVPlanes (format : PlanarFormat) (dimX dimY : UInt32) (ptr : Nat) : Planes :=
  let luma := LodState.ofLevel 1 { x := dimX, y := dimY, z := 0 } 0
  let chroma := deriveYUVLayout format.yuv luma
  { lod0 := ⟨some ptr, luma.stride⟩, lod1 := ⟨some (ptr + chroma.1.mallocPtr), chroma.1.stride⟩
    lod2 := ⟨some (ptr + chroma.2.1.mallocPtr), chroma.2.1.stride⟩
    dimY := dimY
    shift := 1
    step := if format.yuv = HAL_PIXEL_FORMAT_YCrCb_420_SP then 2 else 1 }

/-- It is the table of `AllocationBuildPointerTable` for a flat type of bytes. -/
theorem deriveYUVPlanes_table {t : RsType} {format : PlanarFormat} (single : ¬ t.mLodCount > 1)
    (yuv : t.dimYuv = format.yuv) (bytes : t.mElement.getSizeBytes = 1) (flat : t.dimZ = 0) (ptr : Nat) :
    let lod := (allocationBuildPointerTable t).lod
    deriveYUVPlanes format t.dimX t.dimY ptr =
      { lod0 := ⟨some (ptr + (lod 0).mallocPtr), (lod 0).stride⟩, lod1 := ⟨some (ptr + (lod 1).mallocPtr), (lod 1).stride⟩
        lod2 := ⟨some (ptr + (lod 2).mallocPtr), (lod 2).stride⟩
        dimY := (lod 0).dimY
        shift := 1
        step := if t.dimYuv = HAL_PIXEL_FORMAT_YCrCb_420_SP then 2 else 1 } := by
  have set : format.yuv ≠ 0 := by
    cases format with
    | yv12 => decide
    | nv21 => decide
  simp only [allocationBuildPointerTable, deriveYUVPlanes, bytes, yuv, flat, if_neg single, if_pos set]
  rfl

/-- Zeroed by `android_ycbcr()`. -/
structure AndroidYcbcr where
  y : Option Nat := none
  cb : Option Nat := none
  cr : Option Nat := none
  ystride : Nat := 0
  cstride : Nat := 0
  chroma_step : Nat := 0

/-- The end of `lockNextBuffer` for an allocation with `yuv`. -/
def lockNextBufferPlanes (bufferPointer : Option Nat) (ycbcr : AndroidYcbcr) (dimY : UInt32) : Planes where
  lod0 := ⟨bufferPointer, ycbcr.ystride⟩
  lod1 := ⟨ycbcr.cr, ycbcr.cstride⟩
  lod2 := ⟨ycbcr.cb, ycbcr.cstride⟩
  dimY := dimY
  shift := 1
  step := .ofNat ycbcr.chroma_step

namespace Planes

/-- The address that `rsGetElementAtYuv_uchar_U` and `V` read, which have one plane each. NULL has
none. -/
def elementAtYuv (p : Planes) (plane : Plane) (x y : Nat) : Option Nat :=
  plane.mallocPtr.map fun pin => pin + ((x >>> p.shift) * p.step.toNat + (y >>> p.shift) * plane.stride)

def rsGetElementAtYuv_uchar_U (p : Planes) (x y : Nat) : Option Nat := p.elementAtYuv p.lod1 x y

def rsGetElementAtYuv_uchar_V (p : Planes) (x y : Nat) : Option Nat := p.elementAtYuv p.lod2 x y

abbrev Read := Int × Int × Int

/-- `int cx` has 32 bits. -/
def cx (x1 cstep : Nat) : Int := Int.bmod ((x1 >>> 1) * cstep : Nat) (2 ^ 32)

/-- The loop of the kernel without SIMD. Two pixels share the chroma samples. -/
def kernelLoop (Y u v cstep x1 x2 : Nat) : List Read :=
  if x1 < x2 then
    ((Y + x1 : Nat), u + cx x1 cstep, v + cx x1 cstep) ::
      ((Y + (x1 + 1) : Nat), u + cx x1 cstep, v + cx x1 cstep) :: kernelLoop Y u v cstep (x1 + 2) x2
  else []
  termination_by x2 - x1

/-- The reads of `RsdCpuScriptIntrinsicYuvToRGB::kernel` in one row, or none without data. -/
def kernel (p : Planes) (dimX dimY y xstart xend : Nat) : Option (List Read) :=
  p.lod0.mallocPtr.map fun pinY =>
    let strideY := if p.dimY = 0 then dimX else p.lod0.stride
    let Y := pinY + y * strideY
    match p.lod1.mallocPtr with
    | some pinU =>
      let u := pinU + (y >>> 1) * p.lod1.stride
      let v := p.lod2.mallocPtr.getD 0 + (y >>> 1) * p.lod2.stride
      kernelLoop Y u v p.step.toNat xstart xend
    | none =>
      -- legacy images did not fill in the planes
      let v := pinY + strideY * dimY + (y >>> 1) * strideY
      kernelLoop Y (v + 1) v 2 xstart xend

end Planes

def clampByte (p : Int) : UInt8 := .ofNat (if p < 0 then 0 else if p > 255 then 255 else p).toNat

def rsYuvToRGBA_uchar4 (y u v : UInt8) : UInt8 × UInt8 × UInt8 × UInt8 :=
  let Y : Int := y.toNat - 16
  let U : Int := u.toNat - 128
  let V : Int := v.toNat - 128
  (clampByte ((Y * 298 + V * 409 + 128) >>> 8), clampByte ((Y * 298 - U * 100 - V * 208 + 128) >>> 8),
    clampByte ((Y * 298 + U * 516 + 128) >>> 8), 255)

def colour (memory : Int → UInt8) (read : Planes.Read) : UInt8 × UInt8 × UInt8 × UInt8 :=
  rsYuvToRGBA_uchar4 (memory read.1) (memory read.2.1) (memory read.2.2)

/-- Where an image is: in the memory of an allocation, or in a buffer of gralloc that was locked. For
buffers of the flexible format gralloc tells where the planes are. -/
inductive Stored where
  | memory (format : PlanarFormat) (ptr : Nat)
  | gralloc (format : PlanarFormat) (bufferPointer stride : Nat)
  | flexible (y cb cr ystride cstride chroma_step : Nat)

structure Image where
  dimX : UInt32
  dimY : UInt32
  evenX : 2 ∣ dimX.toNat
  evenY : 2 ∣ dimY.toNat
  someX : 0 < dimX.toNat
  someY : 0 < dimY.toNat
  stored : Stored

namespace Image

def samples (image : Image) : Samples :=
  match image.stored with
  | .memory format ptr => format.samples ptr (alignUp 16 image.dimX.toNat) image.dimY.toNat
  | .gralloc format bufferPointer stride => format.samples bufferPointer stride image.dimY.toNat
  | .flexible y cb cr ystride cstride chroma_step => .ofPlanes y cb cr ystride cstride chroma_step

def planes (image : Image) : Planes :=
  match image.stored with
  | .memory format ptr => deriveYUVPlanes format image.dimX image.dimY ptr
  | .gralloc _ bufferPointer _ => lockNextBufferPlanes (some bufferPointer) {} image.dimY
  | .flexible y cb cr ystride cstride chroma_step =>
    lockNextBufferPlanes (some y) ⟨some y, some cb, some cr, ystride, cstride, chroma_step⟩ image.dimY

def row (image : Image) (y : Nat) : List Planes.Read :=
  (List.range image.dimX.toNat).map fun x =>
    ((image.samples.y x y : Int), (image.samples.cb x y : Int), (image.samples.cr x y : Int))

structure Addressed (image : Image) : Prop where
  u : ∀ x < image.dimX.toNat, ∀ y < image.dimY.toNat,
    image.planes.rsGetElementAtYuv_uchar_U x y = some (image.samples.cb x y)
  v : ∀ x < image.dimX.toNat, ∀ y < image.dimY.toNat,
    image.planes.rsGetElementAtYuv_uchar_V x y = some (image.samples.cr x y)
  kernel : ∀ y < image.dimY.toNat,
    image.planes.kernel image.dimX.toNat image.dimY.toNat y 0 image.dimX.toNat = some (image.row y)

/-- Images in memory with rows that 32 bits can round up, as far as `cx` reaches. Of the images
that are received, only those whose chroma planes are one. -/
def Plain (image : Image) : Prop :=
  match image.stored with
  | .memory format _ =>
    image.dimX.toNat + 15 < 2 ^ 32 ∧ (image.dimX.toNat / 2 - 1) * format.step < 2 ^ 31
  | .gralloc .. => False
  | .flexible _ cb cr _ _ chroma_step => cb = cr ∧ (image.dimX.toNat / 2 - 1) * chroma_step < 2 ^ 31

end Image

theorem cx_succ {x1 : Nat} (even : 2 ∣ x1) (cstep : Nat) : Planes.cx (x1 + 1) cstep = Planes.cx x1 cstep := by
  have halves : (x1 + 1) >>> 1 = x1 >>> 1 := by
    omega
  unfold Planes.cx
  rw [halves]

theorem kernelLoop_eq (Y u v cstep : Nat) (pairs x1 : Nat) (even : 2 ∣ x1) :
    Planes.kernelLoop Y u v cstep x1 (x1 + 2 * pairs) = (List.range' x1 (2 * pairs)).map fun x =>
        (((Y + x : Nat) : Int), u + Planes.cx x cstep, v + Planes.cx x cstep) := by
  induction pairs generalizing x1 with
  | zero =>
    rw [Planes.kernelLoop, if_neg (by omega)]
    rfl
  | succ pairs ih =>
    have next := ih (x1 + 2) (by omega)
    have last : x1 + 2 + 2 * pairs = x1 + 2 * (pairs + 1) := by omega
    rw [last] at next
    rw [Planes.kernelLoop, if_pos (by omega), next, Nat.mul_succ, List.range'_succ, List.range'_succ,
      List.map_cons, List.map_cons, cx_succ even]

/-- `cx` is right as long as it has 31 bits. -/
theorem cx_eq_iff {x step : Nat} : Planes.cx x step = (x / 2 * step : Nat) ↔ x / 2 * step < 2 ^ 31 := by
  unfold Planes.cx
  rw [Nat.shiftRight_one]
  generalize x / 2 * step = value
  rw [Int.bmod_def]
  split
  case isTrue low => omega
  case isFalse high => omega

namespace Image

variable {image : Image}

theorem two_mul_half (image : Image) : 2 * (image.dimX.toNat / 2) = image.dimX.toNat := Nat.mul_div_cancel' image.evenX

theorem dimY_ne_zero (image : Image) : image.dimY ≠ 0 := by
  intro zero
  have some := image.someY
  rw [zero] at some
  exact lt_irrefl 0 some

section

variable {y cb cr ystride cstride chroma_step u v : Nat} {step : UInt32}

theorem kernel_eq (planes : image.planes =
      ⟨⟨some y, ystride⟩, ⟨some u, cstride⟩, ⟨some v, cstride⟩, image.dimY, 1, step⟩) (r : Nat) :
    image.planes.kernel image.dimX.toNat image.dimY.toNat r 0 image.dimX.toNat =
      some ((List.range image.dimX.toNat).map fun x => (((y + r * ystride + x : Nat) : Int),
          ((u + r / 2 * cstride : Nat) : Int) + Planes.cx x step.toNat,
          ((v + r / 2 * cstride : Nat) : Int) + Planes.cx x step.toNat)) := by
  have loop := kernelLoop_eq (y + r * ystride) (u + r / 2 * cstride) (v + r / 2 * cstride) step.toNat
    (image.dimX.toNat / 2) 0 (dvd_zero 2)
  rw [zero_add, image.two_mul_half, ← List.range_eq_range'] at loop
  rw [planes, Planes.kernel]
  simp only [Option.map_some, if_neg image.dimY_ne_zero, Nat.shiftRight_one, Option.getD_some]
  rw [loop]

theorem addressed_iff (samples : image.samples = .ofPlanes y cb cr ystride cstride chroma_step)
    (planes : image.planes = ⟨⟨some y, ystride⟩, ⟨some u, cstride⟩, ⟨some v, cstride⟩, image.dimY, 1, step⟩) :
    image.Addressed ↔ (u = cb ∧ v = cr) ∧
        ∀ k < image.dimX.toNat / 2, k * step.toNat = k * chroma_step ∧ k * chroma_step < 2 ^ 31 := by
  have even := image.two_mul_half
  have someX := image.someX
  constructor
  · intro addressed
    have start : u = cb ∧ v = cr := by
      have first := addressed.u 0 someX 0 image.someY
      have second := addressed.v 0 someX 0 image.someY
      rw [samples, planes] at first second
      simpa [Planes.rsGetElementAtYuv_uchar_U, Planes.rsGetElementAtYuv_uchar_V, Planes.elementAtYuv,
        Samples.ofPlanes] using And.intro first second
    refine ⟨start, ?_⟩
    intro k lt
    have inside : 2 * k < image.dimX.toNat := by omega
    have half : 2 * k / 2 = k := Nat.mul_div_cancel_left k (by decide)
    have eq : k * step.toNat = k * chroma_step := by
      have found := addressed.u (2 * k) inside 0 image.someY
      rw [samples, planes, ← start.1] at found
      simpa [Planes.rsGetElementAtYuv_uchar_U, Planes.elementAtYuv, Samples.ofPlanes, half, Nat.shiftRight_one] using found
    refine ⟨eq, ?_⟩
    -- the kernel indexes with `cx`
    have reads := Option.some.inj ((kernel_eq planes 0).symm.trans (addressed.kernel 0 image.someY))
    have read := List.map_inj_left.mp reads (2 * k) (List.mem_range.mpr inside)
    have chroma := congrArg (·.2.1) read
    rw [samples, ← start.1] at chroma
    have i : Planes.cx (2 * k) step.toNat = (2 * k / 2 * step.toNat : Nat) := by
      simpa [Samples.ofPlanes, half, eq] using chroma
    have small := cx_eq_iff.mp i
    rwa [half, eq] at small
  · rintro ⟨⟨rfl, rfl⟩, steps⟩
    have found (x : Nat) (inside : x < image.dimX.toNat) :
        x / 2 * step.toNat = x / 2 * chroma_step ∧ Planes.cx x step.toNat = (x / 2 * chroma_step : Nat) := by
      obtain ⟨eq, small⟩ := steps (x / 2) (by omega)
      refine ⟨eq, ?_⟩
      rw [← eq]
      exact cx_eq_iff.mpr (eq ▸ small)
    refine { u := ?u, v := ?v, kernel := ?kernel }
    case u =>
      intro x inside r _
      rw [samples, planes]
      simp only [Planes.rsGetElementAtYuv_uchar_U, Planes.elementAtYuv, Option.map_some, Nat.shiftRight_one,
        Samples.ofPlanes, (found x inside).1]
      congr 1
      omega
    case v =>
      intro x inside r _
      rw [samples, planes]
      simp only [Planes.rsGetElementAtYuv_uchar_V, Planes.elementAtYuv, Option.map_some, Nat.shiftRight_one,
        Samples.ofPlanes, (found x inside).1]
      congr 1
      omega
    case kernel =>
      intro r _
      refine (kernel_eq planes r).trans (congrArg some ?_)
      rw [row, samples]
      apply List.map_congr_left
      intro x mem
      have i := (found x (List.mem_range.mp mem)).2
      simp [Samples.ofPlanes, ← i]

theorem steps_iff : (∀ k < image.dimX.toNat / 2,
      k * (UInt32.ofNat chroma_step).toNat = k * chroma_step ∧ k * chroma_step < 2 ^ 31) ↔
    (image.dimX.toNat / 2 - 1) * chroma_step < 2 ^ 31 := by
  have even := image.two_mul_half
  have someX := image.someX
  constructor
  · intro steps
    exact (steps _ (by omega)).2
  · intro last k lt
    have small : k * chroma_step < 2 ^ 31 := lt_of_le_of_lt (Nat.mul_le_mul_right chroma_step (by omega)) last
    refine ⟨?_, small⟩
    cases k with
    | zero => simp
    | succ k =>
      have step : chroma_step < 2 ^ 32 := by
        have le : chroma_step ≤ (k + 1) * chroma_step := Nat.le_mul_of_pos_left chroma_step (Nat.succ_pos k)
        omega
      rw [UInt32.toNat_ofNat_of_lt' step]

end

section

variable {format : PlanarFormat} {ptr : Nat}

theorem alignUp_lt_of_fits (fits : image.dimX.toNat + 15 < 2 ^ 32) : alignUp 16 image.dimX.toNat / 2 + 15 < 2 ^ 32 := by
  have lt : alignUp 16 image.dimX.toNat < image.dimX.toNat + 16 := alignUp_lt (by decide) _
  omega

theorem samples_memory (stored : image.stored = .memory format ptr) :
    image.samples = format.samples ptr (alignUp 16 image.dimX.toNat) image.dimY.toNat := by
  rw [samples, stored]

theorem planes_memory (stored : image.stored = .memory format ptr) :
    image.planes = deriveYUVPlanes format image.dimX image.dimY ptr := by
  rw [planes, stored]

theorem deriveYUVPlanes_yv12 (dimX dimY : UInt32) (ptr : Nat) : deriveYUVPlanes .yv12 dimX dimY ptr =
      let stride := rsRound (dimX.toNat * 1) 16
      let cstride := rsRound (stride >>> 1) 16
      ⟨⟨some ptr, stride⟩, ⟨some (ptr + (stride * dimY.toNat + cstride * (dimY / 2).toNat)), cstride⟩,
        ⟨some (ptr + stride * dimY.toNat), cstride⟩, dimY, 1, .ofNat 1⟩ :=
  rfl

theorem deriveYUVPlanes_nv21 (dimX dimY : UInt32) (ptr : Nat) : deriveYUVPlanes .nv21 dimX dimY ptr =
      let stride := rsRound (dimX.toNat * 1) 16
      ⟨⟨some ptr, stride⟩, ⟨some (ptr + (stride * dimY.toNat + 1)), stride⟩,
        ⟨some (ptr + stride * dimY.toNat), stride⟩, dimY, 1, .ofNat 2⟩ :=
  rfl

theorem memory_addressed_iff (stored : image.stored = .memory format ptr) (fits : image.dimX.toNat + 15 < 2 ^ 32) :
    image.Addressed ↔ (image.dimX.toNat / 2 - 1) * format.step < 2 ^ 31 := by
  have stride : rsRound (image.dimX.toNat * 1) 16 = alignUp 16 image.dimX.toNat := by
    rw [mul_one]
    exact rsRound_eq fits
  have half : (image.dimY / 2).toNat = image.dimY.toNat / 2 := UInt32.toNat_div _ _
  cases format with
  | yv12 =>
    have cstride : rsRound (alignUp 16 image.dimX.toNat >>> 1) 16 = alignUp 16 (alignUp 16 image.dimX.toNat / 2) := by
      exact rsRound_eq (alignUp_lt_of_fits fits)
    have planes := (planes_memory stored).trans (deriveYUVPlanes_yv12 _ _ _)
    simp only [stride, cstride, half, ← add_assoc] at planes
    rw [addressed_iff (samples_memory stored) planes, steps_iff]
    exact and_iff_right ⟨rfl, rfl⟩
  | nv21 =>
    have planes := (planes_memory stored).trans (deriveYUVPlanes_nv21 _ _ _)
    simp only [stride, ← add_assoc] at planes
    rw [addressed_iff (samples_memory stored) planes, steps_iff]
    exact and_iff_right ⟨rfl, rfl⟩

theorem fits_of_addressed (stored : image.stored = .memory format ptr) (addressed : image.Addressed) :
    image.dimX.toNat + 15 < 2 ^ 32 := by
  by_contra wide
  have smaller : rsRound (image.dimX.toNat * 1) 16 < alignUp 16 image.dimX.toNat := by
    rw [mul_one]
    exact lt_of_lt_of_le (rsRound_lt (Nat.le_of_not_lt wide)) (le_alignUp (by decide) _)
  have found := addressed.v 0 image.someX 0 image.someY
  have eq : rsRound (image.dimX.toNat * 1) 16 * image.dimY.toNat = alignUp 16 image.dimX.toNat * image.dimY.toNat := by
    rw [samples_memory stored, planes_memory stored] at found
    cases format with
    | yv12 =>
      simpa [deriveYUVPlanes_yv12, PlanarFormat.samples, Planes.rsGetElementAtYuv_uchar_V,
        Planes.elementAtYuv, Samples.ofPlanes] using found
    | nv21 =>
      simpa [deriveYUVPlanes_nv21, PlanarFormat.samples, Planes.rsGetElementAtYuv_uchar_V,
        Planes.elementAtYuv, Samples.ofPlanes] using found
  exact absurd eq (mul_lt_mul_of_pos_right smaller image.someY).ne

end

theorem flexible_addressed_iff {y cb cr ystride cstride chroma_step : Nat}
    (stored : image.stored = .flexible y cb cr ystride cstride chroma_step) :
    image.Addressed ↔ cb = cr ∧ (image.dimX.toNat / 2 - 1) * chroma_step < 2 ^ 31 := by
  have samples : image.samples = .ofPlanes y cb cr ystride cstride chroma_step := by
    rw [Image.samples, stored]
  have planes : image.planes =
      ⟨⟨some y, ystride⟩, ⟨some cr, cstride⟩, ⟨some cb, cstride⟩, image.dimY, 1, .ofNat chroma_step⟩ := by
    rw [Image.planes, stored]
    rfl
  rw [addressed_iff samples planes, steps_iff]
  exact and_congr_left' ⟨fun start => start.2, fun same => ⟨same.symm, same⟩⟩

theorem gralloc_not_addressed {format : PlanarFormat} {bufferPointer stride : Nat}
    (stored : image.stored = .gralloc format bufferPointer stride) : ¬ image.Addressed := by
  intro addressed
  have found := addressed.u 0 image.someX 0 image.someY
  rw [planes, stored] at found
  cases found

theorem Addressed.colours (addressed : image.Addressed) (memory : Int → UInt8) (y : Nat) (inside : y < image.dimY.toNat) :
    (image.planes.kernel image.dimX.toNat image.dimY.toNat y 0 image.dimX.toNat).map (·.map (colour memory)) =
      some ((List.range image.dimX.toNat).map fun x =>
        rsYuvToRGBA_uchar4 (memory (image.samples.y x y)) (memory (image.samples.cb x y)) (memory (image.samples.cr x y))) := by
  rw [addressed.kernel y inside, Option.map_some, row, List.map_map]
  rfl

end Image

/-- The readers find the samples of all pixels, and the kernel the colours, exactly in the plain
images. -/
theorem yuv_planes_addressed_iff (image : Image) : (image.Addressed ∧ ∀ (memory : Int → UInt8), ∀ y < image.dimY.toNat,
      (image.planes.kernel image.dimX.toNat image.dimY.toNat y 0 image.dimX.toNat).map (·.map (colour memory)) =
        some ((List.range image.dimX.toNat).map fun x =>
          rsYuvToRGBA_uchar4 (memory (image.samples.y x y)) (memory (image.samples.cb x y)) (memory (image.samples.cr x y)))) ↔
    image.Plain := by
  have colours : (image.Addressed ∧ _) ↔ image.Addressed := and_iff_left_of_imp Image.Addressed.colours
  rw [colours, Image.Plain]
  cases stored : image.stored with
  | memory format ptr =>
    constructor
    · intro addressed
      have fits := Image.fits_of_addressed stored addressed
      exact ⟨fits, (Image.memory_addressed_iff stored fits).mp addressed⟩
    · rintro ⟨fits, last⟩
      exact (Image.memory_addressed_iff stored fits).mpr last
  | gralloc format bufferPointer stride => exact iff_false_intro (Image.gralloc_not_addressed stored)
  | flexible y cb cr ystride cstride chroma_step => exact Image.flexible_addressed_iff stored

/-- A buffer of two by two pixels whose Cb sample is at 200 and whose Cr sample is at 300. -/
theorem yuv_planes_exchanged : ∃ image : Image, image.stored = .flexible 100 200 300 2 1 1 ∧
      image.samples.cb 0 0 = 200 ∧ image.planes.rsGetElementAtYuv_uchar_U 0 0 = some 300 ∧
      image.samples.cr 0 0 = 300 ∧ image.planes.rsGetElementAtYuv_uchar_V 0 0 = some 200 := by
  refine ⟨⟨2, 2, by decide, by decide, by decide, by decide, .flexible 100 200 300 2 1 1⟩, rfl, ?_⟩
  decide

end RenderScript.Allocations
