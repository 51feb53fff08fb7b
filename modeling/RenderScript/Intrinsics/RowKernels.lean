import Mathlib.Data.List.Range
import Mathlib.Tactic.Linarith

/-!
# Rows of the colour matrix and YUV kernels

Which pixels of a row `RsdCpuScriptIntrinsicColorMatrix::kernel` and the scalar loop of
`RsdCpuScriptIntrinsicYuvToRGB::kernel` write, and from which samples.
-/

namespace RenderScript.Intrinsics

/-- The scalar loop over `n` pixels: `out` is written and moves on by `outstep`. -/
def scalarLoop (outstep : Nat) : Nat → Nat → List Nat
  | 0, _ => []
  | n + 1, out => out :: scalarLoop outstep n (out + outstep)

theorem scalarLoop_eq (outstep n out : Nat) : scalarLoop outstep n out = (List.range n).map fun i => out + outstep * i := by
  induction n generalizing out with
  | zero => rfl
  | succ n ih => simp [scalarLoop, ih, List.range_succ_eq_map, mul_add, add_assoc, add_comm outstep]

/-- An optimised kernel is there and the `int32_t` length is enough for a block of four pixels. -/
def Optimised (gArchUseSIMD mOptKernel : Bool) (len : Nat) : Prop :=
  gArchUseSIMD ∧ mOptKernel ∧ 4 ≤ len ∧ len < 2 ^ 31

instance (simd kernel : Bool) (len : Nat) : Decidable (Optimised simd kernel len) :=
  inferInstanceAs (Decidable (_ ∧ _ ∧ _ ∧ _))

/-- The places written, from the output pointer of the row on. The optimised kernel handles the pixels
of `len >> 2` blocks, and all `len` count as done. -/
def colorMatrixWrites (gArchUseSIMD mOptKernel : Bool) (outstep xstart xend : Nat) : List Nat :=
  let len := xend - xstart
  if Optimised gArchUseSIMD mOptKernel len then
    (List.range (4 * (len >>> 2))).map (outstep * ·) ++ scalarLoop outstep (xend - (xstart + len)) (outstep * len)
  else scalarLoop outstep len 0

/-- Every pixel of the range is written once and nothing else is, precisely when the optimised kernel
is not used or the length is a multiple of its block. -/
theorem colorMatrixWrites_iff (gArchUseSIMD mOptKernel : Bool) (outstep xstart xend : Nat) :
    (colorMatrixWrites gArchUseSIMD mOptKernel outstep xstart xend).Perm ((List.range (xend - xstart)).map (outstep * ·)) ↔
      (Optimised gArchUseSIMD mOptKernel (xend - xstart) → 4 ∣ xend - xstart) := by
  have none : xend - (xstart + (xend - xstart)) = 0 := by omega
  simp only [colorMatrixWrites]
  split <;> rename_i used
  · simp only [none, scalarLoop, List.append_nil, used, true_imp_iff, Nat.shiftRight_eq_div_pow]
    constructor
    · intro eq
      have len := eq.length_eq
      simp only [List.length_map, List.length_range] at len
      omega
    · intro blocks
      rw [Nat.mul_div_cancel' (by simpa using blocks)]
  · simp [scalarLoop_eq, used]

/-- Of five pixels the optimised kernel writes four and nothing is left for the scalar loop. -/
theorem colorMatrixWrites_five : colorMatrixWrites true true 4 0 5 = [0, 4, 8, 12] := by decide

/-- The sample addresses of a row: of the luma row, the chroma rows, and the step between chroma samples. -/
structure YuvRow where
  (y u v cstep : Nat)

/-- The fields of the input allocation and of the launch that the kernel reads. -/
structure YuvLaunch where
  (pinY strideY dimY0 pinU strideU pinV strideV step y dimX dimY : Nat)

/-- `dimY0 = 0` and `pinU = NULL` are the legacy layout: the chroma follows the luma, interleaved. -/
def YuvLaunch.row (p : YuvLaunch) : YuvRow :=
  let strideY := if p.dimY0 = 0 then p.dimX else p.strideY
  let y := p.pinY + p.y * strideY
  if p.pinU = 0 then
    let v := p.pinY + strideY * p.dimY + (p.y >>> 1) * strideY
    ⟨y, v + 1, v, 2⟩
  else ⟨y, p.pinU + (p.y >>> 1) * p.strideU, p.pinV + (p.y >>> 1) * p.strideV, p.step⟩

/-- A value of `bits` bits in two's complement. -/
def signed (bits : Nat) (n : Int) : Int := (n + 2 ^ (bits - 1)) % 2 ^ bits - 2 ^ (bits - 1)

/-- Pixel `x`, and the addresses of the samples it is made from at chroma index `cx`. -/
def YuvRow.sampled (r : YuvRow) (x : Nat) (cx : Int) : Nat × Int × Int × Int :=
  (x, r.y + x, r.u + cx, r.v + cx)

/-- The scalar loop writes two pixels in a step, both with the chroma of the first. -/
def YuvRow.writes (r : YuvRow) (x1 x2 : Nat) : List (Nat × Int × Int × Int) :=
  if x1 < x2 then
    let cx := signed 32 ((x1 >>> 1) * r.cstep : Nat)
    r.sampled x1 cx :: r.sampled (x1 + 1) cx :: r.writes (x1 + 2) x2
  else []
termination_by x2 - x1

/-- Pixel `x` from its own luma and the chroma sample `x >> 1`. -/
def YuvRow.pixels (r : YuvRow) (x1 x2 : Nat) : List (Nat × Int × Int × Int) :=
  (List.range' x1 (x2 - x1)).map fun x => r.sampled x ((x >>> 1) * r.cstep : Nat)

namespace YuvRow
variable (r : YuvRow) {x1 x2 : Nat}

theorem pixels_cons (inside : x1 < x2) :
    r.pixels x1 x2 = r.sampled x1 ((x1 >>> 1) * r.cstep : Nat) :: r.pixels (x1 + 1) x2 := by
  simp [pixels, show x2 - x1 = x2 - (x1 + 1) + 1 by omega, List.range'_succ]

theorem sampled_inj {x : Nat} {c d : Int} : r.sampled x c = r.sampled x d ↔ c = d := by
  simp [sampled]

/-- A step is right for a pair that starts at an even pixel, as long as the chroma index fits an `int`. -/
theorem step_iff (some : 0 < r.cstep) : (signed 32 ((x1 >>> 1) * r.cstep : Nat) = ((x1 >>> 1) * r.cstep : Nat) ∧
      signed 32 ((x1 >>> 1) * r.cstep : Nat) = (((x1 + 1) >>> 1) * r.cstep : Nat)) ↔
      2 ∣ x1 ∧ x1 / 2 * r.cstep < 2 ^ 31 := by
  rcases Nat.even_or_odd' x1 with ⟨k, rfl | rfl⟩
  · have eq : (2 * k + 1) / 2 = 2 * k / 2 := by omega
    simp only [Nat.shiftRight_one, eq, and_self, signed]
    omega
  · have next : (2 * k + 1 + 1) / 2 * r.cstep = (2 * k + 1) / 2 * r.cstep + r.cstep := by
      rw [show (2 * k + 1 + 1) / 2 = (2 * k + 1) / 2 + 1 by omega, Nat.succ_mul]
    simp only [Nat.shiftRight_one, next]
    omega

theorem writes_eq_iff (some : 0 < r.cstep) (x1 x2 : Nat) :
    r.writes x1 x2 = r.pixels x1 x2 ↔ (x1 < x2 → 2 ∣ x1 ∧ 2 ∣ x2 ∧ (x2 / 2 - 1) * r.cstep < 2 ^ 31) := by
  fun_induction r.writes x1 x2 with
  | case1 x1 inside cx ih =>
      rw [r.pixels_cons inside]
      by_cases last : x1 + 1 < x2
      · rw [r.pixels_cons last, List.cons.injEq, List.cons.injEq, sampled_inj, sampled_inj, ← and_assoc, r.step_iff some, ih]
        have most : x1 / 2 * r.cstep ≤ (x2 / 2 - 1) * r.cstep := Nat.mul_le_mul_right _ (by omega)
        by_cases more : x1 + 2 < x2
        · omega
        · obtain rfl : x2 = x1 + 2 := by omega
          rw [show (x1 + 2) / 2 - 1 = x1 / 2 by omega]
          omega
      · have one : r.pixels (x1 + 1) x2 = [] := by simp [pixels, show x2 - (x1 + 1) = 0 by omega]
        simp only [one, List.cons.injEq, reduceCtorEq, and_false, false_iff]
        omega
  | case2 x1 out => simp [pixels, out, Nat.sub_eq_zero_of_le (not_lt.mp out)]

end YuvRow

/-- `rsYuvToRGBA_uchar4`; every lane is narrowed to `short` before it is clamped. -/
def rsYuvToRGBA_uchar4 (short : Int → Int) (y u v : UInt8) : List Int :=
  let Y := short (y.toNat - 16)
  let U := short (u.toNat - 128)
  let V := short (v.toNat - 128)
  let p := [short ((Y * 298 + V * 409 + 128) / 2 ^ 8), short ((Y * 298 - U * 100 - V * 208 + 128) / 2 ^ 8),
    short ((Y * 298 + U * 516 + 128) / 2 ^ 8)]
  p.map (fun lane => if lane < 0 then 0 else if 255 < lane then 255 else lane) ++ [255]

end RenderScript.Intrinsics
