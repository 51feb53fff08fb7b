import Mathlib

/-!
# 4x4 matrices, quaternions and the view frustum

`rsMatrix4x4.cpp` and the script functions over `rs_matrix4x4`, in exact arithmetic.
-/

namespace RenderScript.Math

/-- The sixteen entries of an `rs_matrix4x4`. -/
abbrev Matrix4x4 (K : Type*) := Fin 16 → K

local instance fourNeZero : NeZero 4 := ⟨by decide⟩

namespace Matrix4x4

variable {K : Type*} (m lhs rhs : Matrix4x4 K)

def get (x y : Fin 4) : K := m ⟨x * 4 + y, by omega⟩

def ofEntries (entry : Fin 4 → Fin 4 → K) : Matrix4x4 K := fun k => entry ⟨k / 4, by omega⟩ ⟨k % 4, by omega⟩

@[simp] theorem get_ofEntries (entry : Fin 4 → Fin 4 → K) (x y : Fin 4) : (ofEntries entry).get x y = entry x y := by
  simp only [get, ofEntries]
  congr 1 <;> exact Fin.ext (by dsimp only; omega)

theorem ext_get {m n : Matrix4x4 K} (same : ∀ x y, m.get x y = n.get x y) : m = n := by
  funext k
  have at_k : ∀ m : Matrix4x4 K, m.get ⟨k / 4, by omega⟩ ⟨k % 4, by omega⟩ = m k := fun m =>
    congrArg m (Fin.ext (by dsimp only; omega))
  rw [← at_k m, same, at_k n]

/-- Two entries exchanged through `temp`. -/
def swap (x y : Fin 4) : Matrix4x4 K :=
  ofEntries fun a b => if (a, b) = (x, y) then m.get y x else if (a, b) = (y, x) then m.get x y else m.get a b

def transpose : Matrix4x4 K :=
  [(0, 1), (0, 2), (0, 3), (1, 2), (1, 3), (2, 3)].foldl (fun m (i, j) => m.swap i j) m

@[simp] theorem get_transpose (x y : Fin 4) : m.transpose.get x y = m.get y x := by
  fin_cases x <;> fin_cases y <;> simp [transpose, swap]

/-- The entries as a matrix, with `get x y` in row `x` and column `y`. -/
def toMatrix : Matrix (Fin 4) (Fin 4) K := .of m.get

variable {m} in
theorem toMatrix_inj {n : Matrix4x4 K} (same : m.toMatrix = n.toMatrix) : m = n :=
  ext_get fun x y => congrFun (congrFun same x) y

theorem toMatrix_transpose : m.transpose.toMatrix = m.toMatrix.transpose := by
  ext x y
  simp [toMatrix]

variable [Field K]

def loadIdentity : Matrix4x4 K := ofEntries fun x y => if x = y then 1 else 0

def loadMultiply : Matrix4x4 K :=
  ofEntries fun i c => (List.finRange 4).foldl (fun r j => r + lhs.get j c * rhs.get i j) 0

/-- The cofactor for `i` and `j`, where `i` counts columns and `j` rows of `m[c + 4*r]`. -/
def cofactor (i j : Fin 4) : K :=
  let (c0, c1, c2) := (i + 1, i + 2, i + 3)
  let (r0, r1, r2) := (j + 1, j + 2, j + 3)
  let minor :=
    m.get r0 c0 * (m.get r1 c1 * m.get r2 c2 - m.get r2 c1 * m.get r1 c2)
    - m.get r1 c0 * (m.get r0 c1 * m.get r2 c2 - m.get r2 c1 * m.get r0 c2)
    + m.get r2 c0 * (m.get r0 c1 * m.get r1 c2 - m.get r1 c1 * m.get r0 c2)
  if (i + j : Nat) % 2 = 1 then -minor else minor

theorem toMatrix_loadIdentity : (loadIdentity : Matrix4x4 K).toMatrix = 1 := by
  ext x y
  simp [toMatrix, loadIdentity, Matrix.one_apply]

theorem get_loadMultiply (x y : Fin 4) : (lhs.loadMultiply rhs).get x y =
    lhs.get 0 y * rhs.get x 0 + lhs.get 1 y * rhs.get x 1 + lhs.get 2 y * rhs.get x 2 + lhs.get 3 y * rhs.get x 3 := by
  simp [loadMultiply, List.finRange_succ]

theorem toMatrix_loadMultiply : (lhs.loadMultiply rhs).toMatrix = rhs.toMatrix * lhs.toMatrix := by
  ext x y
  simp [toMatrix, get_loadMultiply, Matrix.mul_apply, Fin.sum_univ_four, mul_comm]

theorem cofactor_eq (i j : Fin 4) : m.cofactor i j = m.toMatrix.adjugate i j := by
  rw [Matrix.adjugate_fin_succ_eq_det_submatrix, Matrix.det_fin_three]
  fin_cases i <;> fin_cases j <;> simp [cofactor, toMatrix, Fin.succAbove, Fin.lt_def] <;> ring

theorem det_eq : m 0 * m.cofactor 0 0 + m 4 * m.cofactor 0 1 + m 8 * m.cofactor 0 2 + m 12 * m.cofactor 0 3 =
    m.toMatrix.det := by
  have expanded : (m.toMatrix.adjugate * m.toMatrix) 0 0 = m.toMatrix.det := by
    rw [Matrix.adjugate_mul, Matrix.smul_apply, Matrix.one_apply_eq, smul_eq_mul, mul_one]
  rw [Matrix.mul_apply, Fin.sum_univ_four] at expanded
  rw [← expanded, cofactor_eq, cofactor_eq, cofactor_eq, cofactor_eq, mul_comm (m 0), mul_comm (m 4), mul_comm (m 8),
    mul_comm (m 12)]
  rfl

variable [LinearOrder K]

def inverse : Bool × Matrix4x4 K :=
  let result := ofEntries m.cofactor
  let det := m 0 * result 0 + m 4 * result 1 + m 8 * result 2 + m 12 * result 3
  if |det| < 1e-6 then (false, m) else (true, fun i => result i * (1 / det))

def inverseTranspose : Bool × Matrix4x4 K :=
  let result := ofEntries fun j i => m.cofactor i j
  let det := m 0 * result 0 + m 4 * result 4 + m 8 * result 8 + m 12 * result 12
  if |det| < 1e-6 then (false, m) else (true, fun i => result i * (1 / det))

theorem inverse_eq : m.inverse = if |m.toMatrix.det| < 1e-6 then (false, m) else
    (true, ofEntries fun x y => m.toMatrix.adjugate x y * (1 / m.toMatrix.det)) := by
  rw [← det_eq]
  simp only [← cofactor_eq]
  rfl

theorem inverseTranspose_eq : m.inverseTranspose = if |m.toMatrix.det| < 1e-6 then (false, m) else
    (true, ofEntries fun x y => m.toMatrix.adjugate y x * (1 / m.toMatrix.det)) := by
  rw [← det_eq]
  simp only [← cofactor_eq]
  rfl

/-- `inverse` leaves a matrix of small determinant alone and otherwise stores its two-sided inverse, and
`inverseTranspose` accepts the same matrices and stores the transpose of that. -/
theorem inverse_spec [IsStrictOrderedRing K] (m : Matrix4x4 K) :
    (m.inverse.1 = true → m.loadMultiply m.inverse.2 = loadIdentity ∧ m.inverse.2.loadMultiply m = loadIdentity ∧
      m.inverseTranspose.2 = m.inverse.2.transpose) ∧
    m.inverseTranspose.1 = m.inverse.1 ∧
    (m.inverse.1 = false ↔ |m.toMatrix.det| < 1e-6) ∧
    (m.inverse.1 = false → m.inverse.2 = m ∧ m.inverseTranspose.2 = m) := by
  rw [inverse_eq, inverseTranspose_eq]
  by_cases small : |m.toMatrix.det| < 1e-6
  · simp [small]
  · have nonzero : m.toMatrix.det ≠ 0 := fun zero => small (by rw [zero, abs_zero]; norm_num)
    simp only [if_neg small]
    have stored : (ofEntries fun x y => m.toMatrix.adjugate x y * (1 / m.toMatrix.det)).toMatrix =
        m.toMatrix.det⁻¹ • m.toMatrix.adjugate := by
      ext x y
      simp [toMatrix, mul_comm]
    refine ⟨fun _ => ⟨toMatrix_inj ?_, toMatrix_inj ?_, ext_get fun x y => ?_⟩, trivial, iff_of_false nofun small, nofun⟩
    · rw [toMatrix_loadMultiply, stored, toMatrix_loadIdentity, Matrix.smul_mul, Matrix.adjugate_mul, smul_smul,
        inv_mul_cancel₀ nonzero, one_smul]
    · rw [toMatrix_loadMultiply, stored, toMatrix_loadIdentity, Matrix.mul_smul, Matrix.mul_adjugate, smul_smul,
        inv_mul_cancel₀ nonzero, one_smul]
    · simp

theorem inverse_spec_identity : (loadIdentity : Matrix4x4 ℚ).inverseTranspose.1 = (loadIdentity : Matrix4x4 ℚ).inverse.1 :=
  (inverse_spec _).2.1

end Matrix4x4

/-! ## Quaternions -/

@[ext] structure Quaternion where
  (w x y z : ℝ)

namespace Quaternion

noncomputable section

variable (q q0 q1 rhs : Quaternion)

def conjugate : Quaternion := ⟨q.w, -q.x, -q.y, -q.z⟩

def dot : ℝ := q0.w * q1.w + q0.x * q1.x + q0.y * q1.y + q0.z * q1.z

def scale (s : ℝ) : Quaternion := ⟨q.w * s, q.x * s, q.y * s, q.z * s⟩

def normalize : Quaternion := if q.dot q ≠ 1 then q.scale (1 / √(q.dot q)) else q

def product : Quaternion where
  w := q.w * rhs.w - q.x * rhs.x - q.y * rhs.y - q.z * rhs.z
  x := q.w * rhs.x + q.x * rhs.w + q.y * rhs.z - q.z * rhs.y
  y := q.w * rhs.y + q.y * rhs.w + q.z * rhs.x - q.x * rhs.z
  z := q.w * rhs.z + q.z * rhs.w + q.x * rhs.y - q.y * rhs.x

def multiply : Quaternion := (q.product rhs).normalize

def getMatrixUnit : Matrix4x4 ℝ :=
  ![1 - 2 * (q.y * q.y + q.z * q.z), 2 * (q.x * q.y + q.z * q.w), 2 * (q.x * q.z - q.y * q.w), 0,
    2 * (q.x * q.y - q.z * q.w), 1 - 2 * (q.x * q.x + q.z * q.z), 2 * (q.y * q.z + q.x * q.w), 0,
    2 * (q.x * q.z + q.y * q.w), 2 * (q.y * q.z - q.x * q.w), 1 - 2 * (q.x * q.x + q.y * q.y), 0,
    0, 0, 0, 1]

end

variable {p q : Quaternion}

theorem dot_product (p q : Quaternion) : (p.product q).dot (p.product q) = p.dot p * q.dot q := by
  simp only [dot, product]
  ring

theorem multiply_of_unit (left : p.dot p = 1) (right : q.dot q = 1) : p.multiply q = p.product q := by
  rw [multiply, normalize, dot_product, left, right, mul_one, if_neg (not_not_intro rfl)]

/-- With a unit quaternion the diagonal is homogeneous of degree two like the rest. -/
theorem getMatrixUnit_of_unit (unit : q.dot q = 1) : q.getMatrixUnit =
    ![q.w * q.w + q.x * q.x - q.y * q.y - q.z * q.z, 2 * (q.x * q.y + q.z * q.w), 2 * (q.x * q.z - q.y * q.w), 0,
      2 * (q.x * q.y - q.z * q.w), q.w * q.w - q.x * q.x + q.y * q.y - q.z * q.z, 2 * (q.y * q.z + q.x * q.w), 0,
      2 * (q.x * q.z + q.y * q.w), 2 * (q.y * q.z - q.x * q.w), q.w * q.w - q.x * q.x - q.y * q.y + q.z * q.z, 0,
      0, 0, 0, 1] := by
  simp only [dot] at unit
  have first : 1 - 2 * (q.y * q.y + q.z * q.z) = q.w * q.w + q.x * q.x - q.y * q.y - q.z * q.z := by
    linear_combination -unit
  have second : 1 - 2 * (q.x * q.x + q.z * q.z) = q.w * q.w - q.x * q.x + q.y * q.y - q.z * q.z := by
    linear_combination -unit
  have third : 1 - 2 * (q.x * q.x + q.y * q.y) = q.w * q.w - q.x * q.x - q.y * q.y + q.z * q.z := by
    linear_combination -unit
  rw [getMatrixUnit, first, second, third]

theorem getMatrixUnit_product (left : p.dot p = 1) (right : q.dot q = 1) :
    (p.product q).getMatrixUnit = p.getMatrixUnit.loadMultiply q.getMatrixUnit := by
  have unit : (p.product q).dot (p.product q) = 1 := by rw [dot_product, left, right, mul_one]
  rw [getMatrixUnit_of_unit unit, getMatrixUnit_of_unit left, getMatrixUnit_of_unit right]
  refine Matrix4x4.ext_get fun x y => ?_
  rw [Matrix4x4.get_loadMultiply]
  fin_cases x <;> fin_cases y <;> simp [Matrix4x4.get, product] <;> ring

theorem getMatrixUnit_conjugate (q : Quaternion) : q.conjugate.getMatrixUnit = q.getMatrixUnit.transpose := by
  refine Matrix4x4.ext_get fun x y => ?_
  rw [Matrix4x4.get_transpose]
  fin_cases x <;> fin_cases y <;> simp [Matrix4x4.get, getMatrixUnit, conjugate] <;> ring

theorem getMatrixUnit_special (unit : q.dot q = 1) : q.getMatrixUnit.toMatrix ∈ Matrix.specialOrthogonalGroup (Fin 4) ℝ := by
  have conjugated : q.conjugate.dot q.conjugate = 1 := by simpa [dot, conjugate] using unit
  have one : (q.product q.conjugate).getMatrixUnit.toMatrix = 1 := by
    have cancels : q.product q.conjugate = ⟨1, 0, 0, 0⟩ := by
      rw [dot] at unit
      ext <;> simp only [product, conjugate]
      · linear_combination unit
      all_goals ring
    rw [cancels, ← Matrix4x4.toMatrix_loadIdentity]
    refine congrArg _ (Matrix4x4.ext_get fun x y => ?_)
    fin_cases x <;> fin_cases y <;> simp [Matrix4x4.get, getMatrixUnit, Matrix4x4.loadIdentity, Matrix4x4.ofEntries]
  rw [getMatrixUnit_product unit conjugated, Matrix4x4.toMatrix_loadMultiply, getMatrixUnit_conjugate,
    Matrix4x4.toMatrix_transpose] at one
  refine Matrix.mem_specialOrthogonalGroup_iff.mpr ⟨(Matrix.mem_orthogonalGroup_iff' _ _).mpr one, ?_⟩
  have cubed : q.getMatrixUnit.toMatrix.det = q.dot q ^ 3 := by
    rw [← Matrix4x4.det_eq, getMatrixUnit_of_unit unit]
    simp [Matrix4x4.cofactor, Matrix4x4.get, dot]
    ring
  rw [cubed, unit, one_pow]

/-- The matrices of unit quaternions multiply as the quaternions do and are rotations, transposed by conjugation. -/
theorem getMatrixUnit_spec (left : p.dot p = 1) (right : q.dot q = 1) :
    (p.multiply q).getMatrixUnit = p.getMatrixUnit.loadMultiply q.getMatrixUnit ∧
      p.conjugate.getMatrixUnit = p.getMatrixUnit.transpose ∧
      p.getMatrixUnit.toMatrix ∈ Matrix.specialOrthogonalGroup (Fin 4) ℝ := by
  rw [multiply_of_unit left right]
  exact ⟨getMatrixUnit_product left right, getMatrixUnit_conjugate p, getMatrixUnit_special left⟩

theorem getMatrixUnit_spec_turns : (multiply ⟨0, 1, 0, 0⟩ ⟨0, 0, 1, 0⟩).getMatrixUnit =
    (getMatrixUnit ⟨0, 1, 0, 0⟩).loadMultiply (getMatrixUnit ⟨0, 0, 1, 0⟩) :=
  (getMatrixUnit_spec (by simp [dot]) (by simp [dot])).1

end Quaternion

/-! ## The view frustum -/

namespace Frustum

/-- A `float4`: a plane, or a sphere with its radius in the last component. -/
abbrev Float4 := Fin 4 → ℝ

noncomputable section

/-- The entries that `rsMatrixMultiply` combines into component `k`. -/
def row (m : Matrix4x4 ℝ) (k : Fin 4) : Float4 := fun i => m.get i k

/-- `a*x + b*y + c*z + d` for the plane `a b c d`. -/
def Float4.at (plane : Float4) (x y z : ℝ) : ℝ := plane 0 * x + plane 1 * y + plane 2 * z + plane 3

def rsMatrixMultiply (m : Matrix4x4 ℝ) (x y z : ℝ) : Float4 := fun k => (row m k).at x y z

/-- The planes left, right, top, bottom, near and far before they are divided by their lengths. -/
def planes (m : Matrix4x4 ℝ) : List Float4 :=
  [row m 3 + row m 0, row m 3 - row m 0, row m 3 - row m 1, row m 3 + row m 1, row m 3 + row m 2, row m 3 - row m 2]

def Float4.length (plane : Float4) : ℝ := √(plane 0 ^ 2 + plane 1 ^ 2 + plane 2 ^ 2)

def rsExtractFrustumPlanes (m : Matrix4x4 ℝ) : List Float4 := (planes m).map fun plane i => plane i / plane.length

def rsIsSphereInFrustum (sphere : Float4) (planes : List Float4) : Bool :=
  planes.all fun plane => !decide (plane.at (sphere 0) (sphere 1) (sphere 2) < -sphere 3)

end

/-- The clip volume `-w ≤ x, y, z ≤ w`. -/
def Clip (v : Float4) : Prop := ∀ k ≠ 3, -v 3 ≤ v k ∧ v k ≤ v 3

theorem clip_iff (m : Matrix4x4 ℝ) (x y z : ℝ) : Clip (rsMatrixMultiply m x y z) ↔ ∀ plane ∈ planes m, 0 ≤ plane.at x y z := by
  have sum : ∀ k, (row m 3 + row m k).at x y z = rsMatrixMultiply m x y z k + rsMatrixMultiply m x y z 3 := fun k => by
    simp only [rsMatrixMultiply, Float4.at, Pi.add_apply]
    ring
  have difference : ∀ k, (row m 3 - row m k).at x y z = rsMatrixMultiply m x y z 3 - rsMatrixMultiply m x y z k := fun k => by
      simp only [rsMatrixMultiply, Float4.at, Pi.sub_apply]
      ring
  simp only [planes, List.forall_mem_cons, List.not_mem_nil, false_imp_iff, implies_true, and_true, sum, difference,
    Clip, Fin.forall_fin_succ]
  simp [neg_le_iff_add_nonneg]
  tauto

/-- The distance from a plane changes by at most the distance moved. -/
theorem at_le (plane : Float4) (x y z a b c r : ℝ) (nonneg : 0 ≤ r) (near : (a - x) ^ 2 + (b - y) ^ 2 + (c - z) ^ 2 ≤ r ^ 2) :
    plane.at a b c ≤ plane.at x y z + plane.length * r := by
  have cauchy : plane 0 * (a - x) + plane 1 * (b - y) + plane 2 * (c - z) ≤ plane.length * r := by
    have squares : (plane 0 * (a - x) + plane 1 * (b - y) + plane 2 * (c - z)) ^ 2 ≤
        (plane 0 ^ 2 + plane 1 ^ 2 + plane 2 ^ 2) * r ^ 2 := by
      refine le_trans ?_ (mul_le_mul_of_nonneg_left near (by positivity))
      nlinarith [sq_nonneg (plane 0 * (b - y) - plane 1 * (a - x)), sq_nonneg (plane 0 * (c - z) - plane 2 * (a - x)),
        sq_nonneg (plane 1 * (c - z) - plane 2 * (b - y))]
    calc
      _ ≤ √((plane 0 ^ 2 + plane 1 ^ 2 + plane 2 ^ 2) * r ^ 2) := Real.le_sqrt_of_sq_le squares
      _ = plane.length * r := by rw [Real.sqrt_mul (by positivity), Real.sqrt_sq nonneg, Float4.length]
  simp only [Float4.at]
  linarith

theorem at_divided (plane : Float4) (x y z : ℝ) :
    Float4.at (fun i => plane i / plane.length) x y z = plane.at x y z / plane.length := by
  simp only [Float4.at]
  ring

/-- A sphere is reported outside only if no point of it is seen, and a point precisely if it is not. -/
theorem rsIsSphereInFrustum_spec {m : Matrix4x4 ℝ} (normals : ∀ plane ∈ planes m, plane.length ≠ 0)
    {sphere : Float4} (radius : 0 ≤ sphere 3) :
    (rsIsSphereInFrustum sphere (rsExtractFrustumPlanes m) = false →
      ∀ a b c, (a - sphere 0) ^ 2 + (b - sphere 1) ^ 2 + (c - sphere 2) ^ 2 ≤ sphere 3 ^ 2 →
        ¬ Clip (rsMatrixMultiply m a b c)) ∧
    (sphere 3 = 0 → (rsIsSphereInFrustum sphere (rsExtractFrustumPlanes m) = true ↔
      Clip (rsMatrixMultiply m (sphere 0) (sphere 1) (sphere 2)))) := by
  have pos : ∀ plane ∈ planes m, 0 < plane.length := fun plane mem =>
    (Real.sqrt_nonneg _).lt_of_ne' (normals plane mem)
  constructor
  · intro out a b c near clip
    simp only [rsIsSphereInFrustum, rsExtractFrustumPlanes, List.all_map, List.all_eq_false, Function.comp_apply,
      Bool.not_eq_true', Bool.not_eq_false, decide_eq_true_eq, at_divided] at out
    obtain ⟨plane, mem, lt⟩ := out
    have seen := (clip_iff m a b c).mp clip plane mem
    have moved := at_le plane (sphere 0) (sphere 1) (sphere 2) a b c (sphere 3) radius near
    rw [div_lt_iff₀ (pos plane mem)] at lt
    nlinarith
  · intro point
    simp only [clip_iff, rsIsSphereInFrustum, rsExtractFrustumPlanes, List.all_map, List.all_eq_true, Function.comp_apply,
      Bool.not_eq_true', decide_eq_false_iff_not, at_divided, point, neg_zero, not_lt]
    exact forall₂_congr fun plane mem => by rw [le_div_iff₀ (pos plane mem), zero_mul]

theorem rsIsSphereInFrustum_spec_origin : rsIsSphereInFrustum 0 (rsExtractFrustumPlanes Matrix4x4.loadIdentity) = true ↔
      Clip (rsMatrixMultiply Matrix4x4.loadIdentity 0 0 0) :=
  (rsIsSphereInFrustum_spec (by simp [planes, Float4.length, row, Matrix4x4.loadIdentity]) le_rfl).2 rfl

end Frustum

end RenderScript.Math
