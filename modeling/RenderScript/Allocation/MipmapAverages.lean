import RenderScript.Allocation.MipmapLevels

/-!
# Mipmaps that are averages

For which textures every texel of a level is the average of four texels of the level before. The
passes take the dimensions of the level before from the table, so that they read texels that the
level does not have as soon as one of its dimensions is one.
-/

namespace RenderScript.Copies
open AlignedBytes ByteMemory LineCopies Stacking Sweeps Elements RenderScript.Types Allocations

def texelChannels (t : RsType) (memory : Memory) (c : Cell) : List Nat :=
  channels t.mElement.getSizeBits (wordAt memory t.mElement.getSizeBytes (c.offset t))

def clampedTexel (t : RsType) (memory : Memory) (face lod x y : Nat) : List Nat :=
  texelChannels t memory
    { x := min x ((t.mLodDim lod).x.toNat - 1), y := min y ((t.mLodDim lod).y.toNat - 1), z := 0, lod := lod, face := face }

def LevelsAverage (t : RsType) (memory : Memory) : Prop :=
  ∀ face < faceTotal t, ∀ lod, lod + 1 < t.mLodCount.toNat →
    ∀ x < (t.mLodDim (lod + 1)).x.toNat, ∀ y < (t.mLodDim (lod + 1)).y.toNat,
      texelChannels t memory { x := x, y := y, z := 0, lod := lod + 1, face := face } =
        average (clampedTexel t memory face lod (2 * x) (2 * y))
          (clampedTexel t memory face lod (2 * x + 1) (2 * y))
          (clampedTexel t memory face lod (2 * x) (2 * y + 1))
          (clampedTexel t memory face lod (2 * x + 1) (2 * y + 1))

def Generates (t : RsType) : Prop :=
  ∀ (script : Bool) (block : Memory), ∃ a after, rsdAllocationInit t script block = some a ∧
    a.rsdAllocationGenerateMipmaps = some after ∧ LevelsAverage t after.block ∧
    ∀ c : Cell, c.In t → c.lod = 0 → ∀ i < t.mElement.getSizeBytes,
      after.block (c.offset t + i) = block (c.offset t + i)

/-- All dimensions get to one in the same step, and no row of the block is left by a pass. -/
def Halves (t : RsType) : Prop :=
  t.mLodCount.toNat ≤ MAX_LOD ∧
    (t.mLodCount.toNat = 1 ∨ t.mElement.getSizeBits ≠ 16 ∧ t.dimX.toNat.log2 = t.dimY.toNat.log2 ∧
        ¬ (t.mElement.getSizeBits = 32 ∧ t.dimX = 3))

section

variable {t : RsType} (texture : Texture t)

theorem tableLevel_next (t : RsType) (lod : Nat) : tableLevel t (lod + 2) = (tableLevel t (lod + 1)).next :=
  Function.iterate_succ_apply' _ _ _

theorem widthOf_next (t : RsType) (lod : Nat) :
    widthOf t (lod + 2) = if 1 < widthOf t (lod + 1) then widthOf t (lod + 1) / 2 else widthOf t (lod + 1) := by
  rw [widthOf, tableLevel_next]
  exact toNat_halved _

theorem heightOf_next (t : RsType) (lod : Nat) : heightOf t (lod + 2) =
      if 1 < heightOf t (lod + 1) then heightOf t (lod + 1) / 2 else heightOf t (lod + 1) := by
  rw [heightOf, tableLevel_next]
  exact toNat_halved _

theorem log2_widthOf (t : RsType) (lod : Nat) : (widthOf t (lod + 1)).log2 = t.dimX.toNat.log2 - lod := by
  induction lod with
  | zero => rfl
  | succ lod ih =>
    rw [widthOf, tableLevel_next, Nat.sub_succ]
    exact (log2_halved _).trans (congrArg Nat.pred ih)

theorem log2_heightOf (t : RsType) (lod : Nat) : (heightOf t (lod + 1)).log2 = t.dimY.toNat.log2 - lod := by
  induction lod with
  | zero => rfl
  | succ lod ih =>
    rw [heightOf, tableLevel_next, Nat.sub_succ]
    exact (log2_halved _).trans (congrArg Nat.pred ih)

include texture

theorem Texture.mLodDim_x (lod : Nat) : (t.mLodDim lod).x.toNat = widthOf t (lod + 1) := by
  rw [texture.plain.mLodDim]
  rfl

theorem Texture.mLodDim_y (lod : Nat) : (t.mLodDim lod).y.toNat = heightOf t (lod + 1) := by
  rw [texture.plain.mLodDim]
  rfl

theorem Texture.levels_eq (several : 2 ≤ t.mLodCount.toNat) :
    t.mLodCount.toNat = max t.dimX.toNat.log2 t.dimY.toNat.log2 + 1 := by
  have count := texture.plain.mLodCount
  have flat : t.dimZ.toNat = 0 := congrArg UInt32.toNat texture.flat
  split at count
  · rw [count, depth, firstLevel, flat]
    exact congrArg (· + 1) (max_eq_left (Nat.zero_le _))
  · omega

theorem Texture.offset_eq {x y face lod : Nat} (room : t.mLodCount.toNat ≤ MAX_LOD)
    (several : 2 ≤ t.mLodCount.toNat) (lt : lod < t.mLodCount.toNat) (inX : x < widthOf t lod) (inY : y < heightOf t lod) :
    Cell.offset t { x := x, y := y, z := 0, lod := lod, face := face } = texelAt t face lod x y := by
  have low := inY.trans (texture.heightOf_lt room several lod)
  have narrow := texture.widthOf_lt room several lod
  have small := texture.size.2.2
  have bytes : x * t.mElement.getSizeBytes ≤ 2 ^ 16 * 4 := Nat.mul_le_mul (inX.trans narrow).le small
  rw [Cell.offset_eq (low.trans (by decide)), texture.plain.table_lod lt, texture.plain.table_faceOffset_eq,
    Nat.mod_eq_of_lt (bytes.trans_lt (by decide)), texelAt, levelStart]
  simp only [LodState.ofLevel, Nat.zero_mul, Nat.zero_mod, Nat.add_zero]
  rw [Nat.add_comm (face * _)]
  rfl

end

section

variable {t : RsType} (texture : Texture t) (room : t.mLodCount.toNat ≤ MAX_LOD)
  (several : 2 ≤ t.mLodCount.toNat) {face lod x y : Nat} {kept : Nat → Prop} {first last : Memory}

theorem texelAt_column (t : RsType) (face lod x y : Nat) :
    texelAt t face lod 0 y + x * (2 * t.mElement.getSizeBytes) = texelAt t face lod (2 * x) y ∧
      texelAt t face lod (2 * x) y + t.mElement.getSizeBytes = texelAt t face lod (2 * x + 1) y := by
  have cols : x * (2 * t.mElement.getSizeBytes) = 2 * x * t.mElement.getSizeBytes := by
    rw [mul_left_comm, mul_assoc]
  rw [texelAt, texelAt, texelAt, add_mul (2 * x) 1, one_mul, Nat.zero_mul]
  omega

theorem texelAt_mono {x' y' : Nat} (right : x ≤ x') (lower : y ≤ y') : texelAt t face lod x y ≤ texelAt t face lod x' y' :=
  add_le_add (Nat.add_le_add_left (Nat.mul_le_mul_right _ lower) _) (Nat.mul_le_mul_right _ right)

include texture

theorem Texture.passRow_eq (rows : t.mElement.getSizeBits ≠ 16) (lt : lod < t.mLodCount.toNat) (low : 2 * y + 1 < 2 ^ 32) :
    passRow t face lod (.ofNat y * 2) = texelAt t face lod 0 (2 * y) ∧
      passRow t face lod (.ofNat y * 2 + 1) = texelAt t face lod 0 (2 * y + 1) := by
  have even : UInt32.ofNat y * 2 = .ofNat (2 * y) := by
    rw [mul_comm, UInt32.ofNat_mul]
    rfl
  have odd : UInt32.ofNat y * 2 + 1 = .ofNat (2 * y + 1) := by
    rw [even, UInt32.ofNat_add]
    rfl
  rw [passRow, if_neg rows, odd, even]
  exact ⟨texture.rowAt_eq lt (by omega), texture.rowAt_eq lt low⟩

include room several

theorem Texture.stepTarget_texel (lt : lod + 1 < t.mLodCount.toNat) (inX : x < widthOf t (lod + 1))
    (inY : y < heightOf t (lod + 1)) :
    y * widthOf t (lod + 1) + x < heightOf t (lod + 1) * widthOf t (lod + 1) ∧
      stepTarget t.mElement.getSizeBytes (widthOf t (lod + 1)) (rowAt t face (lod + 1)) 0
        (y * widthOf t (lod + 1) + x) = texelAt t face (lod + 1) x y := by
  have wide := texture.widthOf_pos (lod + 1)
  have inPass := texel_in_pass inX inY
  refine ⟨inPass, ?_⟩
  rw [texture.stepTarget_eq room several lt inPass, mul_comm, Nat.mul_add_div wide,
    Nat.div_eq_of_lt inX, Nat.mul_add_mod, Nat.mod_eq_of_lt inX]
  rfl

/-- The memory from which a texel is computed: places in front of the texel are as in the end, those
behind it as in the beginning. -/
theorem Texture.texel_of_stage (stage : Stage t face lod kept first last)
    (lt : lod + 1 < t.mLodCount.toNat) (inX : x < widthOf t (lod + 1)) (inY : y < heightOf t (lod + 1)) :
    ∃ memory : Memory, (∀ location, levelStart t face 0 ≤ location → location < texelAt t face (lod + 1) x y →
        memory location = last location) ∧
      (∀ location, kept location → texelAt t face (lod + 1) x y ≤ location → memory location = first location) ∧
      let i1 := passRow t face lod (.ofNat y * 2) + x * (2 * t.mElement.getSizeBytes)
      let i2 := passRow t face lod (.ofNat y * 2 + 1) + x * (2 * t.mElement.getSizeBytes)
      wordAt last t.mElement.getSizeBytes (texelAt t face (lod + 1) x y) =
        passFilter t.mElement.getSizeBits (wordAt memory t.mElement.getSizeBytes i1)
          (wordAt memory t.mElement.getSizeBytes (i1 + t.mElement.getSizeBytes))
          (wordAt memory t.mElement.getSizeBytes i2)
          (wordAt memory t.mElement.getSizeBytes (i2 + t.mElement.getSizeBytes)) := by
  obtain ⟨-, before, eq, left⟩ := stage
  obtain ⟨inPass, target⟩ := Texture.stepTarget_texel texture room several lt inX inY
  have ends := @Texture.texelAt_end t texture room several face _ x y inX inY
  refine ⟨passMemory t face lod before (y * widthOf t (lod + 1) + x), ?_, ?_, ?_⟩
  · intro location start behind
    rw [texture.passMemory_behind room several lt inPass (target ▸ behind)]
    exact left location start (behind.trans_le ((Nat.le_add_right _ _).trans ends))
  · intro location untouched ahead
    rw [texture.passMemory_ahead room several lt inPass (target.symm ▸ ahead)]
    exact eq location untouched
  · refine Eq.trans ?_ (texture.passBlock_texel room several lt inX inY)
    refine wordAt_congr fun i inside => (left _ ?_ ?_).symm
    · have start : levelStart t face 0 ≤ levelStart t face (lod + 1) := levelStart_mono (Nat.zero_le _)
      rw [texelAt]
      omega
    · exact (Nat.add_lt_add_left inside _).trans_le ends

theorem Texture.average_of_stage (rows : t.mElement.getSizeBits ≠ 16) (stage : Stage t face lod kept first last)
    (lt : lod + 1 < t.mLodCount.toNat) (inX : x < widthOf t (lod + 1)) (inY : y < heightOf t (lod + 1))
    (inside : texelAt t face lod (2 * x + 1) (2 * y + 1) + t.mElement.getSizeBytes ≤ levelStart t face (lod + 1)) :
    wordAt last t.mElement.getSizeBytes (texelAt t face (lod + 1) x y) = passFilter t.mElement.getSizeBits
        (wordAt last t.mElement.getSizeBytes (texelAt t face lod (2 * x) (2 * y)))
        (wordAt last t.mElement.getSizeBytes (texelAt t face lod (2 * x + 1) (2 * y)))
        (wordAt last t.mElement.getSizeBytes (texelAt t face lod (2 * x) (2 * y + 1)))
        (wordAt last t.mElement.getSizeBytes (texelAt t face lod (2 * x + 1) (2 * y + 1))) := by
  have low := inY.trans (texture.heightOf_lt room several _)
  obtain ⟨memory, behind, -, value⟩ := texture.texel_of_stage room several stage lt inX inY
  obtain ⟨even, odd⟩ := @Texture.passRow_eq t texture face lod y rows (by omega) (by omega)
  simp only [even, odd, texelAt_column] at value
  have target : levelStart t face (lod + 1) ≤ texelAt t face (lod + 1) x y := by
    rw [texelAt]
    omega
  have start : levelStart t face 0 ≤ levelStart t face lod := levelStart_mono (Nat.zero_le _)
  have loaded {ptr : Nat} (above : levelStart t face lod ≤ ptr) (ends : ptr ≤ texelAt t face lod (2 * x + 1) (2 * y + 1)) :
      wordAt memory t.mElement.getSizeBytes ptr = wordAt last t.mElement.getSizeBytes ptr :=
    wordAt_congr fun i inWord => behind _ (by omega) (by omega)
  have corner (x y : Nat) : levelStart t face lod ≤ texelAt t face lod x y := by
    rw [texelAt]
    omega
  rw [value, loaded (corner _ _) (texelAt_mono (Nat.le_succ _) (Nat.le_succ _)),
    loaded (corner _ _) (texelAt_mono le_rfl (Nat.le_succ _)),
    loaded (corner _ _) (texelAt_mono (Nat.le_succ _) le_rfl), loaded (corner _ _) le_rfl]

end

section

variable {t : RsType} (texture : Texture t) (room : t.mLodCount.toNat ≤ MAX_LOD)
  (several : 2 ≤ t.mLodCount.toNat) (rows : t.mElement.getSizeBits ≠ 16)
  (square : t.dimX.toNat.log2 = t.dimY.toNat.log2) {face lod x y : Nat}

include texture several square

theorem Texture.dims_several (lt : lod + 1 < t.mLodCount.toNat) : 1 < widthOf t (lod + 1) ∧ 1 < heightOf t (lod + 1) := by
  have levels := texture.levels_eq several
  constructor
  · apply one_lt_of_log2
    rw [log2_widthOf]
    omega
  · apply one_lt_of_log2
    rw [log2_heightOf]
    omega

theorem Texture.dims_half (lt : lod + 1 < t.mLodCount.toNat) :
    widthOf t (lod + 2) = widthOf t (lod + 1) / 2 ∧ heightOf t (lod + 2) = heightOf t (lod + 1) / 2 := by
  obtain ⟨wide, tall⟩ := texture.dims_several several square lt
  rw [widthOf_next, heightOf_next, if_pos wide, if_pos tall]
  exact ⟨rfl, rfl⟩

include room rows

/-- What the pass over level 0 reads behind the level: its rows go on in level 1, and the last one
in level 2. -/
theorem Texture.first_reads (narrow : ¬ (t.mElement.getSizeBits = 32 ∧ t.dimX = 3)) :
    2 * heightOf t 0 * tableStride t 0 + 2 * widthOf t 0 * t.mElement.getSizeBytes ≤
      offset (tableSize t) t.mLodCount.toNat + tableStride t 0 := by
  obtain ⟨bits, -, -⟩ := texture.size
  have levels := texture.levels_eq several
  have eq : widthOf t 1 = widthOf t 0 ∧ heightOf t 1 = heightOf t 0 ∧ tableStride t 1 = tableStride t 0 := ⟨rfl, rfl, rfl⟩
  have stride := texture.stride_eq room several 0
  have two : offset (tableSize t) 2 = 2 * heightOf t 0 * tableStride t 0 := by
    rw [offset_succ, offset_succ, offset_zero, texture.tableSize_eq, texture.tableSize_eq, eq.2.1, eq.2.2, mul_assoc]
    omega
  rcases several.eq_or_lt with last | more
  · have wide : widthOf t 0 < 2 ^ 2 := by
      apply lt_two_pow_of_log2
      rw [← eq.1, log2_widthOf]
      omega
    rw [← last, two, stride, alignUp]
    rcases texture.bits with one | planes | four
    · have bytes : t.mElement.getSizeBytes = 1 := by omega
      rw [bytes]
      omega
    · exact absurd planes rows
    · have bytes : t.mElement.getSizeBytes = 4 := by omega
      have notThree : widthOf t 0 ≠ 3 := fun three => narrow ⟨four, UInt32.toNat_inj.mp three⟩
      rw [bytes]
      omega
  · have three : offset (tableSize t) 3 ≤ offset (tableSize t) t.mLodCount.toNat := offset_mono more
    have tall : 1 < heightOf t 2 := (texture.dims_several several square more).2
    have half : widthOf t 2 = widthOf t 0 / 2 := (texture.dims_half several square several).1
    have level : 2 * tableStride t 2 ≤ heightOf t 2 * tableStride t 2 := Nat.mul_le_mul_right _ tall
    have stride2 := texture.stride_eq room several 2
    rw [offset_succ, two, texture.tableSize_eq] at three
    rw [alignUp] at stride stride2
    rcases texture.bits with one | planes | four
    · have bytes : t.mElement.getSizeBytes = 1 := by omega
      rw [bytes] at stride stride2 ⊢
      omega
    · exact absurd planes rows
    · have bytes : t.mElement.getSizeBytes = 4 := by omega
      rw [bytes] at stride stride2 ⊢
      omega

theorem Texture.reads_end (narrow : ¬ (t.mElement.getSizeBits = 32 ∧ t.dimX = 3))
    (lt : lod + 1 < t.mLodCount.toNat) (inX : x < widthOf t (lod + 1)) (inY : y < heightOf t (lod + 1)) :
    texelAt t face lod (2 * x + 1) (2 * y + 1) + t.mElement.getSizeBytes ≤ levelStart t (face + 1) 0 := by
  rw [← levelStart_end]
  cases lod with
  | zero =>
    have reads := texture.first_reads room several rows square narrow
    have lines : (2 * y + 1 + 1) * tableStride t 0 ≤ 2 * heightOf t 0 * tableStride t 0 :=
      Nat.mul_le_mul_right _ (by change y < heightOf t 0 at inY; omega)
    have cols : (2 * x + 1 + 1) * t.mElement.getSizeBytes ≤ 2 * widthOf t 0 * t.mElement.getSizeBytes :=
      Nat.mul_le_mul_right _ (by change x < widthOf t 0 at inX; omega)
    rw [add_mul _ 1, one_mul] at lines cols
    rw [texelAt, levelStart, levelStart, offset_zero]
    omega
  | succ lod =>
    obtain ⟨halfX, halfY⟩ := texture.dims_half several square (Nat.lt_of_succ_lt lt)
    change x < widthOf t (lod + 2) at inX
    change y < heightOf t (lod + 2) at inY
    have ends := @Texture.texelAt_end t texture room several face (lod + 1) (2 * x + 1) (2 * y + 1) (by omega) (by omega)
    exact ends.trans (levelStart_mono (by omega))

theorem Texture.passInside (narrow : ¬ (t.mElement.getSizeBits = 32 ∧ t.dimX = 3))
    (inFace : face < faceTotal t) (lt : lod + 1 < t.mLodCount.toNat) : PassInside t face lod := by
  intro y inY x inX
  have low := inY.trans (texture.heightOf_lt room several _)
  have faceEnd : levelStart t (face + 1) 0 ≤ (allocationBuildPointerTable t).allocSize := by
    rw [allocSize_levelStart texture.plain]
    exact levelStart_face_mono inFace
  have reads := @Texture.reads_end t texture room several rows square face _ x y narrow lt inX inY
  have line : texelAt t face lod (2 * x + 1) (2 * y) ≤ texelAt t face lod (2 * x + 1) (2 * y + 1) :=
    texelAt_mono le_rfl (Nat.le_succ _)
  obtain ⟨even, odd⟩ := @Texture.passRow_eq t texture face lod y rows (by omega) (by omega)
  obtain ⟨first, second⟩ := texelAt_column t face lod x (2 * y)
  obtain ⟨third, fourth⟩ := texelAt_column t face lod x (2 * y + 1)
  refine ⟨?_, ?_, ?_⟩
  · have ends : texelAt t face (lod + 1) x y + t.mElement.getSizeBytes ≤ levelStart t face (lod + 2) :=
      texture.texelAt_end room several inX inY
    have level : levelStart t face (lod + 2) ≤ levelStart t face t.mLodCount.toNat := levelStart_mono lt
    rw [levelStart_end] at level
    rw [texture.rowAt_eq lt (by omega), texelAt, Nat.zero_mul, add_zero]
    exact (ends.trans level).trans faceEnd
  · omega
  · omega

end

section

variable {t : RsType} (texture : Texture t) (room : t.mLodCount.toNat ≤ MAX_LOD)
  (several : 2 ≤ t.mLodCount.toNat) {face lod x y : Nat} {memory : Memory}

theorem widthOf_succ_le (t : RsType) (lod : Nat) : widthOf t (lod + 1) ≤ widthOf t lod := by
  cases lod with
  | zero => exact le_rfl
  | succ lod =>
    rw [widthOf_next]
    split <;> omega

theorem heightOf_succ_le (t : RsType) (lod : Nat) : heightOf t (lod + 1) ≤ heightOf t lod := by
  cases lod with
  | zero => exact le_rfl
  | succ lod =>
    rw [heightOf_next]
    split <;> omega

include texture room several

theorem Texture.texelChannels_eq (lt : lod < t.mLodCount.toNat) (inX : x < widthOf t lod) (inY : y < heightOf t lod) :
    texelChannels t memory { x := x, y := y, z := 0, lod := lod, face := face } =
      channels t.mElement.getSizeBits (wordAt memory t.mElement.getSizeBytes (texelAt t face lod x y)) := by
  rw [texelChannels, texture.offset_eq room several lt inX inY]

theorem Texture.clampedTexel_eq (lt : lod < t.mLodCount.toNat) : clampedTexel t memory face lod x y =
      channels t.mElement.getSizeBits (wordAt memory t.mElement.getSizeBytes
        (texelAt t face lod (min x (widthOf t (lod + 1) - 1)) (min y (heightOf t (lod + 1) - 1)))) := by
  have wide := texture.widthOf_pos (lod + 1)
  have tall := texture.heightOf_pos (lod + 1)
  have smallerX := widthOf_succ_le t lod
  have smallerY := heightOf_succ_le t lod
  rw [clampedTexel, texture.mLodDim_x, texture.mLodDim_y]
  exact texture.texelChannels_eq room several lt (by omega) (by omega)

theorem Texture.levelsAverage (rows : t.mElement.getSizeBits ≠ 16) (square : t.dimX.toNat.log2 = t.dimY.toNat.log2)
    (stages : ∀ f < faceTotal t, ∀ l, l + 1 < t.mLodCount.toNat → ∃ kept first, Stage t f l kept first memory) :
    LevelsAverage t memory := by
  intro face inFace lod lt x inX y inY
  obtain ⟨kept, first, stage⟩ := stages face inFace lod lt
  obtain ⟨halfX, halfY⟩ := texture.dims_half several square lt
  rw [texture.mLodDim_x] at inX
  rw [texture.mLodDim_y] at inY
  change x < widthOf t (lod + 2) at inX
  change y < heightOf t (lod + 2) at inY
  have smallerX := widthOf_succ_le t lod
  have smallerY := heightOf_succ_le t lod
  have inside := @Texture.texelAt_end t texture room several face lod (2 * x + 1) (2 * y + 1) (by omega) (by omega)
  have value := texture.average_of_stage room several rows stage lt (by omega) (by omega) inside
  have small (x : Nat) (inRow : x < widthOf t (lod + 1)) : min x (widthOf t (lod + 1) - 1) = x := min_eq_left (by omega)
  have low (y : Nat) (inColumn : y < heightOf t (lod + 1)) : min y (heightOf t (lod + 1) - 1) = y := min_eq_left (by omega)
  rw [texture.texelChannels_eq room several lt (by omega) (by omega), value,
    texture.averaging.channels (texture.word_lt _ _) (texture.word_lt _ _) (texture.word_lt _ _) (texture.word_lt _ _)]
  simp only [texture.clampedTexel_eq room several (Nat.lt_of_succ_lt lt)]
  rw [small _ (by omega), small _ (by omega), low _ (by omega), low _ (by omega)]

end

section

variable {t : RsType} {a after : Alloc}

theorem mipFaces_zero (count face : Nat) (a : Alloc) : mipFaces 0 count face a = some a := by
  induction count generalizing face with
  | zero => rfl
  | succ count ih => exact ih (face + 1)

theorem generate_eq (of : a.Of t) : a.rsdAllocationGenerateMipmaps = mipFaces (t.mLodCount - 1).toNat (faceTotal t) 0 a := by
  rw [Alloc.rsdAllocationGenerateMipmaps, of.type]
  rfl

theorem toNat_passes (some : 1 ≤ t.mLodCount.toNat) : (t.mLodCount - 1).toNat + 1 = t.mLodCount.toNat := by
  have le : (1 : UInt32) ≤ t.mLodCount := UInt32.le_iff_toNat_le.mpr some
  rw [UInt32.toNat_sub_of_le _ _ le]
  exact Nat.sub_add_cancel some

theorem Texture.generates_of_halves (texture : Texture t) (halves : Halves t) : Generates t := by
  obtain ⟨room, shape⟩ := halves
  intro script block
  have of : Alloc.Of t { type := t, laid := t, script := script, block := block } := ⟨rfl, rfl⟩
  have passes := toNat_passes texture.plain.one_le_mLodCount
  by_cases one : t.mLodCount.toNat = 1
  · have none : (t.mLodCount - 1).toNat = 0 := by omega
    refine ⟨_, ⟨t, t, script, block, fun _ => 0⟩, if_pos room, ?_, ?_, fun _ _ _ _ _ => rfl⟩
    · rw [generate_eq of, none]
      exact mipFaces_zero _ _ _
    · intro face _ lod lt
      omega
  · obtain ⟨rows, square, narrow⟩ := shape.resolve_left one
    have several : 2 ≤ t.mLodCount.toNat := by
      omega
    obtain ⟨after, made⟩ := @Texture.mipFaces_exists t texture _ 0 (faceTotal t) _ passes of fun f _ lt l inLevels =>
        texture.passInside room several rows square narrow (by omega) (by omega)
    obtain ⟨-, kept, stages⟩ := texture.mipFaces_stages room several passes of made
    refine ⟨_, after, if_pos room, (generate_eq of).trans made, ?_, ?_⟩
    · apply texture.levelsAverage room several rows square
      intro f inFace l lt
      exact ⟨_, _, stages f (Nat.zero_le _) (by omega) l (by omega)⟩
    · rintro ⟨x, y, z, lod, face⟩ isIn rfl i inside
      have flat : z = 0 := by
        have deep : z < max (t.mLodDim 0).z.toNat 1 := isIn.z
        have none : (t.mLodDim 0).z.toNat = 0 := by
          rw [texture.plain.mLodDim]
          exact congrArg UInt32.toNat texture.flat
        omega
      have inX : x < widthOf t 0 := (texture.mLodDim_x 0) ▸ isIn.x
      have inY : y < heightOf t 0 := by
        have tall := isIn.y
        rw [texture.mLodDim_y] at tall
        exact tall.trans_eq (max_eq_left (texture.heightOf_pos 1))
      have ends := @Texture.texelAt_end t texture room several face 0 x y inX inY
      subst flat
      rw [texture.offset_eq room several (by omega) inX inY]
      refine kept face (Nat.zero_le _) (by simpa using isIn.face) _ ?_ ?_
      · rw [texelAt]
        omega
      · exact (Nat.add_lt_add_left inside _).trans_le ends

end

end RenderScript.Copies
