import RenderScript.Allocation.CopyBoxes

/-!
# Pointers of clients

`Allocation::getPointer` of rsAllocation.cpp hands out pointers to levels, and `rsdAllocationInit` of
driver/rsdAllocation.cpp takes a buffer of the client as the block or copies it. The first ignores
face and plane, and the copy is that of one rectangle.
-/

namespace RenderScript.Copies
open ByteMemory LineCopies Stacking Elements RenderScript.Types Allocations

/-- `stride` is `NULL` or points to a value. The result is the pointer and what `stride` points to
then. -/
def Alloc.getPointer (a : Alloc) (lod face : Nat) (z array : UInt32) (stride : Option Nat) :
    Option (Nat × Option Nat) :=
  if a.table.lodCount.toNat ≤ lod ∨ (z ≠ 0 ∧ (a.table.lod lod).dimZ ≤ z) ∨
      (face ≠ 0 ∧ a.type.faces = false) ∨ array ≠ 0 then none
  else
    some ((a.table.lod lod).mallocPtr,
      if (a.table.lod 0).dimY ≠ 0 then stride.map fun _ => (a.table.lod lod).stride else stride)

/-- The first cell of a plane is at the pointer, and the other rows follow with the stride. -/
structure Points (a : Alloc) (lod face : Nat) (z : UInt32) (ptr : Nat) (stride : Option Nat) : Prop where
  first : ptr = a.getOffsetPtr 0 0 z lod face
  rows : ∀ s ∈ stride, ∀ y : UInt32, y.toNat < max (a.table.lod lod).dimY.toNat 1 →
    ptr + y.toNat * s = a.getOffsetPtr 0 y z lod face

def AtStart (a : Alloc) (lod face : Nat) (z : UInt32) : Prop :=
  face * a.table.faceOffset = 0 ∧ (z * (a.table.lod lod).dimY).toNat * (a.table.lod lod).stride = 0

section

variable {a : Alloc} {lod face ptr : Nat} {z array : UInt32} {stride stride' : Option Nat}

theorem Alloc.getPointer_inv (found : a.getPointer lod face z array stride = some (ptr, stride')) :
    lod < a.table.lodCount.toNat ∧ ptr = (a.table.lod lod).mallocPtr ∧
      stride' = if (a.table.lod 0).dimY ≠ 0 then stride.map fun _ => (a.table.lod lod).stride else stride := by
  unfold Alloc.getPointer at found
  split at found
  · cases found
  · cases found
    rename_i accepted
    exact ⟨not_le.mp fun above => accepted (.inl above), rfl, rfl⟩

theorem table_lodCount {t : RsType} (plain : Plain t) : (allocationBuildPointerTable t).lodCount = t.mLodCount := by
  rcases plain.one_le_mLodCount.eq_or_lt with one | several
  · rw [table_of_single plain.notYuv one.symm]
  · rw [table_of_several several]

theorem flat_levels (plain : Plain a.laid) (lt : lod < a.table.lodCount.toNat)
    (flat : (a.table.lod 0).dimY = 0) : (a.table.lod lod).dimY.toNat = 0 := by
  have inTable := table_lodCount plain ▸ lt
  rw [Alloc.table, plain.table_lod plain.one_le_mLodCount] at flat
  rw [Alloc.table, plain.table_lod inTable]
  exact (within_tableLevel a.laid lod).zeroY.mpr (congrArg UInt32.toNat flat)

theorem Alloc.getOffsetPtr_row (y : UInt32) :
    a.getOffsetPtr 0 y z lod face = (a.table.lod lod).mallocPtr + face * a.table.faceOffset +
      (z * (a.table.lod lod).dimY).toNat * (a.table.lod lod).stride + y.toNat * (a.table.lod lod).stride := by
  rw [Alloc.getOffsetPtr, Allocations.getOffsetPtr, UInt32.zero_mul]
  rfl

/-- The pointer is right at the start of a level, and nowhere else. -/
theorem getPointer_points_iff (plain : Plain a.laid) (found : a.getPointer lod face z array stride = some (ptr, stride')) :
    Points a lod face z ptr stride' ↔ AtStart a lod face z := by
  obtain ⟨lt, rfl, rfl⟩ := Alloc.getPointer_inv found
  constructor
  · intro points
    have first := points.first
    rw [Alloc.getOffsetPtr_row, UInt32.toNat_zero, Nat.zero_mul] at first
    constructor
    · omega
    · omega
  · rintro ⟨faceZero, planeZero⟩
    constructor
    · rw [Alloc.getOffsetPtr_row, faceZero, planeZero, UInt32.toNat_zero, Nat.zero_mul]
      rfl
    · intro s reported y inY
      rw [Alloc.getOffsetPtr_row, faceZero, planeZero]
      split at reported
      · obtain ⟨-, -, rfl⟩ := Option.map_eq_some_iff.mp reported
        rfl
      · rename_i flat
        rw [flat_levels plain lt (not_not.mp flat)] at inY
        simp [Nat.lt_one_iff.mp inY]

end

private def cubeCell : Element := .mk 0 (.set .unsigned32 .user false 1) []

private def cubes (dimY dimZ : UInt32) (faces : Bool) : Alloc where
  type := .create 0 cubeCell
    { dimX := 4, dimY := dimY, dimZ := dimZ, mDimLOD := false, faces := faces, dimYuv := 0 }
  laid := .create 0 cubeCell
    { dimX := 4, dimY := dimY, dimZ := dimZ, mDimLOD := false, faces := faces, dimYuv := 0 }
  script := true
  block := fun _ => 0

theorem getPointer_points_iff_plane : (cubes 3 2 false).getPointer 0 0 0 0 (some 0) = some (0, some 16) ∧
      Points (cubes 3 2 false) 0 0 0 0 (some 16) := by
  have found : (cubes 3 2 false).getPointer 0 0 0 0 (some 0) = some (0, some 16) := by decide +kernel
  exact ⟨found, (getPointer_points_iff ⟨rfl, rfl⟩ found).mpr ⟨Nat.zero_mul _, by decide⟩⟩

/-- The second plane and the second face get the pointer of the first. -/
theorem getPointer_ignores : ((cubes 3 2 false).getPointer 0 0 1 0 (some 0) = some (0, some 16) ∧
      ¬ Points (cubes 3 2 false) 0 0 1 0 (some 16)) ∧
    (cubes 3 0 true).getPointer 0 1 0 0 (some 0) = some (0, some 16) ∧ ¬ Points (cubes 3 0 true) 0 1 0 0 (some 16) := by
  have plane : (cubes 3 2 false).getOffsetPtr 0 0 1 0 0 = 48 := by decide +kernel
  have face : (cubes 3 0 true).getOffsetPtr 0 0 0 0 1 = 48 := by decide +kernel
  refine ⟨⟨by decide +kernel, fun points => ?_⟩, by decide +kernel, fun points => ?_⟩
  · exact absurd (points.first.trans plane) (by decide)
  · exact absurd (points.first.trans face) (by decide)

def RS_ALLOCATION_USAGE_SCRIPT : UInt32 := 0x0001

def RS_ALLOCATION_USAGE_GRAPHICS_TEXTURE : UInt32 := 0x0002

def RS_ALLOCATION_USAGE_SHARED : UInt32 := 0x0080

def UserUsage (usageFlags : UInt32) : Prop :=
  usageFlags = RS_ALLOCATION_USAGE_SCRIPT ||| RS_ALLOCATION_USAGE_SHARED ∨
    usageFlags = RS_ALLOCATION_USAGE_SCRIPT ||| RS_ALLOCATION_USAGE_SHARED |||
      RS_ALLOCATION_USAGE_GRAPHICS_TEXTURE

instance (usageFlags : UInt32) : Decidable (UserUsage usageFlags) := inferInstanceAs (Decidable (_ ∨ _))

/-- `memory` is what `memalign` hands out. -/
def allocAlignedMemory (memory : Option Memory) (forceZero : Bool) : Option Memory :=
  memory.map fun ptr => if forceZero then fun _ => 0 else ptr

/-- `rsdAllocationInit` for an allocation that is not for IO and has `userProvidedPtr`. Without a
result it returns `false`. -/
def userInit (t : RsType) (usageFlags : UInt32) (userProvidedPtr : Memory) (memory : Option Memory)
    (forceZero : Bool) : Option (Option Alloc) :=
  if MAX_LOD < t.mLodCount.toNat then none
  else if ¬ UserUsage usageFlags then some none
  else if t.mDimLOD = true ∨ t.faces = true then some none
  else if t.dimX.toNat * t.mElement.getSizeBytes % 16 ≠ 0 then
    match allocAlignedMemory memory forceZero with
    | none => some none
    | some ptr =>
      let a : Alloc := { type := t, laid := t, script := true, block := ptr }
      (a.rsdAllocationData2D 0 0 0 0 t.dimX t.dimY (.buffer userProvidedPtr) 0).map some
  else some (some { type := t, laid := t, script := true, block := userProvidedPtr })

/-- Where the buffer has a cell. Rows and planes follow each other without padding. -/
def bufferOffset (t : RsType) (c : Cell) : Nat :=
  ((c.z * max t.dimY.toNat 1 + c.y) * t.dimX.toNat + c.x) * t.mElement.getSizeBytes

theorem bufferOffset_eq (t : RsType) (c : Cell) :
    bufferOffset t c = (c.z * max t.dimY.toNat 1 + c.y) * (t.dimX.toNat * t.mElement.getSizeBytes) +
      c.x * t.mElement.getSizeBytes := by
  rw [bufferOffset, add_mul _ c.x, mul_assoc]

def Shows (t : RsType) (bytes : Memory) (a : Alloc) : Prop :=
  ∀ c : Cell, c.In t → ∀ j < t.mElement.getSizeBytes,
    a.block (a.getOffsetPtr (.ofNat c.x) (.ofNat c.y) (.ofNat c.z) c.lod c.face + j) =
      bytes (bufferOffset t c + j)

def ShowsBuffers (t : RsType) : Prop :=
  ∀ (usageFlags : UInt32) (userProvidedPtr ptr : Memory) (forceZero : Bool), UserUsage usageFlags →
    ∃ a, userInit t usageFlags userProvidedPtr (some ptr) forceZero = some (some a) ∧ Shows t userProvidedPtr a

def BufferFits (t : RsType) : Prop :=
  if t.dimX.toNat * t.mElement.getSizeBytes % 16 = 0 then
    t.dimX.toNat * t.mElement.getSizeBytes = 0 ∨
      (t.dimX.toNat - 1) * t.mElement.getSizeBytes < 2 ^ 32 ∧ (rowsOf (firstLevel t) ≠ 1 → RowsFit t)
  else
    t.dimX.toNat * t.mElement.getSizeBytes + 15 < 2 ^ 32 ∧ t.dimY ≠ 0 ∧ t.dimZ.toNat ≤ 1

structure Flat (t : RsType) : Prop where
  plain : Plain t
  single : t.mDimLOD = false
  noFaces : t.faces = false

section

variable {t : RsType} (flat : Flat t)

include flat

theorem Flat.levels : t.mLodCount.toNat = 1 := flat.plain.mLodCount_eq_one_iff.mpr (.inl flat.single)

theorem Flat.in_iff {c : Cell} : c.In t ↔
    c.lod = 0 ∧ c.face = 0 ∧ c.x < t.dimX.toNat ∧ c.y < max t.dimY.toNat 1 ∧ c.z < max t.dimZ.toNat 1 := by
  have faces : faceTotal t = 1 := if_neg (flat.noFaces ▸ Bool.false_ne_true)
  constructor
  · rintro ⟨inLod, inFace, inX, inY, inZ⟩
    have level : c.lod = 0 := Nat.lt_one_iff.mp (flat.levels ▸ inLod)
    rw [level, flat.plain.mLodDim] at inX inY inZ
    exact ⟨level, Nat.lt_one_iff.mp (faces ▸ inFace), inX, inY, inZ⟩
  · obtain ⟨x, y, z, lod, face⟩ := c
    rintro ⟨level, face, inX, inY, inZ⟩
    cases level
    cases face
    exact flat.plain.in_level_zero inX inY inZ faceTotal_pos

theorem Flat.offset_eq {c : Cell} (isIn : c.In t) :
    c.offset t = (c.z * t.dimY.toNat % 2 ^ 32 + c.y) * rsRound (t.dimX.toNat * t.mElement.getSizeBytes) 16 +
      c.x * t.mElement.getSizeBytes % 2 ^ 32 := by
  have low := isIn.low
  obtain ⟨level, noFace, -⟩ := flat.in_iff.mp isIn
  obtain ⟨x, y, z, lod, face⟩ := c
  cases level
  cases noFace
  rw [flat.plain.offset_level_zero low, Nat.zero_mul, zero_add]
  rfl

omit flat in
theorem Alloc.Of.cell_offset {a : Alloc} (of : a.Of t) (c : Cell) :
    a.getOffsetPtr (.ofNat c.x) (.ofNat c.y) (.ofNat c.z) c.lod c.face = c.offset t := by
  rw [Alloc.getOffsetPtr, of.table, Alloc.elementSizeBytes, of.type]
  rfl

theorem userInit_eq {usageFlags : UInt32} (accepted : UserUsage usageFlags) (buffer ptr : Memory) (forceZero : Bool) :
    userInit t usageFlags buffer (some ptr) forceZero = if t.dimX.toNat * t.mElement.getSizeBytes % 16 ≠ 0 then
        ((⟨t, t, true, if forceZero then fun _ => 0 else ptr, fun _ => 0⟩ : Alloc).rsdAllocationData2D
          0 0 0 0 t.dimX t.dimY (.buffer buffer) 0).map some
      else some (some ⟨t, t, true, buffer, fun _ => 0⟩) := by
  have levels : ¬ MAX_LOD < t.mLodCount.toNat := by
    rw [flat.levels]
    decide
  have plain : ¬ (t.mDimLOD = true ∨ t.faces = true) := by
    rw [flat.single, flat.noFaces]
    decide
  unfold userInit
  rw [if_neg levels, if_neg (not_not.mpr accepted), if_neg plain]
  rfl

/-!
### The buffer as the block
-/

theorem Flat.shows_of_aligned (aligned : t.dimX.toNat * t.mElement.getSizeBytes % 16 = 0) :
    ShowsBuffers t ↔ ∀ c : Cell, c.In t → 0 < t.mElement.getSizeBytes → c.offset t = bufferOffset t c := by
  have made {usageFlags : UInt32} (accepted : UserUsage usageFlags) (buffer ptr : Memory) (forceZero : Bool) :=
    (userInit_eq flat accepted buffer ptr forceZero).trans (if_neg (not_not.mpr aligned))
  constructor
  · intro shows c isIn pos
    obtain ⟨a, result, eq⟩ := shows (RS_ALLOCATION_USAGE_SCRIPT ||| RS_ALLOCATION_USAGE_SHARED)
      (fun i => if i = bufferOffset t c then 1 else 0) (fun _ => 0) false (.inl rfl)
    rw [made (.inl rfl)] at result
    cases result
    have byte := eq c isIn 0 pos
    rw [Alloc.Of.cell_offset ⟨rfl, rfl⟩] at byte
    dsimp only at byte
    rw [add_zero, add_zero, if_pos rfl] at byte
    by_contra different
    rw [if_neg different] at byte
    exact absurd byte (by decide)
  · intro places usageFlags buffer ptr forceZero accepted
    refine ⟨_, made accepted buffer ptr forceZero, fun c isIn j inCell => ?_⟩
    rw [Alloc.Of.cell_offset ⟨rfl, rfl⟩, places c isIn ((Nat.zero_le j).trans_lt inCell)]

section

variable (aligned : t.dimX.toNat * t.mElement.getSizeBytes % 16 = 0)
  (cells : 0 < t.dimX.toNat * t.mElement.getSizeBytes)

section

variable (places : ∀ c : Cell, c.In t → c.offset t = bufferOffset t c)

include places

theorem Flat.place_eq {x y z : Nat} (inX : x < t.dimX.toNat) (inY : y < max t.dimY.toNat 1) (inZ : z < max t.dimZ.toNat 1) :
    (z * t.dimY.toNat % 2 ^ 32 + y) * rsRound (t.dimX.toNat * t.mElement.getSizeBytes) 16 + x * t.mElement.getSizeBytes % 2 ^ 32 =
      (z * max t.dimY.toNat 1 + y) * (t.dimX.toNat * t.mElement.getSizeBytes) + x * t.mElement.getSizeBytes := by
  have isIn : Cell.In t ⟨x, y, z, 0, 0⟩ := flat.in_iff.mpr ⟨rfl, rfl, inX, inY, inZ⟩
  have place := places _ isIn
  rwa [flat.offset_eq isIn, bufferOffset_eq] at place

include cells

theorem Flat.width_of_places : (t.dimX.toNat - 1) * t.mElement.getSizeBytes < 2 ^ 32 := by
  have wide : 0 < t.dimX.toNat := Nat.pos_of_mul_pos_right cells
  have place := @Flat.place_eq t flat places _ 0 0 (Nat.sub_one_lt wide.ne') (by omega) (by omega)
  simp only [Nat.zero_mul, Nat.zero_mod, zero_add] at place
  rw [← place]
  exact Nat.mod_lt _ (Nat.two_pow_pos 32)

theorem Flat.stride_of_places (several : rowsOf (firstLevel t) ≠ 1) : (t.dimY.toNat = 0 → t.dimZ.toNat ≤ 1) ∧
      rsRound (t.dimX.toNat * t.mElement.getSizeBytes) 16 = t.dimX.toNat * t.mElement.getSizeBytes := by
  have wide : 0 < t.dimX.toNat := Nat.pos_of_mul_pos_right cells
  have rows : rowsOf (firstLevel t) = max t.dimY.toNat 1 * max t.dimZ.toNat 1 := rfl
  by_cases deep : 2 ≤ t.dimZ.toNat
  · have place := @Flat.place_eq t flat places 0 0 1 wide (by omega) (by omega)
    simp only [one_mul, Nat.zero_mul, Nat.zero_mod, add_zero, Nat.mod_eq_of_lt t.dimY.toNat_lt] at place
    have lines : t.dimY.toNat ≠ 0 := by
      intro none
      rw [none, Nat.zero_mul, max_eq_right (Nat.zero_le 1), one_mul] at place
      exact cells.ne place
    rw [max_eq_left (pos_of_ne_zero lines)] at place
    exact ⟨fun none => absurd none lines, Nat.eq_of_mul_eq_mul_left (pos_of_ne_zero lines) place⟩
  · have lines : 2 ≤ t.dimY.toNat := by
      by_contra few
      rw [rows, max_eq_right (by omega), max_eq_right (by omega)] at several
      exact several rfl
    have place := @Flat.place_eq t flat places 0 1 0 wide (by omega) (by omega)
    simp only [one_mul, Nat.zero_mul, Nat.zero_mod, add_zero, zero_add] at place
    exact ⟨fun none => by omega, place⟩

theorem Flat.rowsFit_of_places (several : rowsOf (firstLevel t) ≠ 1) : RowsFit t := by
  obtain ⟨planes, stride⟩ := flat.stride_of_places cells places several
  have wide : 0 < t.dimX.toNat := Nat.pos_of_mul_pos_right cells
  refine .inr ⟨?_, ?_, planes⟩
  · by_contra long
    have short := rsRound_lt (not_lt.mp long)
    omega
  · have place := @Flat.place_eq t flat places 0 0 (max t.dimZ.toNat 1 - 1) wide (by omega) (by omega)
    rw [stride] at place
    simp only [Nat.zero_mul, Nat.zero_mod, add_zero] at place
    rcases eq_zero_or_pos t.dimY.toNat with none | some
    · rw [none, Nat.mul_zero]
      exact Nat.two_pow_pos 32
    · rw [max_eq_left (Nat.succ_le_of_lt some)] at place
      rw [← Nat.eq_of_mul_eq_mul_right cells place]
      exact Nat.mod_lt _ (Nat.two_pow_pos 32)

end

include aligned

theorem Flat.places (narrow : (t.dimX.toNat - 1) * t.mElement.getSizeBytes < 2 ^ 32)
    (fits : rowsOf (firstLevel t) ≠ 1 → RowsFit t) {c : Cell} (isIn : c.In t) :
    c.offset t = bufferOffset t c := by
  obtain ⟨-, -, inX, inY, inZ⟩ := flat.in_iff.mp isIn
  have rows : rowsOf (firstLevel t) = max t.dimY.toNat 1 * max t.dimZ.toNat 1 := rfl
  have inRow := (Nat.mul_le_mul_right _ (Nat.le_sub_one_of_lt inX)).trans_lt narrow
  rw [flat.offset_eq isIn, bufferOffset_eq, Nat.mod_eq_of_lt inRow]
  by_cases one : rowsOf (firstLevel t) = 1
  · have lines := Nat.eq_one_of_mul_eq_one_right (rows.symm.trans one)
    have planes := Nat.eq_one_of_mul_eq_one_left (rows.symm.trans one)
    rw [lines] at inY
    rw [planes] at inZ
    rw [Nat.lt_one_iff.mp inY, Nat.lt_one_iff.mp inZ]
    simp
  · rcases fits one with empty | ⟨short, numbers, flatPlanes⟩
    · have none : c.x * t.mElement.getSizeBytes = 0 := by
        have narrower := Nat.mul_le_mul_right t.mElement.getSizeBytes inX.le
        omega
      simp [empty, none, rsRound_zero]
    · have stride : rsRound (t.dimX.toNat * t.mElement.getSizeBytes) 16 = t.dimX.toNat * t.mElement.getSizeBytes := by
        rw [rsRound_eq short, AlignedBytes.alignUp]
        omega
      have number : c.z * t.dimY.toNat % 2 ^ 32 = c.z * max t.dimY.toNat 1 := by
        rcases eq_zero_or_pos t.dimY.toNat with none | some
        · have first : c.z = 0 := by omega
          simp [first]
        · rw [max_eq_left (Nat.succ_le_of_lt some)]
          apply Nat.mod_eq_of_lt
          exact (Nat.mul_le_mul_right _ (by omega)).trans_lt numbers
      rw [stride, number]

end

/-!
### The buffer as the source of a copy
-/

omit flat in
theorem block_of_copyLines {a a' : Alloc} {bytes : Memory} {w lineSize stride lodStride lines dst : Nat}
    (copied : copyLines w lineSize stride lodStride lines dst (.buffer bytes) a = some a') :
    a'.block = copy bytes lineSize lines (fun i => dst + i * lodStride) (fun i => i * stride) a.block := by
  obtain ⟨refs, result⟩ := @copyLines_eq a bytes w lineSize stride _ lines dst 0 (inside_of_copyLines copied)
  simp only [zero_add] at result
  rw [copied] at result
  cases result
  rfl

theorem Flat.shows_of_padded (short : t.dimX.toNat * t.mElement.getSizeBytes + 15 < 2 ^ 32)
    (lines : t.dimY ≠ 0) (single : t.dimZ.toNat ≤ 1) (padded : t.dimX.toNat * t.mElement.getSizeBytes % 16 ≠ 0) :
    ShowsBuffers t := by
  have high : t.dimY.toNat ≠ 0 := fun none => lines (UInt32.toNat_inj.mp none)
  have fits : RowsFit t := by
    refine .inr ⟨short, ?_, fun _ => single⟩
    rw [max_eq_right single, Nat.zero_mul]
    exact Nat.two_pow_pos 32
  intro usageFlags buffer ptr forceZero accepted
  obtain ⟨refs, copied⟩ := @Alloc.Of.data2D t
    ⟨t, t, true, if forceZero then fun _ => 0 else ptr, fun _ => 0⟩ 0 0 t.dimX t.dimY 0 0 buffer 0
    flat.plain fits (whole_in flat.plain) ⟨rfl, rfl⟩
  have made := (userInit_eq flat accepted buffer ptr forceZero).trans
    ((if_pos padded).trans (congrArg (Option.map some) copied))
  refine ⟨_, made, fun c cellIn j inCell => ?_⟩
  · obtain ⟨level, noFace, inX, inY, inZ⟩ := flat.in_iff.mp cellIn
    rw [max_eq_right single] at inZ
    rw [max_eq_left (pos_of_ne_zero high)] at inY
    have first : c.z = 0 := Nat.lt_one_iff.mp inZ
    have has : (requestBox 0 0 0 t.dimX t.dimY 1 0 0).Has c := by
      refine ⟨level, noFace, ⟨Nat.zero_le _, ?_⟩, ⟨Nat.zero_le _, ?_⟩, ⟨Nat.zero_le _, ?_⟩⟩
      · exact inX.trans_eq (zero_add _).symm
      · exact inY.trans_eq (zero_add _).symm
      · exact inZ.trans_eq (zero_add _).symm
    have written := (whole_in flat.plain).written flat.plain fits buffer (if forceZero then fun _ => 0 else ptr)
      (lineStride (t.dimX.toNat * t.mElement.getSizeBytes) 0) c has j inCell
    have line : (requestBox 0 0 0 t.dimX t.dimY 1 0 0).lineOf c = c.y := by
      simp [Box.lineOf, requestBox, first]
    refine written.trans (congrArg buffer ?_)
    rw [line, bufferOffset_eq, first, Nat.zero_mul, zero_add, add_assoc]
    rfl

theorem Flat.data2D_inv {a a' : Alloc} (of : a.Of t) {buffer : Memory} {lineSize : Nat}
    (size : t.mElement.getSizeBytes % 2 ^ 32 * t.dimX.toNat = lineSize)
    (uploaded : a.rsdAllocationData2D 0 0 0 0 t.dimX t.dimY (.buffer buffer) 0 = some a') :
    (∀ i < t.dimY.toNat, i * rsRound (t.dimX.toNat * t.mElement.getSizeBytes) 16 + lineSize ≤
      (allocationBuildPointerTable t).allocSize) ∧
    a'.block = copy buffer lineSize t.dimY.toNat
      (· * rsRound (t.dimX.toNat * t.mElement.getSizeBytes) 16) (· * lineSize) a.block := by
  have count : lineCount 0 t.dimY = t.dimY.toNat := by
    rw [lineCount, zero_add]
    rfl
  have stride : (a.table.lod 0).stride = rsRound (t.dimX.toNat * t.mElement.getSizeBytes) 16 := by
    rw [of.table, table_lod_zero flat.plain.notYuv flat.plain.one_le_mLodCount]
    rfl
  have start : a.getOffsetPtr 0 0 0 0 0 = 0 := by
    rw [of.getOffsetPtr]
    exact (flat.plain.offset_rowCell 0).trans (by simp)
  rw [Alloc.data2D_eq_bind, of.elementSizeBytes, size, count, stride, start] at uploaded
  obtain ⟨lines, copied, chroma⟩ := Option.bind_eq_some_iff.mp uploaded
  have after : lines.Of t := of.copyLines copied
  rw [Alloc.copyYuv_plain (after.type ▸ flat.plain.notYuv)] at chroma
  cases chroma
  have inside := inside_of_copyLines copied
  have block := block_of_copyLines copied
  simp only [zero_add, lineStride, if_true] at inside block
  rw [of.table] at inside
  exact ⟨inside, block⟩

section

variable (padded : t.dimX.toNat * t.mElement.getSizeBytes % 16 ≠ 0) (shows : ShowsBuffers t)

include padded shows

theorem Flat.copied_of_shows (buffer : Memory) :
    ∃ a a' : Alloc, a.Of t ∧ a'.Of t ∧ (∀ location, a.block location = 0) ∧ Shows t buffer a' ∧
      a.rsdAllocationData2D 0 0 0 0 t.dimX t.dimY (.buffer buffer) 0 = some a' := by
  obtain ⟨a', made, eq⟩ := shows (RS_ALLOCATION_USAGE_SCRIPT ||| RS_ALLOCATION_USAGE_SHARED) buffer
    (fun _ => 0) true (.inl rfl)
  rw [userInit_eq flat (.inl rfl), if_pos padded] at made
  obtain ⟨after, uploaded, result⟩ := Option.map_eq_some_iff.mp made
  cases result
  refine ⟨_, a', ⟨rfl, rfl⟩, ?_, fun _ => rfl, eq, uploaded⟩
  obtain ⟨lines, copied, chroma⟩ := Option.bind_eq_some_iff.mp uploaded
  have of : lines.Of t := Alloc.Of.copyLines ⟨rfl, rfl⟩ copied
  rw [Alloc.copyYuv_plain (of.type ▸ flat.plain.notYuv)] at chroma
  cases chroma
  exact of

theorem Flat.taken_of_shows {c : Cell} (isIn : c.In t) {j : Nat} (inCell : j < t.mElement.getSizeBytes) :
    bufferOffset t c + j < t.dimY.toNat * (t.mElement.getSizeBytes % 2 ^ 32 * t.dimX.toNat) := by
  by_contra behind
  obtain ⟨a, a', of, of', zero, eq, uploaded⟩ :=
    flat.copied_of_shows padded shows fun i => if i = bufferOffset t c + j then 1 else 0
  have block := (flat.data2D_inv of rfl uploaded).2
  have lost : a'.block (c.offset t + j) = 0 := by
    rw [block]
    apply copy_forall (p := (· = 0)) zero
    intro i inLines k inLine
    apply if_neg
    have before : (i + 1) * (t.mElement.getSizeBytes % 2 ^ 32 * t.dimX.toNat) ≤
        t.dimY.toNat * (t.mElement.getSizeBytes % 2 ^ 32 * t.dimX.toNat) := Nat.mul_le_mul_right _ inLines
    rw [Nat.succ_mul] at before
    omega
  have byte := eq c isIn j inCell
  rw [of'.cell_offset, lost] at byte
  exact absurd (byte.trans (if_pos rfl)) (by decide)

theorem Flat.fits_of_shows : t.dimX.toNat * t.mElement.getSizeBytes + 15 < 2 ^ 32 ∧ t.dimY ≠ 0 ∧ t.dimZ.toNat ≤ 1 := by
  have cells : 0 < t.dimX.toNat * t.mElement.getSizeBytes := by
    apply pos_of_ne_zero
    intro none
    rw [none] at padded
    exact padded rfl
  have wide : 0 < t.dimX.toNat := Nat.pos_of_mul_pos_right cells
  have pos := Nat.pos_of_mul_pos_left cells
  have lineSize : t.mElement.getSizeBytes % 2 ^ 32 * t.dimX.toNat ≤ t.dimX.toNat * t.mElement.getSizeBytes :=
    (Nat.mul_le_mul_right _ (Nat.mod_le _ _)).trans_eq (mul_comm _ _)
  have taken {x y z j : Nat} (inX : x < t.dimX.toNat) (inY : y < max t.dimY.toNat 1)
      (inZ : z < max t.dimZ.toNat 1) (inCell : j < t.mElement.getSizeBytes) :
      (z * max t.dimY.toNat 1 + y) * (t.dimX.toNat * t.mElement.getSizeBytes) + x * t.mElement.getSizeBytes + j <
        t.dimY.toNat * (t.mElement.getSizeBytes % 2 ^ 32 * t.dimX.toNat) := by
    have inside := flat.taken_of_shows padded shows (Plain.in_level_zero flat.plain inX inY inZ faceTotal_pos) inCell
    rw [bufferOffset_eq] at inside
    exact inside
  have lines : 0 < t.dimY.toNat := by
    have first := @taken 0 0 0 0 wide (by omega) (by omega) pos
    exact Nat.pos_of_mul_pos_right ((Nat.zero_le _).trans_lt first)
  rw [max_eq_left (Nat.succ_le_of_lt lines)] at taken
  have planes : t.dimZ.toNat ≤ 1 := by
    by_contra deep
    have second := @taken 0 0 1 0 wide lines (by omega) pos
    have all := Nat.mul_le_mul_left t.dimY.toNat lineSize
    simp only [one_mul, add_zero, Nat.zero_mul] at second
    omega
  -- the last byte of the plane
  have whole : t.dimX.toNat * t.mElement.getSizeBytes ≤ t.mElement.getSizeBytes % 2 ^ 32 * t.dimX.toNat := by
    have last := @taken (t.dimX.toNat - 1) (t.dimY.toNat - 1) 0 _
      (Nat.sub_one_lt wide.ne') (Nat.sub_one_lt lines.ne') (by omega) (Nat.sub_one_lt pos.ne')
    rw [Nat.zero_mul, zero_add, Nat.sub_one_mul, Nat.sub_one_mul] at last
    have most : t.dimY.toNat * (t.dimX.toNat * t.mElement.getSizeBytes) ≤
        t.dimY.toNat * (t.mElement.getSizeBytes % 2 ^ 32 * t.dimX.toNat) := by omega
    exact le_of_mul_le_mul_left most lines
  refine ⟨?_, fun none => lines.ne' (congrArg UInt32.toNat none), planes⟩
  by_contra long
  have short := rsRound_lt (not_lt.mp long)
  obtain ⟨a, a', of, -, -, -, uploaded⟩ := flat.copied_of_shows padded shows fun _ => 0
  have inside := (flat.data2D_inv of rfl uploaded).1 (t.dimY.toNat - 1) (Nat.sub_one_lt lines.ne')
  have rows : rowsOf (firstLevel t) = t.dimY.toNat := by
    change max t.dimY.toNat 1 * max t.dimZ.toNat 1 = _
    rw [max_eq_left (Nat.succ_le_of_lt lines), max_eq_right planes, mul_one]
  rw [flat.plain.allocSize_single flat.levels flat.noFaces, rows, Nat.sub_one_mul, mul_comm (rsRound _ _)] at inside
  omega

end

/-- Clients find their buffers in the cells exactly if the buffers fit. -/
theorem shows_buffers_iff : ShowsBuffers t ↔ BufferFits t := by
  unfold BufferFits
  split
  · rename_i aligned
    rw [flat.shows_of_aligned aligned]
    constructor
    · intro places
      rcases eq_zero_or_pos (t.dimX.toNat * t.mElement.getSizeBytes) with empty | cells
      · exact .inl empty
      · have all (c : Cell) (isIn : c.In t) := places c isIn (Nat.pos_of_mul_pos_left cells)
        exact .inr ⟨flat.width_of_places cells all, flat.rowsFit_of_places cells all⟩
    · intro fits c isIn pos
      rcases fits with empty | ⟨narrow, rows⟩
      · have wide := (flat.in_iff.mp isIn).2.2.1
        have cells := mul_pos ((Nat.zero_le _).trans_lt wide) pos
        exact absurd empty cells.ne'
      · exact flat.places aligned narrow rows isIn
  · rename_i padded
    constructor
    · exact flat.fits_of_shows padded
    · rintro ⟨short, lines, planes⟩
      exact flat.shows_of_padded short lines planes padded

end

private def buffers (dimX dimY dimZ : UInt32) : RsType :=
  .create 0 cubeCell
    { dimX := dimX, dimY := dimY, dimZ := dimZ, mDimLOD := false, faces := false, dimYuv := 0 }

private theorem buffers_flat (dimX dimY dimZ : UInt32) : Flat (buffers dimX dimY dimZ) := ⟨⟨rfl, rfl⟩, rfl, rfl⟩

theorem shows_buffers_iff_rectangle : ShowsBuffers (buffers 5 3 0) := by
  refine (shows_buffers_iff (buffers_flat 5 3 0)).mpr ?_
  unfold BufferFits
  exact ⟨by decide, by decide, by decide⟩

/-- Nothing is copied from a row of five cells, and of two planes only the first. -/
theorem buffers_lost : (∃ a, userInit (buffers 5 0 0) (RS_ALLOCATION_USAGE_SCRIPT ||| RS_ALLOCATION_USAGE_SHARED) (fun _ => 1)
        (some fun _ => 0) true = some (some a) ∧
      a.block (a.getOffsetPtr 0 0 0 0 0) = 0 ∧ ¬ Shows (buffers 5 0 0) (fun _ => 1) a) ∧
    ∃ a, userInit (buffers 5 3 2) (RS_ALLOCATION_USAGE_SCRIPT ||| RS_ALLOCATION_USAGE_SHARED) (fun _ => 1)
        (some fun _ => 0) true = some (some a) ∧
      a.block (a.getOffsetPtr 0 0 1 0 0) = 0 ∧ ¬ Shows (buffers 5 3 2) (fun _ => 1) a := by
  refine ⟨⟨_, rfl, rfl, fun shows => ?_⟩, ⟨_, rfl, rfl, fun shows => ?_⟩⟩
  · have cell : Cell.In (buffers 5 0 0) ⟨0, 0, 0, 0, 0⟩ := (buffers_flat 5 0 0).in_iff.mpr (by decide)
    exact absurd (shows _ cell 0 (by decide)) (by decide)
  · have cell : Cell.In (buffers 5 3 2) ⟨0, 0, 1, 0, 0⟩ := (buffers_flat 5 3 2).in_iff.mpr (by decide)
    exact absurd (shows _ cell 0 (by decide)) (by decide)

end RenderScript.Copies
