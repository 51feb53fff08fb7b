import RenderScript.Types.Levels

/-!
# Types of the client

`Type` of cpp/Type.cpp counts its elements itself, in a loop that halves dimensions.
The core counts the cells of its table of levels.
-/

namespace RenderScript.Client
open Elements RenderScript.Types

structure ClientType where
  mDimX : UInt32 := 0
  mDimY : UInt32 := 0
  mDimZ : UInt32 := 0
  mDimMipmaps : Bool := false
  mDimFaces : Bool := false
  mElementCount : UInt32 := 0
  deriving DecidableEq

theorem halved_lt_self {d : UInt32} (large : d > 1) : (halved d).toNat < d.toNat := by
  have more : 1 < d.toNat := UInt32.lt_iff_toNat_lt.mp large
  rw [toNat_halved, if_pos more]
  omega

/-- The `while` loop of `calcElementCount`. -/
def countLevels (level : Level) (faces count : UInt32) : UInt32 :=
  if level.x > 1 ∨ level.y > 1 ∨ level.z > 1 then
    let next := level.next
    countLevels next faces (count + next.x * next.y * next.z * faces)
  else count
termination_by level.x.toNat + level.y.toNat + level.z.toNat
decreasing_by
  rename_i more
  have x := halved_le_self level.x
  have y := halved_le_self level.y
  have z := halved_le_self level.z
  dsimp only [Level.next]
  rcases more with large | large | large
  · have less := halved_lt_self large
    omega
  · have less := halved_lt_self large
    omega
  · have less := halved_lt_self large
    omega

def orOne (d : UInt32) : UInt32 := if d = 0 then 1 else d

def ClientType.calcElementCount (t : ClientType) : ClientType :=
  let faces := if t.mDimFaces then 6 else 1
  let level : Level := { x := orOne t.mDimX, y := orOne t.mDimY, z := orOne t.mDimZ }
  let count := level.x * level.y * level.z * faces
  { t with mElementCount := if t.mDimMipmaps then countLevels level faces count else count }

/-- `Type::Builder::create`, after the call that creates the core object; `Type::create` is
the case without flags. -/
def ClientType.create (mDimX mDimY mDimZ : UInt32) (mDimMipmaps mDimFaces : Bool) : ClientType :=
  ClientType.calcElementCount
    { mDimX := mDimX, mDimY := mDimY, mDimZ := mDimZ, mDimMipmaps := mDimMipmaps, mDimFaces := mDimFaces }

/-- The arguments of `TypeCreate`; the YUV format is always passed as 0. -/
def ClientType.key (t : ClientType) : TypeKey where
  dimX := t.mDimX
  dimY := t.mDimY
  dimZ := t.mDimZ
  mDimLOD := t.mDimMipmaps
  faces := t.mDimFaces
  dimYuv := 0

def filled (level : Level) : Level :=
  { x := orOne level.x, y := orOne level.y, z := orOne level.z }

theorem toNat_orOne (d : UInt32) : (orOne d).toNat = max d.toNat 1 := by
  unfold orOne
  split
  · rename_i zero
    rw [zero]
    rfl
  · rename_i some
    have pos : d.toNat ≠ 0 := fun zero => some (UInt32.toNat_inj.mp zero)
    omega

theorem orOne_eq_max (d : UInt32) : orOne d = max d 1 := by
  rw [← UInt32.toNat_inj, toNat_orOne, toNat_max, UInt32.toNat_one]

theorem halved_orOne (d : UInt32) : halved (orOne d) = orOne (halved d) := by
  rw [← UInt32.toNat_inj, toNat_halved, toNat_orOne, toNat_orOne, toNat_halved]
  split <;> split <;> omega

theorem filled_next (level : Level) : (filled level).next = filled level.next := by
  rw [filled, filled, Level.next, Level.next, halved_orOne, halved_orOne, halved_orOne]

theorem cells_filled {level : Level} (wide : 1 ≤ level.x.toNat) :
    (filled level).x * (filled level).y * (filled level).z = level.cells := by
  have eq : orOne level.x = level.x := by
    rw [← UInt32.toNat_inj, toNat_orOne, max_eq_left wide]
  simp [filled, eq, orOne_eq_max, Level.cells]

def wrappedCells : Nat → Level → UInt32
  | 0, _ => 0
  | lods + 1, level => level.cells + wrappedCells lods level.next

theorem toUInt32_countCells (lods : Nat) (level : Level) (mCellCount : UInt64) :
    (countCells lods level mCellCount).toUInt32 = mCellCount.toUInt32 + wrappedCells lods level := by
  induction lods generalizing level mCellCount with
  | zero => exact (add_zero _).symm
  | succ lods ih =>
    rw [countCells, ih, wrappedCells, UInt64.toUInt32_add, UInt32.toUInt32_toUInt64, add_assoc]

theorem more_iff (level : Level) : ((filled level).x > 1 ∨ (filled level).y > 1 ∨ (filled level).z > 1) ↔ 0 < depth level := by
  have large (d : UInt32) : orOne d > 1 ↔ 0 < d.toNat.log2 := by
    rw [gt_iff_lt, UInt32.lt_iff_toNat_lt, toNat_orOne, UInt32.toNat_one, Nat.pos_iff_ne_zero, Ne, log2_eq_zero_iff]
    omega
  rw [filled, large, large, large, depth, lt_max_iff, lt_max_iff, or_assoc]

theorem countLevels_filled {level : Level} (wide : 1 ≤ level.x.toNat) (faces count : UInt32) :
    countLevels (filled level) faces count = count + wrappedCells (depth level) level.next * faces := by
  induction levels : depth level generalizing level count with
  | zero =>
    have last : ¬ 0 < depth level := by
      rw [levels]
      exact lt_irrefl 0
    rw [countLevels, if_neg ((more_iff level).not.mpr last), wrappedCells, UInt32.zero_mul, add_zero]
  | succ rest ih =>
    have another : 0 < depth level := by
      rw [levels]
      exact Nat.succ_pos rest
    have wideNext := toNat_x_next wide
    have deeper : depth level.next = rest := by
      rw [depth_next, levels, Nat.succ_sub_one]
    rw [countLevels, if_pos ((more_iff level).mpr another)]
    rw [filled_next, ih wideNext _ deeper, cells_filled wideNext, wrappedCells, add_mul, add_assoc]

theorem toUInt32_cellCount (key : TypeKey) (notYuv : key.dimYuv = 0) : key.cellCount.toUInt32 =
      wrappedCells key.lodCount.toNat { x := key.dimX, y := key.dimY, z := key.dimZ } *
        if key.faces then 6 else 1 := by
  rw [TypeKey.cellCount, if_neg (not_not.mpr notYuv)]
  cases key.faces with
  | false => simp [toUInt32_countCells]
  | true => simp [toUInt32_countCells]

/-- The client's count is the core's, in 32 bits. -/
theorem mElementCount_eq_mCellCount (address : Nat) (e : Element) {mDimX : UInt32}
    (mDimY mDimZ : UInt32) (mDimMipmaps mDimFaces : Bool) (wide : 1 ≤ mDimX) :
    (ClientType.create mDimX mDimY mDimZ mDimMipmaps mDimFaces).mElementCount = (RsType.create address e
        (ClientType.create mDimX mDimY mDimZ mDimMipmaps mDimFaces).key).mCellCount.toUInt32 := by
  let level : Level := { x := mDimX, y := mDimY, z := mDimZ }
  have first : 1 ≤ level.x.toNat := wide
  let key := (ClientType.create mDimX mDimY mDimZ mDimMipmaps mDimFaces).key
  have core := toUInt32_cellCount key rfl
  have lods := key.toNat_lodCount
  refine Eq.trans ?_ core.symm
  rw [lods]
  change (if mDimMipmaps then
      countLevels (filled level) (if mDimFaces then 6 else 1)
        ((filled level).x * (filled level).y * (filled level).z * if mDimFaces then 6 else 1)
    else (filled level).x * (filled level).y * (filled level).z * if mDimFaces then 6 else 1) =
      wrappedCells (if mDimMipmaps then depth level + 1 else 1) level * if mDimFaces then 6 else 1
  cases mDimMipmaps with
  | false =>
    rw [if_neg Bool.false_ne_true, if_neg Bool.false_ne_true, cells_filled first, wrappedCells, wrappedCells, add_zero]
  | true =>
    rw [if_pos rfl, if_pos rfl, countLevels_filled first, cells_filled first, wrappedCells, add_mul]

private def byte : Element := (createRef .unsigned8 .user false 1 {}).1

/-- A cube map of 4 x 4 with its levels: 6 * (16 + 4 + 1). -/
theorem mElementCount_eq_mCellCount_cube : (ClientType.create 4 4 0 true true).mElementCount =
        (RsType.create 0 byte (ClientType.create 4 4 0 true true).key).mCellCount.toUInt32 ∧
      (RsType.create 0 byte (ClientType.create 4 4 0 true true).key).mCellCount.toUInt32 = 126 :=
  ⟨mElementCount_eq_mCellCount 0 byte 4 0 true true (by decide), by decide +kernel⟩

end RenderScript.Client
