import RenderScript.Allocation.AllocationLayout
import RenderScript.Stream.StreamRoom

/-!
# Data of allocations read back

`serialize` dumps the start of the block, as many bytes as all cells have together.
The cells come back when they are the start of the block.
-/

namespace RenderScript.Allocations
open AlignedBytes RenderScript.Stream Elements RenderScript.Types Option

section

variable {t : RsType} {malloc : UInt64 → Nat → UInt8} {length : UInt64} {use64 : Bool}
  {scratch contents fresh : Nat → UInt8}

theorem ample_create (room : 16 ≤ length.toNat) : Ample (OStream.create malloc length use64) := ⟨room, Nat.zero_le _⟩

theorem data_written (room : 16 ≤ length.toNat) (size : UInt32) {bytes : List UInt8} (small : bytes.length < 2 ^ 32) :
    ∃ after, (OStream.create malloc length use64).addAll malloc [.u32 size, .byteArray bytes] = some after ∧
      PositionsBelow (2 ^ 62) malloc (OStream.create malloc length use64) [.u32 size, .byteArray bytes] := by
  obtain ⟨mid, first, ample⟩ := addU32_added (ample_create room) (Nat.two_pow_pos 62) size
  have start : finish 0 [number 4 size.toNat (by decide)] = 4 := by
    simp [finish, number, alignUp]
  have begins : (OStream.create malloc length use64).mPos.toNat < 2 ^ 62 := Nat.two_pow_pos 62
  have position := (addU32_wrote (Nat.zero_le _) begins first).position.trans start
  obtain ⟨after, second, -⟩ := @addByteArray_added _ mid ample bytes (by omega)
  have ends : after.mPos.toNat = 4 + bytes.length := by
    obtain ⟨grown, grew, stored⟩ := bind_eq_some_iff.mp second
    rw [(storeAll_stored stored).position, growUntil_mPos grew, position]
  refine ⟨after, ?_, ?_⟩
  · exact bind_eq_some_iff.mpr ⟨mid, first, bind_eq_some_iff.mpr ⟨after, second, rfl⟩⟩
  · refine .cons (Nat.two_pow_pos 62) fun next added => .cons ?_ fun last addedLast => ?_
    · cases first.symm.trans added
      omega
    · cases first.symm.trans added
      cases second.symm.trans addedLast
      exact positionsBelow_nil (by omega)

theorem readAt_lookBlock {size count : Nat} (inside : count ≤ size) (block : Nat → UInt8) :
    readAt (lookBlock size block) 0 count = some ((List.range' 0 count).map block) := by
  apply readAt_map
  intro i _ lt
  exact if_pos (by omega)

theorem getPackedSize_eq (known : t.mElement.getSizeBytesUnpadded = some t.mElement.getSizeBytes) :
    getPackedSize t = some (.ofNat (getPackedSizeBytes t)) := by
  have cells : (t.mCellCount.toUInt32.toNat * t.mElement.getSizeBytes) % 2 ^ 32 =
      (t.mCellCount.toNat * t.mElement.getSizeBytes) % 2 ^ 32 := by
    simp
  rw [getPackedSize, known, getPackedSizeBytes]
  apply congrArg some
  rw [← UInt32.toNat_inj, UInt32.toNat_ofNat', UInt32.toNat_ofNat', cells]

theorem reads_loadData (pos : 0 < t.mElement.getSizeBytes)
    (known : t.mElement.getSizeBytesUnpadded = some t.mElement.getSizeBytes) (small : getPackedSizeBytes t < 2 ^ 32)
    (inside : getPackedSizeBytes t ≤ (allocationBuildPointerTable t).allocSize)
    {bytes : List UInt8} (bytesLength : bytes.length = getPackedSizeBytes t) :
    Reads use64 (loadData t fresh) ([Value.u32 (.ofNat (getPackedSizeBytes t)), .byteArray bytes].flatMap (Value.chunks use64))
      (some fun index => (bytes[index]?).getD (fresh index)) := by
  have packed := getPackedSize_eq known
  have size : (UInt32.ofNat (getPackedSizeBytes t)).toNat = getPackedSizeBytes t := by
    rw [UInt32.toNat_ofNat', Nat.mod_eq_of_lt small]
  have count : getPackedSizeBytes t / t.mElement.getSizeBytes = t.mCellCount.toNat := Nat.mul_div_cancel _ pos
  have few := (Nat.le_mul_of_pos_right _ pos).trans_lt small
  have counted : t.mCellCount.toNat % 4294967296 * t.mElement.getSizeBytes =
      getPackedSizeBytes t := by
    rw [show 4294967296 = 2 ^ 32 from rfl, Nat.mod_eq_of_lt few, getPackedSizeBytes]
  refine (reads_loadU32 _).bind ?_
  intro s eq short placed ends
  have here := placed.1
  simp only [raw, alignUp_one] at here
  have found : readAt (fun index => s.look (s.mPos.toNat + index)) 0 (getPackedSizeBytes t) =
      some bytes := by
    rw [readAt_shift, add_zero, ← bytesLength, here.readAt_eq]
  have copied : memcpy (allocationBuildPointerTable t).allocSize fresh 0 bytes =
      some fun index => (bytes[index]?).getD (fresh index) := by
    rw [memcpy, if_pos (by omega)]
    rfl
  have reached : (UInt32.ofNat (getPackedSizeBytes t)).toUInt64 = .ofNat bytes.length := by
    rw [← UInt64.toNat_inj, UInt32.toNat_toUInt64, size, bytesLength, UInt64.toNat_ofNat', Nat.mod_eq_of_lt (by omega)]
  have moved : s.at (finish s.mPos.toNat (Value.chunks use64 (Value.byteArray bytes))) =
      { s with mPos := s.mPos + .ofNat bytes.length } := by
    simp [IStream.at, Value.chunks, finish, raw, UInt64.ofNat_add]
  simp only [packed, size, count]
  simp [counted, pos.ne', found, copied, reached, moved]

/-- Whatever the block and the new block hold, the data part that is written can be loaded,
and then all cells of the new block are those of the block. -/
def Restores (t : RsType) (malloc : UInt64 → Nat → UInt8) (length : UInt64) (use64 : Bool)
    (scratch : Nat → UInt8) : Prop :=
  ∀ contents fresh : Nat → UInt8, ∃ values after result position,
    serializeData t scratch contents = some values ∧
    (OStream.create malloc length use64).addAll malloc values = some after ∧
    (loadData t fresh).run { mData := after.bytes, mUse64 := use64 } =
      some (some result, position) ∧
    ∀ c : Cell, c.In t → ∀ index, index < t.mElement.getSizeBytes →
      result (c.offset t + index) = contents (c.offset t + index)

theorem serializeData_eq (known : t.mElement.getSizeBytesUnpadded = some t.mElement.getSizeBytes) :
    serializeData t scratch contents = (readAt (lookBlock (allocationBuildPointerTable t).allocSize contents) 0
        (UInt32.ofNat (getPackedSizeBytes t)).toNat).map fun bytes =>
          [.u32 (.ofNat (getPackedSizeBytes t)), .byteArray bytes] := by
  rw [serializeData, getPackedSize_eq known]
  simp only [bind_eq_bind, bind_some, if_true]
  rw [map_eq_bind]
  rfl

theorem restores_of_linear (room : 16 ≤ length.toNat) (pos : 0 < t.mElement.getSizeBytes)
    (known : t.mElement.getSizeBytesUnpadded = some t.mElement.getSizeBytes) (small : getPackedSizeBytes t < 2 ^ 32)
    (inside : getPackedSizeBytes t ≤ (allocationBuildPointerTable t).allocSize)
    (linear : ∀ c : Cell, c.In t → c.offset t + t.mElement.getSizeBytes ≤ getPackedSizeBytes t) :
    Restores t malloc length use64 scratch := by
  intro contents fresh
  have size : (UInt32.ofNat (getPackedSizeBytes t)).toNat = getPackedSizeBytes t := by
    rw [UInt32.toNat_ofNat', Nat.mod_eq_of_lt small]
  have count : ((List.range' 0 (getPackedSizeBytes t)).map contents).length =
      getPackedSizeBytes t := by
    simp
  obtain ⟨after, added, lt⟩ := @data_written _ length use64 room
    (.ofNat (getPackedSizeBytes t)) ((List.range' 0 (getPackedSizeBytes t)).map contents)
    (by omega)
  have read := (@reads_loadData t _ fresh pos known small inside _ count).of_written added lt
  refine ⟨_, after, _, _, ?_, added, read, ?_⟩
  · rw [serializeData_eq known, size, readAt_lookBlock inside]
    rfl
  · intro c isIn i lt
    have within : c.offset t + i < getPackedSizeBytes t := by
      have ends := linear c isIn
      omega
    simp [within]

theorem Restores.linear (restores : Restores t malloc length use64 scratch)
    (known : t.mElement.getSizeBytesUnpadded = some t.mElement.getSizeBytes)
    (positive : 0 < t.mElement.getSizeBytes) {c : Cell} (isIn : c.In t) :
    c.offset t + t.mElement.getSizeBytes ≤ (UInt32.ofNat (getPackedSizeBytes t)).toNat := by
  by_contra behind
  generalize last : c.offset t + (t.mElement.getSizeBytes - 1) = place at *
  have eq : serializeData t scratch (Function.update (fun _ => 0) place 1) = serializeData t scratch fun _ => 0 := by
    rw [serializeData_eq known, serializeData_eq known]
    apply congrArg
    apply readAt_congr
    intro i _ lt
    rw [lookBlock, lookBlock, Function.update_of_ne (by omega)]
  obtain ⟨values, after, result, pos, written, added, loaded, equal⟩ :=
    restores (Function.update (fun _ => 0) place 1) fun _ => 0
  obtain ⟨values', after', result', position', written', added', loaded', equal'⟩ := restores (fun _ => 0) fun _ => 0
  cases written.symm.trans (eq.trans written')
  cases added.symm.trans added'
  cases loaded.symm.trans loaded'
  have one := equal c isIn (t.mElement.getSizeBytes - 1) (by omega)
  have zero := equal' c isIn (t.mElement.getSizeBytes - 1) (by omega)
  rw [last, Function.update_self] at one
  rw [last] at zero
  exact absurd (one.symm.trans zero) (by decide)

theorem Restores.positive (restores : Restores t malloc length use64 scratch) (room : 16 ≤ length.toNat)
    (known : t.mElement.getSizeBytesUnpadded = some t.mElement.getSizeBytes) :
    0 < t.mElement.getSizeBytes := by
  by_contra none
  have zero : t.mElement.getSizeBytes = 0 := by omega
  have packed : getPackedSizeBytes t = 0 := by simp [getPackedSizeBytes, zero]
  obtain ⟨values, after, result, pos, written, added, loaded, -⟩ := restores (fun _ => 0) fun _ => 0
  rw [serializeData_eq known, packed] at written
  cases written
  obtain ⟨after', added', lt⟩ := @data_written malloc length use64 room _ [] (by decide)
  cases added.symm.trans added'
  have first := @reads_front malloc _ length use64 [.u32 (.ofNat 0)] _ after _ _ (reads_loadU32 (UInt32.ofNat 0)) added lt
  rw [loadData, StateT.run_bind, first] at loaded
  simp [getPackedSize_eq known, packed, zero] at loaded

theorem Plain.mCellCount_eq (plain : Plain t) : t.mCellCount = if t.faces then countCells t.mLodCount.toNat (firstLevel t) 0 * 6
      else countCells t.mLodCount.toNat (firstLevel t) 0 := by
  have count := congrArg RsType.mLodCount plain.computed
  have cells := congrArg RsType.mCellCount plain.computed
  rw [count, cells]
  simp only [RsType.create, TypeKey.cellCount, plain.notYuv, ne_eq, not_true_eq_false, if_false]
  rfl

theorem Plain.mCellCount_le (plain : Plain t) :
    t.mCellCount.toNat ≤ faceTotal t * totalCells t.mLodCount.toNat (firstLevel t) := by
  have cells := countCells_le t.mLodCount.toNat (firstLevel t) 0
  rw [UInt64.toNat_zero, zero_add] at cells
  rw [plain.mCellCount_eq, faceTotal]
  split
  · rw [UInt64.toNat_mul]
    have six : (6 : UInt64).toNat = 6 := rfl
    rw [six]
    omega
  · omega

theorem Plain.mCellCount_of_small (plain : Plain t) (count : (countCells t.mLodCount.toNat (firstLevel t) 0).toNat =
      totalCells t.mLodCount.toNat (firstLevel t)) (small : totalCells t.mLodCount.toNat (firstLevel t) < 2 ^ 32) :
    t.mCellCount.toNat = faceTotal t * totalCells t.mLodCount.toNat (firstLevel t) := by
  rw [plain.mCellCount_eq, faceTotal]
  split
  · have six : (6 : UInt64).toNat = 6 := rfl
    rw [UInt64.toNat_mul, six, count, Nat.mod_eq_of_lt (by omega), mul_comm]
  · rw [count, one_mul]

theorem row_lt {level : Level} {y z : Nat} (inY : y < max level.y.toNat 1)
    (inZ : z < max level.z.toNat 1) : z * level.y.toNat % 2 ^ 32 + y < rowsOf level := by
  have row : z * level.y.toNat ≤ z * max level.y.toNat 1 := Nat.mul_le_mul_left z (le_max_left _ _)
  have planes : (z + 1) * max level.y.toNat 1 ≤ max level.z.toNat 1 * max level.y.toNat 1 := Nat.mul_le_mul_right _ inZ
  rw [Nat.succ_mul] at planes
  rw [rowsOf, mul_comm (max level.y.toNat 1)]
  omega

theorem Plain.offset_level_zero_le (plain : Plain t) {c : Cell} (isIn : c.In t) (first : c.lod = 0)
    (tight : (firstLod t).stride = t.dimX.toNat * t.mElement.getSizeBytes ∨ rowsOf (firstLevel t) = 1) :
    c.offset t + t.mElement.getSizeBytes ≤ c.face * (allocationBuildPointerTable t).faceOffset +
      rowsOf (firstLevel t) * (t.dimX.toNat * t.mElement.getSizeBytes) := by
  obtain ⟨x, y, z, lod, face⟩ := c
  obtain rfl : lod = 0 := first
  have level := plain.mLodDim 0
  have inX : x < t.dimX.toNat := by
    have bound := isIn.x
    rwa [level] at bound
  have row : z * t.dimY.toNat % 2 ^ 32 + y < rowsOf (firstLevel t) := by
    have inY := isIn.y
    have inZ := isIn.z
    rw [level] at inY inZ
    exact row_lt inY inZ
  have cell : (x + 1) * t.mElement.getSizeBytes ≤ t.dimX.toNat * t.mElement.getSizeBytes := Nat.mul_le_mul_right _ inX
  rw [Nat.succ_mul] at cell
  rw [plain.offset_level_zero isIn.low]
  dsimp only
  generalize t.dimX.toNat * t.mElement.getSizeBytes = width at *
  generalize z * t.dimY.toNat % 2 ^ 32 + y = index at *
  rcases tight with stride | one
  · have rows : (index + 1) * width ≤ rowsOf (firstLevel t) * width := Nat.mul_le_mul_right _ row
    rw [Nat.succ_mul] at rows
    rw [stride]
    omega
  · obtain rfl : index = 0 := by omega
    rw [one]
    omega

end

end RenderScript.Allocations
