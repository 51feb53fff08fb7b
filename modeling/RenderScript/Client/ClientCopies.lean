import RenderScript.Client.ClientAllocation
import RenderScript.Allocation.CopyBoxes

/-!
# Copies between client and core

`copy1DFrom` counts cells through all rows, and the core copies them one behind the other from the
start of the block. `copy2DRangeTo` reads row by row, with the padding between the rows.
-/

namespace RenderScript.Client
open ByteMemory LineCopies Elements RenderScript.Types Allocations Copies

/-- `copy1DFrom`, with what `rsi_Allocation1DData` does. -/
def copy1DFrom (client : ClientAllocation) (data : Memory) (core : Alloc) : StateM RS (Option Alloc) := do
  match ← copy1DRangeFrom client 0 client.mCurrentCount with
  | some (.allocation1DData off lod count sizeBytes) =>
    return (core.data1D off lod.toNat count (.buffer data) sizeBytes).map (·.1)
  | _ => return some core

/-- `copy2DRangeTo`, with what `rsi_Allocation2DRead` does. -/
def readRange2D (client : ClientAllocation) (xoff yoff w h : UInt32) (data : Memory) (core : Alloc) :
    StateM RS (Option Memory) := do
  match ← copy2DRangeTo client xoff yoff w h with
  | some (.allocation2DRead xoff yoff lod face w h sizeBytes stride) =>
    return (core.read2D xoff yoff lod.toNat face.toNat w h data sizeBytes stride).map (·.1)
  | _ => return some data

def clientOf (t : RsType) : ClientAllocation :=
  .create { mDimX := t.dimX, mDimY := t.dimY, mDimZ := t.dimZ, mDimMipmaps := t.mDimLOD, mDimFaces := t.faces }
    t.mElement.getSizeBytes

/-- A whole allocation is written with `copy1DFrom` and read with `copy2DRangeTo`. -/
def writeAndRead (t : RsType) (data buffer : Memory) (core : Alloc) : Option Memory :=
  let written := (copy1DFrom (clientOf t) data core).run {}
  written.1.bind fun core => ((readRange2D (clientOf t) 0 0 t.dimX t.dimY buffer core).run written.2).1

def CopiesBack (t : RsType) : Prop :=
  ∀ (script : Bool) (block data buffer : Memory), ∃ a out,
    rsdAllocationInit t script block = some a ∧ writeAndRead t data buffer a = some out ∧
      ∀ i < t.dimX.toNat * t.dimY.toNat * t.mElement.getSizeBytes, out i = data i

section

variable {t : RsType} {client : ClientAllocation} {core : Alloc} {data buffer : Memory} {w h : UInt32} {rs : RS}

theorem copy1DFrom_refused (none : client.mCurrentCount = 0) : (copy1DFrom client data core).run {} =
      (some core, { mCurrentError := .invalidParameter, log := ["RS CPP error: Count must be >= 1."] }) := by
  unfold copy1DFrom copy1DRangeFrom check1D
  rw [none]
  rfl

theorem copy1DFrom_accepted (some : client.mCurrentCount ≠ 0) : (copy1DFrom client data core).run {} =
      ((core.data1D 0 client.mSelectedLOD.toNat client.mCurrentCount (.buffer data)
        (sizeT (client.mCurrentCount.toNat * client.elementBytes))).map (·.1), {}) := by
  have pos : ¬ client.mCurrentCount < 1 := by
    intro less
    exact some (UInt32.toNat_inj.mp (Nat.lt_one_iff.mp less))
  have whole : ¬ sizeT ((0 : UInt32).toNat + client.mCurrentCount.toNat) > client.mCurrentCount.toNat := by
    rw [UInt32.toNat_zero, zero_add]
    exact not_lt.mpr (Nat.mod_le _ _)
  unfold copy1DFrom copy1DRangeFrom check1D
  rw [if_neg pos, if_neg whole]
  rfl

theorem readRange2D_pending (inside : accepts2D client 0 0 w h) (log : List String) :
    ((readRange2D client 0 0 w h buffer core).run { mCurrentError := .invalidParameter, log := log }).1 =
      some buffer := by
  unfold readRange2D copy2DRangeTo copy2DStridedTo validate2DRange
  rw [if_pos inside]
  rfl

theorem readRange2D_accepted (inside : accepts2D client 0 0 w h) : ((readRange2D client 0 0 w h buffer core).run {}).1 =
      (core.read2D 0 0 client.mSelectedLOD.toNat client.mSelectedFace.toNat w h buffer
        (planeBytes client w h) (sizeT (w.toNat * client.elementBytes))).map (·.1) := by
  unfold readRange2D copy2DRangeTo copy2DStridedTo validate2DRange
  rw [if_pos inside]
  rfl

end

section

variable {t : RsType} {a a' : Alloc} {data data' buffer out : Memory}

theorem accepts_whole (t : RsType) : accepts2D (clientOf t) 0 0 t.dimX t.dimY := by
  refine .inr (not_or.mpr ⟨?_, ?_⟩)
  · rw [zero_add]
    exact UInt32.lt_irrefl _
  · rw [zero_add]
    exact UInt32.lt_irrefl _

def readWhole (t : RsType) (buffer : Memory) (a : Alloc) : Option Memory :=
  (a.read2D 0 0 0 0 t.dimX t.dimY buffer (planeBytes (clientOf t) t.dimX t.dimY)
    (sizeT (t.dimX.toNat * t.mElement.getSizeBytes))).map (·.1)

def writeWhole (t : RsType) (data : Memory) (a : Alloc) : Option Alloc :=
  (a.data1D 0 0 (clientOf t).mCurrentCount (.buffer data)
    (sizeT ((clientOf t).mCurrentCount.toNat * t.mElement.getSizeBytes))).map (·.1)

theorem writeAndRead_eq : writeAndRead t data buffer a =
      if (clientOf t).mCurrentCount = 0 then some buffer else (writeWhole t data a).bind (readWhole t buffer) := by
  unfold writeAndRead
  split
  · next none =>
    rw [copy1DFrom_refused none]
    exact readRange2D_pending (accepts_whole t) _
  · next some =>
    rw [copy1DFrom_accepted some]
    refine congrArg (Option.bind (writeWhole t data a)) (funext fun core => ?_)
    exact readRange2D_accepted (accepts_whole t)

theorem readWhole_congr {b : Alloc} (of : a.Of t) (of' : b.Of t) (blocks : a.block = b.block) :
    readWhole t buffer a = readWhole t buffer b := by
  have tables : a.table = b.table := of.table.trans of'.table.symm
  have sizes : a.elementSizeBytes = b.elementSizeBytes := by
    rw [Alloc.elementSizeBytes, Alloc.elementSizeBytes, of.type, of'.type]
  unfold readWhole Alloc.read2D Alloc.rsdAllocationRead2D
  rw [sizes, of.getOffsetPtr, of'.getOffsetPtr, tables]
  simp [Alloc.readLines_congr tables blocks]

def countedBytes (t : RsType) : Nat := (clientOf t).mCurrentCount.toNat * t.mElement.getSizeBytes

section

variable (plain : Plain t) (of : a.Of t)

include plain of

theorem writeWhole_eq : writeWhole t data a = if countedBytes t ≠ sizeT (countedBytes t) then some a
      else a.copyCells 0 data (clientOf t).mCurrentCount.toNat (countedBytes t) := by
  have start : a.getOffsetPtr 0 0 0 0 0 = 0 := by
    rw [of.getOffsetPtr]
    exact (plain.offset_rowCell 0).trans (by simp)
  unfold writeWhole Alloc.data1D Alloc.rsdAllocationData1D
  rw [of.type, start]
  change Option.map _ (if countedBytes t ≠ sizeT (countedBytes t) then _ else _) = _
  by_cases wrong : countedBytes t ≠ sizeT (countedBytes t)
  · rw [if_pos wrong, if_pos wrong]
    rfl
  · rw [if_neg wrong, if_neg wrong, Option.map_map]
    exact Option.map_id_apply

theorem writeAndRead_congr (agree : ∀ i < countedBytes t, data i = data' i) :
    writeAndRead t data buffer a = writeAndRead t data' buffer a := by
  have blocks : write a.block ⟨0, countedBytes t⟩ data = write a.block ⟨0, countedBytes t⟩ data' := by
    funext location
    unfold write
    split
    · next held => exact agree _ (held.2.trans_eq (zero_add _))
    · rfl
  rw [writeAndRead_eq, writeAndRead_eq]
  split
  · rfl
  rw [writeWhole_eq plain of, writeWhole_eq plain of]
  split
  · rfl
  by_cases inside : 0 + countedBytes t ≤ a.table.allocSize
  · obtain ⟨refs, copied⟩ := Alloc.copyCells_eq inside
    obtain ⟨refs', copied'⟩ := Alloc.copyCells_eq inside
    rw [copied, copied']
    exact readWhole_congr ⟨of.type, of.laid⟩ ⟨of.type, of.laid⟩ blocks
  · have fails (data : Memory) : a.copyCells 0 data (clientOf t).mCurrentCount.toNat (countedBytes t) = none := by
      rw [Option.eq_none_iff_forall_ne_some]
      exact fun after copied => inside (Alloc.inside_of_copyCells copied)
    rw [fails, fails]

/-- A size that does not fit in `size_t` is refused. -/
theorem writeAndRead_refused (wrong : countedBytes t ≠ sizeT (countedBytes t)) :
    writeAndRead t data buffer a = writeAndRead t data' buffer a := by
  simp [writeAndRead_eq, writeWhole_eq plain of, wrong]

end

end

section

variable {t : RsType} {a a' : Alloc} {data data' buffer out : Memory}

structure Flat (t : RsType) : Prop where
  plain : Plain t
  single : t.mDimLOD = false
  noFaces : t.faces = false
  flat : t.dimZ = 0
  rows : 0 < t.dimY.toNat

theorem toNat_mCurrentCount (flat : t.dimZ = 0) (rows : 0 < t.dimY.toNat) :
    (clientOf t).mCurrentCount.toNat = t.dimX.toNat * t.dimY.toNat % 2 ^ 32 := by
  have count : (clientOf t).mCurrentCount = if t.dimY > 1 then t.dimX * t.dimY else t.dimX := by
    unfold clientOf ClientAllocation.create ClientAllocation.updateCacheInfo
    rw [flat]
    rfl
  rw [count]
  split
  · exact UInt32.toNat_mul _ _
  · next few =>
    have one : t.dimY.toNat = 1 := by
      rw [gt_iff_lt, UInt32.lt_iff_toNat_lt, UInt32.toNat_one] at few
      omega
    rw [one, mul_one, Nat.mod_eq_of_lt t.dimX.toNat_lt]

theorem Flat.allocSize (flat : Flat t) : (allocationBuildPointerTable t).allocSize =
      rsRound (t.dimX.toNat * t.mElement.getSizeBytes) 16 * t.dimY.toNat := by
  have one := flat.plain.mLodCount_eq_one_iff.mpr (.inl flat.single)
  have rows : rowsOf (firstLevel t) = t.dimY.toNat := by
    change max t.dimY.toNat 1 * max t.dimZ.toNat 1 = t.dimY.toNat
    rw [flat.flat, max_eq_left flat.rows]
    exact mul_one _
  rw [flat.plain.allocSize_single one flat.noFaces, rows]

theorem Flat.rowsFit (flat : Flat t)
    (short : t.dimX.toNat * t.mElement.getSizeBytes = 0 ∨ t.dimX.toNat * t.mElement.getSizeBytes + 15 < 2 ^ 32) :
    RowsFit t := by
  rcases short with none | short
  · exact .inl none
  · refine .inr ⟨short, ?_, fun _ => ?_⟩
    · rw [flat.flat]
      exact (Nat.zero_mul _).trans_lt (by decide)
    · rw [flat.flat]
      exact Nat.zero_le _

theorem lineStride_self (n : Nat) : lineStride n n = n := by
  unfold lineStride
  split <;> rfl

theorem Flat.lineAt (flat : Flat t) {i : Nat} (lt : i < t.dimY.toNat) :
    (requestBox 0 0 0 t.dimX t.dimY 1 0 0).lineAt t i = i * (firstLod t).stride := by
  have cell : (requestBox 0 0 0 t.dimX t.dimY 1 0 0).lineCell i = planeCell 0 i := by
    simp [Box.lineCell, requestBox, planeCell, Nat.mod_eq_of_lt lt, Nat.div_eq_of_lt lt]
  have word := t.dimY.toNat_lt
  rw [Box.lineAt, cell, planeCell, flat.plain.offset_level_zero (by omega)]
  simp only [Nat.zero_mul, Nat.zero_mod, Nat.zero_add, Nat.add_zero]

theorem planeBytes_eq (short : t.dimX.toNat * t.mElement.getSizeBytes < 2 ^ 32)
    (few : t.dimX.toNat * t.dimY.toNat < 2 ^ 32 ∨ t.mElement.getSizeBytes = 0) :
    t.dimX.toNat * t.mElement.getSizeBytes * t.dimY.toNat = planeBytes (clientOf t) t.dimX t.dimY := by
  change _ = (t.dimX * t.dimY).toNat * t.mElement.getSizeBytes % 2 ^ 64
  have word := t.dimY.toNat_lt
  have large : t.dimX.toNat * t.mElement.getSizeBytes * t.dimY.toNat < 2 ^ 64 := by
    calc t.dimX.toNat * t.mElement.getSizeBytes * t.dimY.toNat < 2 ^ 32 * 2 ^ 32 :=
          Nat.mul_lt_mul'' short word
      _ = 2 ^ 64 := by decide
  rcases few with few | none
  · rw [UInt32.toNat_mul, Nat.mod_eq_of_lt few, mul_right_comm, Nat.mod_eq_of_lt]
    rw [mul_right_comm]
    exact large
  · simp [none]

theorem Flat.readWhole (flat : Flat t)
    (short : t.dimX.toNat * t.mElement.getSizeBytes = 0 ∨ t.dimX.toNat * t.mElement.getSizeBytes + 15 < 2 ^ 32)
    (few : t.dimX.toNat * t.dimY.toNat < 2 ^ 32 ∨ t.mElement.getSizeBytes = 0) (of : a.Of t) :
    readWhole t buffer a = some (copy a.block (t.dimX.toNat * t.mElement.getSizeBytes) t.dimY.toNat
        (· * (t.dimX.toNat * t.mElement.getSizeBytes)) (· * (firstLod t).stride) buffer) := by
  have fits := flat.rowsFit short
  have line : t.dimX.toNat * t.mElement.getSizeBytes < 2 ^ 32 := by omega
  have size : sizeT (t.dimX.toNat * t.mElement.getSizeBytes) = t.dimX.toNat * t.mElement.getSizeBytes :=
    Nat.mod_eq_of_lt (by omega)
  have read := @Alloc.Of.read2D t a 0 0 t.dimX t.dimY 0 0 buffer
    (lineStride (t.dimX.toNat * t.mElement.getSizeBytes) (t.dimX.toNat * t.mElement.getSizeBytes))
    flat.plain fits (whole_in flat.plain) of
  rw [lineStride_self, lineStride_self] at read
  unfold Client.readWhole Alloc.read2D
  rw [of.elementSizeBytes, lineSize_eq flat.plain fits (whole_in flat.plain), size]
  dsimp only
  rw [lineStride_self, ← planeBytes_eq line few, if_neg fun wrong => wrong.2 rfl, read]
  refine congrArg some ?_
  rw [show (requestBox 0 0 0 t.dimX t.dimY 1 0 0).lines = t.dimY.toNat from Nat.one_mul _]
  exact copy_congr (fun _ _ => rfl) fun i below => flat.lineAt below

theorem Flat.writeWhole (flat : Flat t) (of : a.Of t)
    (small : countedBytes t = sizeT (countedBytes t)) (wrote : writeWhole t data a = some a') :
    countedBytes t ≤ (allocationBuildPointerTable t).allocSize ∧ a'.Of t ∧ a'.block = write a.block ⟨0, countedBytes t⟩ data := by
  rw [writeWhole_eq flat.plain of, if_neg (not_not.mpr small)] at wrote
  obtain ⟨inside, refs, rfl⟩ := Alloc.copyCells_inv wrote
  rw [of.table, Nat.zero_add] at inside
  exact ⟨inside, ⟨of.type, of.laid⟩, rfl⟩

def Tight (t : RsType) : Prop :=
  t.dimX.toNat * t.dimY.toNat < 2 ^ 32 ∧ t.dimX.toNat * t.mElement.getSizeBytes + 15 < 2 ^ 32 ∧
    (t.dimY.toNat = 1 ∨ 16 ∣ t.dimX.toNat * t.mElement.getSizeBytes)

theorem Flat.made (flat : Flat t) (script : Bool) (block : Memory) :
    rsdAllocationInit t script block = some { type := t, laid := t, script := script, block := block } := by
  have one := flat.plain.mLodCount_eq_one_iff.mpr (.inl flat.single)
  exact if_pos (one.trans_le (by decide))

section

variable (flat : Flat t) (of : a.Of t)

include flat of

theorem Flat.answers_of_empty (none : t.dimX.toNat * t.dimY.toNat * t.mElement.getSizeBytes = 0) :
    ∃ out, writeAndRead t data buffer a = some out := by
  rw [writeAndRead_eq]
  split
  · exact ⟨buffer, rfl⟩
  next some =>
  have size : t.mElement.getSizeBytes = 0 := by
    rcases mul_eq_zero.mp none with cells | size
    · have count := toNat_mCurrentCount flat.flat flat.rows
      rw [cells, Nat.zero_mod] at count
      exact absurd (UInt32.toNat_inj.mp count) some
    · exact size
  have nothing : countedBytes t = 0 := by simp [countedBytes, size]
  rw [writeWhole_eq flat.plain of, nothing, if_neg (show ¬ 0 ≠ sizeT 0 from not_not.mpr rfl)]
  obtain ⟨refs, copied⟩ := @Alloc.copyCells_eq a 0 0 _ data (Nat.zero_le _)
  rw [copied]
  exact ⟨_, flat.readWhole (.inl (by simp [size])) (.inr size) ⟨of.type, of.laid⟩⟩

omit flat of in
theorem mCurrentCount_ne_zero {n size : Nat} (count : (clientOf t).mCurrentCount.toNat = n) (cells : 0 < n * size) :
    (clientOf t).mCurrentCount ≠ 0 := by
  intro none
  rw [none] at count
  rw [← count] at cells
  exact lt_irrefl _ (cells.trans_eq (Nat.zero_mul _))

theorem Flat.answers_of_tight (cells : 0 < t.dimX.toNat * t.dimY.toNat * t.mElement.getSizeBytes)
    (few : t.dimX.toNat * t.dimY.toNat < 2 ^ 32) (short : t.dimX.toNat * t.mElement.getSizeBytes + 15 < 2 ^ 32) :
    writeAndRead t data buffer a = some (copy (write a.block ⟨0, t.dimY.toNat * (t.dimX.toNat * t.mElement.getSizeBytes)⟩ data)
        (t.dimX.toNat * t.mElement.getSizeBytes) t.dimY.toNat
        (· * (t.dimX.toNat * t.mElement.getSizeBytes)) (· * (firstLod t).stride) buffer) := by
  have count := toNat_mCurrentCount flat.flat flat.rows
  rw [Nat.mod_eq_of_lt few] at count
  have bytes : countedBytes t = t.dimY.toNat * (t.dimX.toNat * t.mElement.getSizeBytes) := by
    rw [countedBytes, count, mul_comm t.dimX.toNat, mul_assoc]
  have some := mCurrentCount_ne_zero count cells
  have word := t.dimY.toNat_lt
  have small : countedBytes t = sizeT (countedBytes t) := by
    refine (Nat.mod_eq_of_lt ?_).symm
    rw [bytes]
    calc t.dimY.toNat * (t.dimX.toNat * t.mElement.getSizeBytes) < 2 ^ 32 * 2 ^ 32 :=
          Nat.mul_lt_mul'' word (by omega)
      _ = 2 ^ 64 := by decide
  have inside : 0 + countedBytes t ≤ a.table.allocSize := by
    rw [of.table, flat.allocSize, bytes, zero_add, rsRound_eq short, mul_comm]
    exact Nat.mul_le_mul_right _ (AlignedBytes.le_alignUp (by decide) _)
  obtain ⟨refs, copied⟩ := Alloc.copyCells_eq inside
  rw [writeAndRead_eq, if_neg some, writeWhole_eq flat.plain of, if_neg (not_not.mpr small), copied, ← bytes]
  exact flat.readWhole (.inr short) (.inl few) ⟨of.type, of.laid⟩

end

theorem Tight.stride_eq (tight : Tight t) {row : Nat} (lt : row < t.dimY.toNat) :
    row * (firstLod t).stride = row * (t.dimX.toNat * t.mElement.getSizeBytes) := by
  obtain ⟨-, short, one | aligned⟩ := tight
  · obtain rfl : row = 0 := by omega
    simp
  · have stride : (firstLod t).stride = t.dimX.toNat * t.mElement.getSizeBytes := by
      refine (rsRound_eq short).trans ?_
      rw [AlignedBytes.alignUp]
      omega
    rw [stride]

theorem Flat.copiesBack (flat : Flat t)
    (cond : t.dimX.toNat * t.dimY.toNat * t.mElement.getSizeBytes = 0 ∨ Tight t) : CopiesBack t := by
  intro script block data buffer
  have of : Alloc.Of t { type := t, laid := t, script := script, block := block } := ⟨rfl, rfl⟩
  rcases eq_zero_or_pos (t.dimX.toNat * t.dimY.toNat * t.mElement.getSizeBytes) with none | cells
  · obtain ⟨out, answered⟩ := flat.answers_of_empty of none
    refine ⟨_, out, flat.made script block, answered, fun i lt => ?_⟩
    rw [none] at lt
    exact absurd lt (Nat.not_lt_zero _)
  · have tight := cond.resolve_left cells.ne'
    refine ⟨_, _, flat.made script block, flat.answers_of_tight of cells tight.1 tight.2.1, fun i lt => ?_⟩
    rw [mul_comm t.dimX.toNat, mul_assoc] at lt cells
    have line := Nat.pos_of_mul_pos_left cells
    have row := (Nat.div_lt_iff_lt_mul line).mpr lt
    have place : i / (t.dimX.toNat * t.mElement.getSizeBytes) * (t.dimX.toNat * t.mElement.getSizeBytes) +
        i % (t.dimX.toNat * t.mElement.getSizeBytes) = i := Nat.div_add_mod' i _
    calc copy (write block ⟨0, t.dimY.toNat * (t.dimX.toNat * t.mElement.getSizeBytes)⟩ data) _ _ _ _ buffer i
        = write block ⟨0, t.dimY.toNat * (t.dimX.toNat * t.mElement.getSizeBytes)⟩ data
            (i / (t.dimX.toNat * t.mElement.getSizeBytes) * (firstLod t).stride +
              i % (t.dimX.toNat * t.mElement.getSizeBytes)) := by
          nth_rewrite 1 [← place]
          exact copy_at (apart_mul le_rfl) row (Nat.mod_lt _ line)
      _ = write block ⟨0, t.dimY.toNat * (t.dimX.toNat * t.mElement.getSizeBytes)⟩ data (0 + i) := by
          rw [tight.stride_eq row, place, zero_add]
      _ = data i := write_at block data lt

theorem CopiesBack.eq_of_same (back : CopiesBack t) {i : Nat} (lt : i < t.dimX.toNat * t.dimY.toNat * t.mElement.getSizeBytes)
    (same : ∀ a : Alloc, a.Of t → ∀ buffer, writeAndRead t data buffer a = writeAndRead t data' buffer a) :
    data i = data' i := by
  obtain ⟨a, out, made, answered, ret⟩ := back true (fun _ => 0) data fun _ => 0
  obtain ⟨a', out', made', answered', returned'⟩ := back true (fun _ => 0) data' fun _ => 0
  obtain ⟨rfl, -⟩ := init_eq made
  obtain ⟨rfl, -⟩ := init_eq made'
  rw [same _ ⟨rfl, rfl⟩] at answered
  cases answered.symm.trans answered'
  exact (ret i lt).symm.trans (returned' i lt)

theorem Flat.tight_of_copiesBack (flat : Flat t)
    (cells : 0 < t.dimX.toNat * t.dimY.toNat * t.mElement.getSizeBytes) (back : CopiesBack t) : Tight t := by
  have last := Nat.sub_one_lt cells.ne'
  have count := toNat_mCurrentCount flat.flat flat.rows
  have few : t.dimX.toNat * t.dimY.toNat < 2 ^ 32 := by
    by_contra many
    -- the last byte is not counted
    have fewer : countedBytes t ≤ t.dimX.toNat * t.dimY.toNat * t.mElement.getSizeBytes - 1 := by
      apply Nat.le_sub_one_of_lt
      rw [countedBytes, count]
      exact mul_lt_mul_of_pos_right ((Nat.mod_lt _ (by decide)).trans_le (not_lt.mp many)) (Nat.pos_of_mul_pos_left cells)
    have told := @CopiesBack.eq_of_same t _
      (fun i => if i = t.dimX.toNat * t.dimY.toNat * t.mElement.getSizeBytes - 1 then 1 else 0) back _ last
      fun a of buffer => writeAndRead_congr flat.plain of fun i below => (if_neg (below.trans_le fewer).ne).symm
    rw [if_pos rfl] at told
    exact (by decide : (0 : UInt8) ≠ 1) told
  rw [Nat.mod_eq_of_lt few] at count
  have bytes : countedBytes t = t.dimX.toNat * t.mElement.getSizeBytes * t.dimY.toNat := by
    rw [countedBytes, count, mul_right_comm]
  have small : countedBytes t = sizeT (countedBytes t) := by
    by_contra wrong
    have told := @CopiesBack.eq_of_same t (fun _ => 0) (fun _ => 1) back _ last
      fun a of buffer => writeAndRead_refused flat.plain of wrong
    exact (by decide : (0 : UInt8) ≠ 1) told
  have short : t.dimX.toNat * t.mElement.getSizeBytes + 15 < 2 ^ 32 := by
    by_contra long
    obtain ⟨a, out, made, answered, -⟩ := back true (fun _ => 0) (fun _ => 0) fun _ => 0
    obtain ⟨rfl, -⟩ := init_eq made
    rw [writeAndRead_eq, if_neg (mCurrentCount_ne_zero count cells)] at answered
    obtain ⟨a', wrote, -⟩ := Option.bind_eq_some_iff.mp answered
    have inside := (flat.writeWhole ⟨rfl, rfl⟩ small wrote).1
    rw [bytes, flat.allocSize] at inside
    exact (rsRound_lt (not_lt.mp long)).not_ge (le_of_mul_le_mul_right inside flat.rows)
  refine ⟨few, short, ?_⟩
  by_contra padded
  rw [not_or] at padded
  have rows := flat.rows
  have line : 0 < t.dimX.toNat * t.mElement.getSizeBytes := by
    rw [mul_right_comm] at cells
    exact Nat.pos_of_mul_pos_right cells
  have several : 1 < t.dimY.toNat := by omega
  have stride : (firstLod t).stride ≠ t.dimX.toNat * t.mElement.getSizeBytes := by
    intro eq
    apply padded.2
    rw [← eq]
    exact dvd_tableStride t 0
  -- the first byte of the second row
  obtain ⟨a, out, made, answered, ret⟩ := back true (fun _ => 0)
    (fun i => if i = t.dimX.toNat * t.mElement.getSizeBytes then 1 else 0) fun _ => 0
  obtain ⟨rfl, -⟩ := init_eq made
  rw [flat.answers_of_tight ⟨rfl, rfl⟩ cells few short] at answered
  cases answered
  have second := ret (1 * (t.dimX.toNat * t.mElement.getSizeBytes) + 0) (by
    rw [one_mul, add_zero, mul_right_comm]
    exact lt_mul_of_one_lt_right line several)
  rw [copy_at (apart_mul le_rfl) several line, one_mul, add_zero, if_pos ((add_zero _).trans (one_mul _)), write] at second
  split at second
  · rw [if_neg (show ¬ (firstLod t).stride - 0 = _ from stride)] at second
    exact (by decide : (0 : UInt8) ≠ 1) second
  · exact (by decide : (0 : UInt8) ≠ 1) second

/-- All cells written in a row and read by rows are the same exactly if there is no padding. -/
theorem copiesBack_iff (flat : Flat t) : CopiesBack t ↔ t.dimX.toNat * t.dimY.toNat * t.mElement.getSizeBytes = 0 ∨ Tight t := by
  constructor
  · intro back
    rcases eq_zero_or_pos (t.dimX.toNat * t.dimY.toNat * t.mElement.getSizeBytes) with none | cells
    · exact .inl none
    · exact .inr (flat.tight_of_copiesBack cells back)
  · exact flat.copiesBack

end

private def byteCell : Element := .mk 0 (.set .unsigned8 .user false 1) []

private def bytePlane (dimX dimY : UInt32) : RsType :=
  .create 0 byteCell { dimX := dimX, dimY := dimY, dimZ := 0, mDimLOD := false, faces := false, dimYuv := 0 }

private theorem bytePlane_flat {dimX dimY : UInt32} (rows : 0 < dimY.toNat) : Flat (bytePlane dimX dimY) :=
  ⟨⟨rfl, rfl⟩, rfl, rfl, rfl, rows⟩

theorem copiesBack_iff_aligned : CopiesBack (bytePlane 32 3) :=
  (copiesBack_iff (bytePlane_flat (by decide))).mpr (.inr ⟨by decide, by decide, .inr (by decide)⟩)

/-- Three bytes are written for the second row behind the first, and read 16 bytes behind its start. -/
theorem copiesBack_padded : Flat (bytePlane 3 2) ∧ ¬ CopiesBack (bytePlane 3 2) := by
  have flat : Flat (bytePlane 3 2) := bytePlane_flat (by decide)
  refine ⟨flat, fun back => ?_⟩
  have tight := flat.tight_of_copiesBack (by decide) back
  exact absurd tight.2.2 (by decide)

end RenderScript.Client
