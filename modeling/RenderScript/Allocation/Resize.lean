import RenderScript.Allocation.CopyBoxes

/-!
# Resizing

`Allocation::resize1D` of rsAllocation.cpp with `rsdAllocationResize` of driver/rsdAllocation.cpp.
The new part is cleared by cells and not by rows, and its type is changed also where the driver
refuses to resize.
-/

namespace RenderScript.Copies
open ByteMemory LineCopies Stacking Elements RenderScript.Types Allocations List

/-- The type with another width. The table of types has it already or gets it at a new address. -/
def cloneAndResize1D (t : RsType) (address : Nat) (dimX : UInt32) : RsType :=
  .create address t.mElement { t.toTypeKey with dimX := dimX }

/-- `realloc` keeps what fits; behind it the new block has whatever was there. -/
def realloc (block : Memory) (size newSize : Nat) (fresh : Memory) : Memory := fun i =>
  if i < min size newSize then block i else fresh i

namespace Alloc

def rsdAllocationResize (shared : Bool) (newType : RsType) (fresh : Memory) (a : Alloc) :
    Option (Alloc × Bool) :=
  let oldDimX := (a.table.lod 0).dimX
  if shared then some (a, true)
  else if MAX_LOD < newType.mLodCount.toNat then none
  else
    let resized : Alloc :=
      { a with laid := newType, block := realloc a.block a.table.allocSize (allocationBuildPointerTable newType).allocSize fresh }
    if newType.dimX > oldDimX then
      let stride := a.elementSizeBytes.toNat
      (resized.store (stride * oldDimX.toNat) (stride * (newType.dimX - oldDimX).toNat) fun _ => 0).map (·, false)
    else some (resized, false)

/-- `fresh` is what `realloc` hands out, and `address` that of the type. -/
def resize1D (shared : Bool) (address : Nat) (dimX : UInt32) (fresh : Memory) (a : Alloc) :
    Option (Alloc × Bool) :=
  let oldDimX := (a.table.lod 0).dimX
  if dimX = oldDimX then some (a, false)
  else do
    let t := cloneAndResize1D a.type address dimX
    let a := if dimX < oldDimX then a.decRefs 0 (oldDimX - dimX).toNat dimX.toNat else a
    let (a, refused) ← a.rsdAllocationResize shared t fresh
    return ({ a with type := t }, refused)

end Alloc

/-- A call of `resize1D`. -/
structure Call where
  address : Nat
  dimX : UInt32
  fresh : Memory

/-- The cells that both have are kept, further cells are zero, and dimensions and storage agree. -/
structure Resized (a : Alloc) (dimX : UInt32) (a' : Alloc) : Prop where
  kept : ∀ x < min (a.table.lod 0).dimX.toNat dimX.toNat, ∀ j < a.type.mElement.getSizeBytes,
    a'.block ((rowCell x).offset a'.laid + j) = a.block ((rowCell x).offset a.laid + j)
  cleared : ∀ x < dimX.toNat, (a.table.lod 0).dimX.toNat ≤ x → ∀ j < a.type.mElement.getSizeBytes,
    a'.block ((rowCell x).offset a'.laid + j) = 0
  type : a'.type.dimX = dimX
  table : (a'.table.lod 0).dimX = dimX
  storage : a'.table.allocSize = AlignedBytes.alignUp 16 (dimX.toNat * a.type.mElement.getSizeBytes)

structure Line (t : RsType) : Prop where
  plain : Plain t
  dimY : t.dimY = 0
  dimZ : t.dimZ = 0
  single : t.mDimLOD = false
  noFaces : t.faces = false

structure SingleRow (t : RsType) : Prop where
  plain : Plain t
  dimY : t.dimY.toNat ≤ 1
  dimZ : t.dimZ.toNat ≤ 1
  single : t.mDimLOD = false
  noFaces : t.faces = false

section

variable {t : RsType} {a a' : Alloc} {call : Call} {shared refused : Bool}

theorem Line.singleRow (line : Line t) : SingleRow t where
  plain := line.plain
  dimY := line.dimY ▸ Nat.zero_le 1
  dimZ := line.dimZ ▸ Nat.zero_le 1
  single := line.single
  noFaces := line.noFaces

theorem SingleRow.clone (line : SingleRow t) (address : Nat) (dimX : UInt32) : SingleRow (cloneAndResize1D t address dimX) where
  plain := ⟨rfl, line.plain.notYuv⟩
  dimY := line.dimY
  dimZ := line.dimZ
  single := line.single
  noFaces := line.noFaces

theorem SingleRow.levels (line : SingleRow t) : t.mLodCount.toNat = 1 := line.plain.mLodCount_eq_one_iff.mpr (.inl line.single)

theorem SingleRow.allocSize (line : SingleRow t) :
    (allocationBuildPointerTable t).allocSize = rsRound (t.dimX.toNat * t.mElement.getSizeBytes) 16 := by
  rw [line.plain.allocSize_single line.levels line.noFaces, rowsOf, firstLevel]
  rw [max_eq_right line.dimY, max_eq_right line.dimZ]
  exact mul_one _

theorem table_first (t : RsType) : (allocationBuildPointerTable t).lod 0 = firstLod t := by
  unfold allocationBuildPointerTable
  split
  · exact buildLods_below zero_lt_one
  · split
    · rfl
    · rfl

theorem table_width (t : RsType) : ((allocationBuildPointerTable t).lod 0).dimX = t.dimX :=
  congrArg LodState.dimX (table_first t)

theorem Alloc.old_dimX (laid : a.laid = t) : (a.table.lod 0).dimX = t.dimX := by
  rw [Alloc.table, laid, table_width]

theorem SingleRow.offset (line : SingleRow t) {x j : Nat} (inX : x < t.dimX.toNat) (inCell : j < t.mElement.getSizeBytes)
    (short : t.dimX.toNat * t.mElement.getSizeBytes + 15 < 2 ^ 32) :
    (rowCell x).offset t + j = x * t.mElement.getSizeBytes + j ∧
      x * t.mElement.getSizeBytes + j < t.dimX.toNat * t.mElement.getSizeBytes := by
  have ends := Nat.mul_le_mul_right t.mElement.getSizeBytes (Nat.succ_le_of_lt inX)
  rw [Nat.succ_mul] at ends
  rw [line.plain.offset_rowCell, Nat.mod_eq_of_lt (by omega)]
  exact ⟨rfl, by omega⟩

theorem rsRound_eq_iff {v : Nat} : rsRound v 16 = AlignedBytes.alignUp 16 v ↔ v + 15 < 2 ^ 32 := by
  constructor
  · intro eq
    by_contra long
    have short := rsRound_lt (not_lt.mp long)
    have room := AlignedBytes.le_alignUp (by decide : 0 < 16) v
    omega
  · exact rsRound_eq

def Call.newType (call : Call) (t : RsType) : RsType := cloneAndResize1D t call.address call.dimX

def Call.newBlock (call : Call) (t : RsType) (block : Memory) : Memory :=
  let resized := realloc block (allocationBuildPointerTable t).allocSize
    (allocationBuildPointerTable (call.newType t)).allocSize call.fresh
  if t.dimX < call.dimX then
    write resized ⟨t.mElement.getSizeBytes * t.dimX.toNat, t.mElement.getSizeBytes * (call.dimX.toNat - t.dimX.toNat)⟩ fun _ => 0
  else resized

/-- References are released before the call, which has no effect on the block. -/
def Call.released (call : Call) (a : Alloc) : Alloc :=
  if call.dimX < (a.table.lod 0).dimX then
    a.decRefs 0 ((a.table.lod 0).dimX - call.dimX).toNat call.dimX.toNat
  else a

theorem Call.released_eq (call : Call) (a : Alloc) : ∃ refs, call.released a = { a with refs := refs } := by
  unfold Call.released
  split
  · exact a.decRefs_eq _ _ _
  · exact ⟨a.refs, rfl⟩

theorem Alloc.resize_same (same : call.dimX = (a.table.lod 0).dimX) :
    a.resize1D shared call.address call.dimX call.fresh = some (a, false) := if_pos same

theorem Alloc.resize_inv (ne : call.dimX ≠ (a.table.lod 0).dimX) : a.resize1D shared call.address call.dimX call.fresh =
      ((call.released a).rsdAllocationResize shared (call.newType a.type) call.fresh).map
        fun r => ({ r.1 with type := call.newType a.type }, r.2) := by
  unfold Alloc.resize1D
  rw [if_neg ne]
  exact bind_pure_comp _ _

section

variable {location : Nat} (line : SingleRow t) (of : a.Of t)

include line of

omit line in
theorem Alloc.resize_refused (ne : call.dimX ≠ t.dimX) :
    ∃ a', a.resize1D true call.address call.dimX call.fresh = some (a', true) :=
  ⟨_, Alloc.resize_inv (Alloc.old_dimX of.laid ▸ ne)⟩

theorem SingleRow.resize_eq (ne : call.dimX ≠ t.dimX) (short : call.dimX.toNat * t.mElement.getSizeBytes + 15 < 2 ^ 32) :
    a.resize1D false call.address call.dimX call.fresh =
      some (⟨call.newType t, call.newType t, a.script, call.newBlock t a.block, (call.released a).refs⟩, false) := by
  obtain ⟨refs, released⟩ := call.released_eq a
  have cloned : SingleRow (call.newType t) := line.clone call.address call.dimX
  have levels : ¬ MAX_LOD < (call.newType t).mLodCount.toNat := by
    rw [cloned.levels]
    decide
  have old := Alloc.old_dimX of.laid
  rw [Alloc.resize_inv (old.symm ▸ ne), of.type, released]
  unfold Alloc.rsdAllocationResize Call.newBlock
  rw [if_neg Bool.false_ne_true, if_neg levels]
  by_cases grows : t.dimX < call.dimX
  · have more := UInt32.lt_iff_toNat_lt.mp grows
    have size : a.elementSizeBytes.toNat = t.mElement.getSizeBytes := by
      rw [of.elementSizeBytes]
      apply Nat.mod_eq_of_lt
      have wide := Nat.le_mul_of_pos_left t.mElement.getSizeBytes ((Nat.zero_le _).trans_lt more)
      omega
    have difference := UInt32.toNat_sub_of_le _ _ (UInt32.le_of_lt grows)
    have inside : t.mElement.getSizeBytes * t.dimX.toNat + t.mElement.getSizeBytes * (call.dimX.toNat - t.dimX.toNat) ≤
        (allocationBuildPointerTable (call.newType t)).allocSize := by
      rw [← mul_add, Nat.add_sub_cancel' more.le, cloned.allocSize, mul_comm]
      exact (AlignedBytes.le_alignUp (by decide) _).trans_eq (rsRound_eq short).symm
    have stored := @Alloc.store_eq ⟨a.type, call.newType t, a.script, realloc a.block a.table.allocSize
      (allocationBuildPointerTable (call.newType t)).allocSize call.fresh, refs⟩ _ _ (fun _ => 0) inside
    rw [if_pos grows]
    change Option.map _ (if call.dimX > (a.table.lod 0).dimX then _ else _) = _
    rw [old, if_pos grows]
    change Option.map _ (Option.map _ (Alloc.store _ (a.elementSizeBytes.toNat * (a.table.lod 0).dimX.toNat)
      (a.elementSizeBytes.toNat * (call.dimX - (a.table.lod 0).dimX).toNat) _)) = _
    rw [size, old, difference, ← of.table]
    exact congrArg (Option.map _) (congrArg (Option.map _) stored)
  · rw [if_neg grows]
    change Option.map _ (if call.dimX > (a.table.lod 0).dimX then _ else _) = _
    rw [old, if_neg grows, ← of.table]
    rfl

omit of in
theorem SingleRow.newBlock_kept (short : call.dimX.toNat * t.mElement.getSizeBytes + 15 < 2 ^ 32)
    (old : location < t.dimX.toNat * t.mElement.getSizeBytes) (inOld : location < (allocationBuildPointerTable t).allocSize)
    (new : location < call.dimX.toNat * t.mElement.getSizeBytes) :
    call.newBlock t a.block location = a.block location := by
  have cloned : SingleRow (call.newType t) := line.clone call.address call.dimX
  have inNew : location < (allocationBuildPointerTable (call.newType t)).allocSize := by
    rw [cloned.allocSize]
    exact new.trans_le ((AlignedBytes.le_alignUp (by decide) _).trans_eq (rsRound_eq short).symm)
  have both : realloc a.block (allocationBuildPointerTable t).allocSize
      (allocationBuildPointerTable (call.newType t)).allocSize call.fresh location = a.block location :=
    if_pos (lt_min inOld inNew)
  unfold Call.newBlock
  split
  · rw [write_outside _ _ (.inl (old.trans_eq (mul_comm _ _)))]
    exact both
  · exact both

omit line of in
theorem newBlock_cleared (grows : t.dimX < call.dimX) (behind : t.dimX.toNat * t.mElement.getSizeBytes ≤ location)
    (inside : location < call.dimX.toNat * t.mElement.getSizeBytes) :
    call.newBlock t a.block location = 0 := by
  have more := UInt32.lt_iff_toNat_lt.mp grows
  unfold Call.newBlock
  rw [if_pos grows, write, if_pos]
  constructor
  · exact (mul_comm _ _).trans_le behind
  · rw [← mul_add, Nat.add_sub_cancel' more.le, mul_comm]
    exact inside

theorem SingleRow.resized (short : call.dimX.toNat * t.mElement.getSizeBytes + 15 < 2 ^ 32)
    (held : min t.dimX.toNat call.dimX.toNat * t.mElement.getSizeBytes ≤
      rsRound (t.dimX.toNat * t.mElement.getSizeBytes) 16) (refs : Nat → Int) :
    Resized a call.dimX ⟨call.newType t, call.newType t, a.script, call.newBlock t a.block, refs⟩ := by
  have cloned : SingleRow (call.newType t) := line.clone call.address call.dimX
  have old := Alloc.old_dimX of.laid
  constructor
  · rw [old, of.type]
    intro x both j inCell
    have inX : x < call.dimX.toNat := both.trans_le (min_le_right _ _)
    obtain ⟨place, inside⟩ := cloned.offset inX inCell short
    have eq : (rowCell x).offset a.laid = (rowCell x).offset (call.newType t) := by
      rw [of.laid, line.plain.offset_rowCell, cloned.plain.offset_rowCell]
      rfl
    have kept := Nat.mul_le_mul_right t.mElement.getSizeBytes (Nat.succ_le_of_lt both)
    rw [Nat.succ_mul] at kept
    have old := Nat.mul_le_mul_right t.mElement.getSizeBytes (min_le_left t.dimX.toNat call.dimX.toNat)
    have size : (call.newType t).mElement = t.mElement := rfl
    rw [eq, place]
    rw [size] at inside ⊢
    apply line.newBlock_kept short _ _ inside
    · omega
    · rw [line.allocSize]
      omega
  · rw [old, of.type]
    intro x inX behind j inCell
    obtain ⟨place, inside⟩ := cloned.offset inX inCell short
    rw [place]
    apply newBlock_cleared (UInt32.lt_iff_toNat_lt.mpr (behind.trans_lt inX)) _ inside
    exact (Nat.mul_le_mul_right _ behind).trans (Nat.le_add_right _ _)
  · rfl
  · exact table_width _
  · rw [of.type, ← rsRound_eq short]
    exact cloned.allocSize

end

theorem Alloc.laid_of_resize {newType : RsType} {fresh : Memory}
    (done : a.rsdAllocationResize false newType fresh = some (a', refused)) :
    refused = false ∧ a'.laid = newType := by
  unfold Alloc.rsdAllocationResize at done
  rw [if_neg Bool.false_ne_true] at done
  split at done
  · cases done
  · split at done
    · obtain ⟨b, stored, result⟩ := Option.map_eq_some_iff.mp done
      cases result
      rw [Alloc.store_eq (Alloc.inside_of_store stored)] at stored
      cases stored
      exact ⟨rfl, rfl⟩
    · cases done
      exact ⟨rfl, rfl⟩

theorem SingleRow.after (line : SingleRow t) (of : a.Of t)
    (done : a.resize1D false call.address call.dimX call.fresh = some (a', refused)) :
    refused = false ∧ ∃ t', SingleRow t' ∧ a'.Of t' ∧ t'.dimX = call.dimX ∧ t'.mElement = t.mElement := by
  by_cases eq : call.dimX = t.dimX
  · rw [Alloc.resize_same (eq.trans (Alloc.old_dimX of.laid).symm)] at done
    cases done
    exact ⟨rfl, t, line, of, eq.symm, rfl⟩
  · rw [Alloc.resize_inv (Alloc.old_dimX of.laid ▸ eq), of.type] at done
    obtain ⟨⟨b, flag⟩, driver, result⟩ := Option.map_eq_some_iff.mp done
    cases result
    obtain ⟨accepted, laid⟩ := Alloc.laid_of_resize driver
    exact ⟨accepted, call.newType t, line.clone call.address call.dimX, ⟨rfl, laid⟩, rfl, rfl⟩

theorem SingleRow.resized_same (line : SingleRow t) (of : a.Of t)
    (short : t.dimX.toNat * t.mElement.getSizeBytes + 15 < 2 ^ 32) : Resized a t.dimX a := by
  have old := Alloc.old_dimX of.laid
  constructor
  · exact fun _ _ _ _ => rfl
  · rw [old]
    exact fun x inX behind => absurd inX (not_lt.mpr behind)
  · rw [of.type]
  · exact old
  · rw [of.table, of.type, line.allocSize, rsRound_eq short]

end

def Resizes (shared : Bool) : List Call → Alloc → Prop
  | [], _ => True
  | call :: rest, a =>
    ∃ a' refused, a.resize1D shared call.address call.dimX call.fresh = some (a', refused) ∧
      (refused = false → Resized a call.dimX a' ∧ Resizes shared rest a')

section

variable {calls : List Call} {t t' : RsType} {a a' : Alloc} {shared script : Bool}

/-- Sizes have 32 bits, and the cells that the first call keeps have been in the block. -/
structure SizesFit (t : RsType) (dims : List UInt32) : Prop where
  short : ∀ d ∈ dims, d.toNat * t.mElement.getSizeBytes + 15 < 2 ^ 32
  held : ∀ d ∈ dims.head?, min t.dimX.toNat d.toNat * t.mElement.getSizeBytes ≤
    rsRound (t.dimX.toNat * t.mElement.getSizeBytes) 16

theorem held_of_short {old new e : Nat} (short : old * e + 15 < 2 ^ 32) : min old new * e ≤ rsRound (old * e) 16 :=
  (Nat.mul_le_mul_right _ (min_le_left _ _)).trans ((AlignedBytes.le_alignUp (by decide) _).trans_eq (rsRound_eq short).symm)

theorem SizesFit.tail {d : UInt32} {dims : List UInt32} (fit : SizesFit t (d :: dims))
    (width : t'.dimX = d) (same : t'.mElement = t.mElement) : SizesFit t' dims := by
  have short := fit.short d mem_cons_self
  constructor
  · rw [same]
    exact fun d' isIn => fit.short d' (mem_cons_of_mem _ isIn)
  · intro d' _
    rw [same, width]
    exact held_of_short short

theorem SingleRow.resizes (line : SingleRow t) (of : a.Of t) (fit : SizesFit t (calls.map Call.dimX)) :
    Resizes shared calls a := by
  induction calls generalizing t a with
  | nil => trivial
  | cons call rest ih =>
    have short := fit.short call.dimX mem_cons_self
    by_cases eq : call.dimX = t.dimX
    · refine ⟨a, false, Alloc.resize_same (eq.trans (Alloc.old_dimX of.laid).symm), fun _ => ⟨?_, ih line of (fit.tail eq.symm rfl)⟩⟩
      rw [eq] at short ⊢
      exact line.resized_same of short
    · cases shared with
      | true =>
        obtain ⟨a', refused⟩ := Alloc.resize_refused of eq
        exact ⟨a', true, refused, fun accepted => absurd accepted (by decide)⟩
      | false =>
        have done := line.resize_eq of eq short
        refine ⟨_, false, done, fun _ => ⟨line.resized of short (fit.held call.dimX rfl) _, ?_⟩⟩
        exact ih (line.clone call.address call.dimX) ⟨rfl, rfl⟩ (fit.tail rfl rfl)

theorem SingleRow.short_of_resizes (line : SingleRow t) (of : a.Of t) (resizes : Resizes false calls a) :
    ∀ d ∈ calls.map Call.dimX, d.toNat * t.mElement.getSizeBytes + 15 < 2 ^ 32 := by
  induction calls generalizing t a with
  | nil => exact fun d isIn => absurd isIn not_mem_nil
  | cons call rest ih =>
    obtain ⟨a', refused, done, good⟩ := resizes
    obtain ⟨accepted, t', line', of', width, eq⟩ := line.after of done
    obtain ⟨resized, later⟩ := good accepted
    intro d isIn
    rcases mem_cons.mp isIn with rfl | isIn
    · have storage := resized.storage
      rw [of'.table, line'.allocSize, of.type, width, eq] at storage
      exact rsRound_eq_iff.mp storage
    · rw [← eq]
      exact ih line' of' later d isIn

theorem SingleRow.made (line : SingleRow t) (script : Bool) (block : Memory) :
    rsdAllocationInit t script block = some ⟨t, t, script, block, fun _ => 0⟩ :=
  if_pos (line.levels.trans_le (by decide))

/-- A byte of a kept cell that was outside the block is what `realloc` hands out. -/
theorem SingleRow.held_of_resized (line : SingleRow t) {call : Call} {rest : List Call}
    (short : call.dimX.toNat * t.mElement.getSizeBytes + 15 < 2 ^ 32) (handed : call.fresh = fun _ => 1)
    (resizes : Resizes false (call :: rest) ⟨t, t, script, fun _ => 0, fun _ => 0⟩) :
    min t.dimX.toNat call.dimX.toNat * t.mElement.getSizeBytes ≤ rsRound (t.dimX.toNat * t.mElement.getSizeBytes) 16 := by
  by_contra lost
  rw [not_le] at lost
  have fewer : call.dimX.toNat < t.dimX.toNat := by
    by_contra more
    rw [min_eq_left (not_lt.mp more)] at lost
    have smaller := Nat.mul_le_mul_right t.mElement.getSizeBytes (not_lt.mp more)
    rw [rsRound_eq (by omega)] at lost
    exact lost.not_ge (AlignedBytes.le_alignUp (by decide) _)
  rw [min_eq_right fewer.le] at lost
  have some := (Nat.zero_le _).trans_lt lost
  have width : 0 < call.dimX.toNat := Nat.pos_of_mul_pos_right some
  have size := Nat.pos_of_mul_pos_left some
  have different : call.dimX ≠ t.dimX := fun eq => fewer.ne (congrArg UInt32.toNat eq)
  have shrinks : ¬ t.dimX < call.dimX := fun grows => fewer.asymm (UInt32.lt_iff_toNat_lt.mp grows)
  have cloned := line.clone call.address call.dimX
  obtain ⟨a', refused, done, good⟩ := resizes
  have resized := @SingleRow.resize_eq t ⟨t, t, script, fun _ => 0, fun _ => 0⟩ _ line ⟨rfl, rfl⟩ different short
  rw [resized] at done
  cases done
  -- the last byte of the last cell
  have inBoth : call.dimX.toNat - 1 < min ((allocationBuildPointerTable t).lod 0).dimX.toNat call.dimX.toNat := by
    rw [table_width]
    omega
  have kept := (good rfl).1.kept (call.dimX.toNat - 1) inBoth (t.mElement.getSizeBytes - 1) (Nat.sub_one_lt size.ne')
  have place : (rowCell (call.dimX.toNat - 1)).offset (call.newType t) + (t.mElement.getSizeBytes - 1) =
      (call.dimX.toNat - 1) * t.mElement.getSizeBytes + (t.mElement.getSizeBytes - 1) :=
    (cloned.offset (Nat.sub_one_lt width.ne') (Nat.sub_one_lt size.ne') short).1
  have last : (call.dimX.toNat - 1) * t.mElement.getSizeBytes + (t.mElement.getSizeBytes - 1) =
      call.dimX.toNat * t.mElement.getSizeBytes - 1 := by
    rw [Nat.sub_one_mul]
    have whole := Nat.le_mul_of_pos_left t.mElement.getSizeBytes width
    omega
  have behind : ¬ call.dimX.toNat * t.mElement.getSizeBytes - 1 <
      min (allocationBuildPointerTable t).allocSize (allocationBuildPointerTable (call.newType t)).allocSize := by
    rw [line.allocSize]
    omega
  have handedOut : call.newBlock t (fun _ => 0) (call.dimX.toNat * t.mElement.getSizeBytes - 1) = 1 := by
    unfold Call.newBlock
    simp [shrinks, realloc, behind, handed]
  have byte : call.newBlock t (fun _ => 0)
      ((rowCell (call.dimX.toNat - 1)).offset (call.newType t) + (t.mElement.getSizeBytes - 1)) = 0 := kept
  rw [place, last, handedOut] at byte
  exact (by decide : (1 : UInt8) ≠ 0) byte

/-- All calls do what they should exactly if all sizes have 32 bits and the block held the cells that
the first call keeps. -/
theorem resizes_iff (line : Line t) (dims : List UInt32) :
    (∀ (shared script : Bool) (block : Memory) (calls : List Call), calls.map Call.dimX = dims →
      ∃ a, rsdAllocationInit t script block = some a ∧ Resizes shared calls a) ↔ SizesFit t dims := by
  constructor
  · intro resizes
    obtain ⟨a, made, all⟩ := resizes false true (fun _ => 0) (dims.map fun d => ⟨0, d, fun _ => 1⟩)
      (by rw [map_map]; exact map_id _)
    rw [line.singleRow.made] at made
    cases made
    have short := line.singleRow.short_of_resizes ⟨rfl, rfl⟩ all
    rw [map_map, show Call.dimX ∘ (fun d => (⟨0, d, fun _ => 1⟩ : Call)) = id from rfl, map_id] at short
    refine ⟨short, ?_⟩
    cases dims with
    | nil => exact fun d isIn => absurd isIn (by simp)
    | cons d rest =>
      intro first isFirst
      cases isFirst
      exact line.singleRow.held_of_resized (short d mem_cons_self) rfl all
  · rintro fit shared script block calls rfl
    exact ⟨_, line.singleRow.made script block, line.singleRow.resizes ⟨rfl, rfl⟩ fit⟩

end

/-- A call that the driver refuses changes nothing, and after every call the type and the table have
the same width. -/
structure Atomic (a a' : Alloc) (refused : Bool) : Prop where
  unchanged : refused = true →
    a'.type = a.type ∧ a'.table = a.table ∧ a'.block = a.block ∧ a'.refs = a.refs
  agree : a'.type.dimX = (a'.table.lod 0).dimX

section

variable {a a' : Alloc} {call : Call} {shared refused : Bool}

theorem Alloc.refused_of_shared (ne : call.dimX ≠ (a.table.lod 0).dimX)
    (done : a.resize1D true call.address call.dimX call.fresh = some (a', refused)) :
    refused = true ∧ a'.type.dimX = call.dimX ∧ a'.laid = a.laid := by
  obtain ⟨refs, released⟩ := call.released_eq a
  rw [Alloc.resize_inv ne, released] at done
  cases done
  exact ⟨rfl, rfl, rfl⟩

theorem Alloc.agree_of_resize (ne : call.dimX ≠ (a.table.lod 0).dimX)
    (done : a.resize1D false call.address call.dimX call.fresh = some (a', refused)) :
    refused = false ∧ a'.type.dimX = (a'.table.lod 0).dimX := by
  rw [Alloc.resize_inv ne] at done
  obtain ⟨⟨b, flag⟩, driver, result⟩ := Option.map_eq_some_iff.mp done
  cases result
  obtain ⟨accepted, laid⟩ := Alloc.laid_of_resize driver
  refine ⟨accepted, ?_⟩
  change (call.newType a.type).dimX = ((allocationBuildPointerTable b.laid).lod 0).dimX
  rw [laid, table_width]

/-- The call returns where the width stays, and only there the driver is not asked. -/
theorem resize_atomic_iff (done : a.resize1D shared call.address call.dimX call.fresh = some (a', refused)) :
    Atomic a a' refused ↔ if call.dimX = (a.table.lod 0).dimX then a.type.dimX = (a.table.lod 0).dimX else shared = false := by
  by_cases eq : call.dimX = (a.table.lod 0).dimX
  · rw [if_pos eq]
    rw [Alloc.resize_same eq] at done
    cases done
    constructor
    · exact fun atomic => atomic.agree
    · exact fun agree => ⟨fun refused => absurd refused Bool.false_ne_true, agree⟩
  · rw [if_neg eq]
    cases shared with
    | true =>
      obtain ⟨-, width, laid⟩ := Alloc.refused_of_shared eq done
      refine iff_of_false (fun atomic => eq ?_) (by decide)
      rw [← width, atomic.agree, Alloc.table, laid, Alloc.table]
    | false =>
      obtain ⟨accepted, agree⟩ := Alloc.agree_of_resize eq done
      refine iff_of_true ⟨fun refused => ?_, agree⟩ rfl
      exact absurd (accepted.symm.trans refused) Bool.false_ne_true

end

private def wordCell : Element := .mk 0 (.set .unsigned32 .user false 1) []

private def words (dimX : UInt32) : RsType :=
  .create 0 wordCell { dimX := dimX, dimY := 0, dimZ := 0, mDimLOD := false, faces := false, dimYuv := 0 }

private theorem words_line (dimX : UInt32) : Line (words dimX) := ⟨⟨rfl, rfl⟩, rfl, rfl, rfl, rfl⟩

theorem resizes_iff_words : ∃ a, rsdAllocationInit (words 5) true (fun _ => 7) = some a ∧
      Resizes false [⟨0, 9, fun _ => 1⟩, ⟨1, 2, fun _ => 1⟩] a := by
  have grown : (9 : UInt32).toNat * (words 5).mElement.getSizeBytes + 15 < 2 ^ 32 := by decide
  have shrunk : (2 : UInt32).toNat * (words 5).mElement.getSizeBytes + 15 < 2 ^ 32 := by decide
  refine (resizes_iff (words_line 5) [9, 2]).mpr ⟨?_, ?_⟩ false true _ _ rfl
  · exact forall_mem_cons.mpr ⟨grown, forall_mem_singleton.mpr shrunk⟩
  · exact fun d _ => held_of_short (by decide)

/-- A row of 4 GiB gets no storage. -/
theorem resizes_lost : Line (words 5) ∧
      ¬ Resizes false [⟨0, 1073741824, fun _ => 0⟩] ⟨words 5, words 5, true, fun _ => 0, fun _ => 0⟩ := by
  refine ⟨words_line 5, fun resizes => ?_⟩
  have short := (words_line 5).singleRow.short_of_resizes ⟨rfl, rfl⟩ resizes 1073741824 mem_cons_self
  exact absurd short (by decide)

/-- A row that is not shared. -/
theorem resize_atomic_iff_words :
    ∃ a', (⟨words 5, words 5, true, fun _ => 7, fun _ => 0⟩ : Alloc).resize1D false 1 3 (fun _ => 1) =
      some (a', false) ∧ Atomic ⟨words 5, words 5, true, fun _ => 7, fun _ => 0⟩ a' false := by
  have done := @SingleRow.resize_eq _ ⟨words 5, words 5, true, fun _ => 7, fun _ => 0⟩ ⟨1, 3, fun _ => 1⟩
    (words_line 5).singleRow ⟨rfl, rfl⟩ (by decide) (by decide)
  refine ⟨_, done, (resize_atomic_iff done).mpr ?_⟩
  decide

private def pointerCell : Element := .mk 0 (.set .script .user false 1) []

private def pointers : Alloc where
  type := .create 0 pointerCell { (words 5).toTypeKey with dimX := 5 }
  laid := .create 0 pointerCell { (words 5).toTypeKey with dimX := 5 }
  script := true
  block := fun i => if i = 16 then 7 else 0
  refs := fun ob => if ob = 7 then 1 else 0

/-- A shared row keeps its cells, but has another type and has released the handle. -/
theorem resize_not_atomic : ∃ a', pointers.resize1D true 1 4 (fun _ => 0) = some (a', true) ∧ a'.type.dimX = 4 ∧
      (a'.table.lod 0).dimX = 5 ∧ a'.refs 7 = 0 ∧ ¬ Atomic pointers a' true := by
  refine ⟨_, rfl, rfl, rfl, rfl, fun atomic => ?_⟩
  exact absurd (atomic.agree : (4 : UInt32) = 5) (by decide)

end RenderScript.Copies
