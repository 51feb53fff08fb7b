import RenderScript.Foundation.Interleaving
import RenderScript.Allocation.CellHandles
import RenderScript.Allocation.Resize

/-!
# Uploads of handles

Runs of uploads and resizes of an allocation whose cells have handles. Users keep the objects alive,
so that no count of system references that falls destroys one.
-/

namespace RenderScript.Uploads
open ByteMemory Elements RenderScript.Types Allocations Copies

inductive Act where
  | data1D (xoff count : UInt32) (data : Source) (sizeBytes : Nat)
  | data2D (xoff yoff : UInt32) (face : Nat) (w h : UInt32) (data : Source) (stride : Nat)
  | data3D (xoff yoff zoff w h d : UInt32) (data : Source) (stride : Nat)
  | resize1D (call : Copies.Call)

def step (shared : Bool) (s : Alloc × Bool) : Act → Option (Alloc × Bool)
  | .data1D xoff count data sizeBytes => s.1.data1D xoff 0 count data sizeBytes
  | .data2D xoff yoff face w h data stride =>
    (s.1.rsdAllocationData2D xoff yoff 0 face w h data stride).map (·, false)
  | .data3D xoff yoff zoff w h d data stride =>
    (s.1.rsdAllocationData3D xoff yoff zoff 0 w h d data stride).map (·, false)
  | .resize1D call => s.1.resize1D shared call.address call.dimX call.fresh

/-- Regions are inside the allocation. There are calls of `resize1D` where `resizes` is set. -/
def Requested (resizes : Bool) (s : Alloc × Bool) : Act → Prop
  | .data1D xoff count _ _ => (requestBox xoff 0 0 count 1 1 0 0).In s.1.laid
  | .data2D xoff yoff face w h _ _ => (requestBox xoff yoff 0 w h 1 0 face).In s.1.laid
  | .data3D xoff yoff zoff w h d _ _ => (requestBox xoff yoff zoff w h d.toNat 0 0).In s.1.laid
  | .resize1D _ => resizes = true

/-- Objects have as many system references from the allocation as its cells have handles of them. -/
def Counted (a : Alloc) : Prop := ∀ ob, ob ≠ 0 → a.refs ob = handleCount a.laid a.block ob

end RenderScript.Uploads

namespace RenderScript.Copies
open ByteMemory Elements RenderScript.Types Allocations

/-!
## Rows that are resized
-/

section

variable {t : RsType} {a a' : Alloc} {call : Copies.Call} (line : SingleRow t)

include line

theorem SingleRow.rowsFit (short : t.dimX.toNat * t.mElement.getSizeBytes + 15 < 2 ^ 32) : RowsFit t := by
  have planes : max t.dimZ.toNat 1 - 1 = 0 := by
    rw [max_eq_right line.dimZ]
  refine .inr ⟨short, ?_, fun _ => line.dimZ⟩
  rw [planes, Nat.zero_mul]
  decide

theorem SingleRow.handleCount_eq (fits : RowsFit t) (memory : Memory) (ob : Nat) :
    handleCount t memory ob = tally memory (cellRefs t.mElement 0 t.dimX.toNat) ob := by
  have all : cells t \ lineCells (rowCell 0) t.dimX.toNat = ∅ := by
    rw [Finset.sdiff_eq_empty_iff_subset]
    intro c mem
    obtain ⟨inLod, inFace, inX, inY, inZ⟩ := mem_cells.mp mem
    have level : c.lod = 0 := Nat.lt_one_iff.mp (inLod.trans_eq line.levels)
    have face : c.face = 0 := by
      rw [faceTotal, line.noFaces] at inFace
      exact Nat.lt_one_iff.mp inFace
    rw [level, line.plain.mLodDim] at inX inY inZ
    have rows := max_eq_right line.dimY
    have planes := max_eq_right line.dimZ
    refine mem_lineCells.mpr ⟨level, face, ⟨Nat.zero_le _, ?_⟩, ⟨Nat.zero_le _, ?_⟩, ⟨Nat.zero_le _, ?_⟩⟩
    · exact inX.trans_eq (zero_add _).symm
    · exact inY.trans_eq rows
    · exact inZ.trans_eq planes
  rw [handleCount_first line.plain fits, all, Finset.sum_empty, add_zero]

theorem SingleRow.short_of_resize (of : a.Of t) (fits : RowsFit t) (small : t.mElement.getSizeBytes < 2 ^ 32)
    {refused : Bool} (done : a.resize1D false call.address call.dimX call.fresh = some (a', refused)) :
    call.dimX.toNat * t.mElement.getSizeBytes + 15 < 2 ^ 32 := by
  by_contra long
  have old := Alloc.old_dimX of.laid
  have more : t.dimX.toNat < call.dimX.toNat := by
    by_contra fewer
    have smaller : call.dimX.toNat * t.mElement.getSizeBytes ≤ t.dimX.toNat * t.mElement.getSizeBytes :=
      Nat.mul_le_mul_right _ (not_lt.mp fewer)
    have short := fits.short
    omega
  have grows : t.dimX < call.dimX := UInt32.lt_iff_toNat_lt.mpr more
  have different : call.dimX ≠ t.dimX := fun eq => more.ne (congrArg UInt32.toNat eq.symm)
  have cloned : SingleRow (call.newType t) := line.clone call.address call.dimX
  have levels : ¬ MAX_LOD < (call.newType t).mLodCount.toNat := by
    rw [cloned.levels]
    decide
  obtain ⟨refs, released⟩ := call.released_eq a
  rw [Alloc.resize_inv (old.symm ▸ different), of.type, released] at done
  obtain ⟨result, driver, -⟩ := Option.map_eq_some_iff.mp done
  unfold Alloc.rsdAllocationResize at driver
  rw [if_neg Bool.false_ne_true, if_neg levels] at driver
  change (if call.dimX > (a.table.lod 0).dimX then _ else _) = _ at driver
  rw [old, if_pos grows] at driver
  obtain ⟨b, stored, -⟩ := Option.map_eq_some_iff.mp driver
  have room := Alloc.inside_of_store stored
  change a.elementSizeBytes.toNat * (a.table.lod 0).dimX.toNat +
    a.elementSizeBytes.toNat * (call.dimX - (a.table.lod 0).dimX).toNat ≤
      (allocationBuildPointerTable (call.newType t)).allocSize at room
  have difference := UInt32.toNat_sub_of_le _ _ (UInt32.le_of_lt grows)
  rw [old, difference, of.elementSizeBytes, Nat.mod_eq_of_lt small, ← mul_add,
    Nat.add_sub_cancel' more.le, cloned.allocSize, mul_comm] at room
  exact (rsRound_lt (not_lt.mp long)).not_ge room

theorem SingleRow.tally_newBlock (fits : RowsFit t) (inside : RefsInside t.mElement)
    (short : call.dimX.toNat * t.mElement.getSizeBytes + 15 < 2 ^ 32) {ob : Nat} (some : ob ≠ 0) :
    tally (call.newBlock t a.block) (cellRefs t.mElement 0 call.dimX.toNat) ob =
      tally a.block (cellRefs t.mElement 0 (min t.dimX.toNat call.dimX.toNat)) ob := by
  have shortOld := fits.short
  have held {ct : Nat} (old : ct ≤ t.dimX.toNat) (new : ct ≤ call.dimX.toNat) :
      tally (call.newBlock t a.block) (cellRefs t.mElement 0 ct) ob = tally a.block (cellRefs t.mElement 0 ct) ob := by
    apply tally_congr
    intro p mem
    have ends := (inside.mem_cellRefs mem).2
    have inOld : ct * t.mElement.getSizeBytes ≤ t.dimX.toNat * t.mElement.getSizeBytes := Nat.mul_le_mul_right _ old
    have inNew : ct * t.mElement.getSizeBytes ≤ call.dimX.toNat * t.mElement.getSizeBytes := Nat.mul_le_mul_right _ new
    have room : t.dimX.toNat * t.mElement.getSizeBytes ≤ (allocationBuildPointerTable t).allocSize := by
      rw [line.allocSize, rsRound_eq shortOld]
      exact AlignedBytes.le_alignUp (by decide) _
    apply handleAt_congr
    intro i inHandle
    exact line.newBlock_kept short (by omega) (by omega) (by omega)
  rcases lt_or_ge t.dimX.toNat call.dimX.toNat with grows | shrinks
  · obtain ⟨more, width⟩ := Nat.exists_eq_add_of_le grows.le
    have zeros : tally (call.newBlock t a.block)
        (cellRefs t.mElement (0 + t.dimX.toNat * t.mElement.getSizeBytes) more) ob = 0 := by
      apply tally_of_null some
      intro p mem
      obtain ⟨above, lt⟩ := inside.mem_cellRefs mem
      rw [zero_add, ← add_mul, ← width] at lt
      have cleared : ∀ i < 4, call.newBlock t a.block (p + i) = 0 := by
        intro i inHandle
        exact newBlock_cleared (UInt32.lt_iff_toNat_lt.mpr grows) (by omega) (by omega)
      exact (handleAt_congr cleared).trans (handleAt_zero p)
    rw [min_eq_left grows.le, width, cellRefs_add, tally_append, zeros, held le_rfl grows.le]
    rfl
  · rw [min_eq_right shrinks, held shrinks le_rfl]

end

end RenderScript.Copies

namespace RenderScript.Uploads
open ByteMemory Interleaving Elements RenderScript.Types Allocations Copies List Option

variable {ob : Nat} {w h xoff yoff : UInt32}

/-!
## One copy
-/

theorem foldl_adjustRef (memory : Memory) (n : Int) (refs : Nat → Int) (places : List Nat) (some : ob ≠ 0) :
    places.foldl (adjustRef memory n) refs ob = refs ob + n * tally memory places ob := by
  induction places generalizing refs with
  | nil => simp [tally]
  | cons p rest ih =>
    have first : adjustRef memory n refs p ob = refs ob + n * tally memory [p] ob := by
      by_cases eq : handleAt memory p = ob
      · subst eq
        simp [adjustRef, tally, some]
      · by_cases null : handleAt memory p = 0
        · simp [adjustRef, tally, null, Ne.symm some]
        · simp [adjustRef, tally, null, eq, Ne.symm eq]
    have both : tally memory (p :: rest) ob = tally memory [p] ob + tally memory rest ob := tally_append memory [p] rest ob
    rw [foldl_cons, ih, first, both]
    push_cast
    ring

section

variable {a : Alloc} (script : a.script = true) {dst ct : Nat}

include script

theorem decRefs_refs (small : ct ≠ 0 → a.type.mElement.getSizeBytes < 2 ^ 32) (dst startOff : Nat) :
    ∃ refs, a.decRefs dst ct startOff = { a with refs := refs } ∧ ∀ ob, ob ≠ 0 → refs ob = a.refs ob -
        tally a.block (cellRefs a.type.mElement (dst + a.type.mElement.getSizeBytes * startOff) ct) ob := by
  unfold Alloc.decRefs
  cases has : a.hasReferences with
  | false =>
    refine ⟨a.refs, rfl, fun ob _ => ?_⟩
    rw [cellRefs_nil (references_of_not_mHasReference _ has)]
    exact (sub_zero _).symm
  | true =>
    rw [if_pos ⟨rfl, script⟩]
    refine ⟨_, rfl, fun ob some => ?_⟩
    rw [visitCells_eq _ small, foldl_adjustRef _ _ _ _ some, neg_one_mul]
    rfl

theorem copyCells_refs (small : ct ≠ 0 → a.type.mElement.getSizeBytes < 2 ^ 32) {size : Nat} (src : Memory)
    (inside : dst + size ≤ a.table.allocSize) :
    ∃ refs, a.copyCells dst src ct size = some { a with block := write a.block ⟨dst, size⟩ src, refs := refs } ∧
      ∀ ob, ob ≠ 0 → refs ob = a.refs ob + tally src (cellRefs a.type.mElement 0 ct) ob -
        tally a.block (cellRefs a.type.mElement dst ct) ob := by
  unfold Alloc.copyCells
  cases has : a.hasReferences with
  | false =>
    have nowhere := cellRefs_nil (references_of_not_mHasReference _ has)
    rw [if_neg Bool.false_ne_true, Alloc.store_eq inside]
    refine ⟨a.refs, rfl, fun ob _ => ?_⟩
    rw [nowhere, nowhere]
    simp [tally]
  | true =>
    obtain ⟨refs, released, counts⟩ := @decRefs_refs (a.incRefs src ct) script ct small _ 0
    have stored := @Alloc.store_eq { a with refs := refs } dst _ src inside
    rw [if_pos rfl, released]
    refine ⟨refs, stored, fun ob some => ?_⟩
    have acquired : (a.incRefs src ct).refs ob = a.refs ob + tally src (cellRefs a.type.mElement 0 ct) ob := by
      change visitCells (adjustRef src 1) a.type.mElement 0 ct 0 a.refs ob = _
      rw [visitCells_eq _ small, foldl_adjustRef _ _ _ _ some, one_mul]
      rfl
    rw [counts ob some, acquired]
    rfl

end

structure Kept (t : RsType) (a : Alloc) : Prop where
  of : a.Of t
  script : a.script = true
  counted : Counted a

theorem Kept.refs {t : RsType} {a : Alloc} (kept : Kept t a) (some : ob ≠ 0) : a.refs ob = handleCount t a.block ob := by
  rw [← kept.of.laid]
  exact kept.counted ob some

theorem Kept.start (t : RsType) : Kept t ⟨t, t, true, fun _ => 0, fun _ => 0⟩ := by
  refine ⟨⟨rfl, rfl⟩, rfl, fun ob some => ?_⟩
  rw [handleCount_zero some]
  rfl

/-!
## Uploads
-/

section

variable {t : RsType} {a : Alloc} (plain : Plain t) (fits : RowsFit t) (inside : RefsInside t.mElement)
  (kept : Kept t a)

include plain fits inside kept

theorem Kept.copyCells {c : Cell} {w : Nat} (isIn : (c.line w).In t) (src : Memory) :
    ∃ a', a.copyCells (c.offset t) src w (w * t.mElement.getSizeBytes) = some a' ∧ Kept t a' := by
  have small : w ≠ 0 → a.type.mElement.getSizeBytes < 2 ^ 32 := by
    rw [kept.of.type]
    exact fits.small plain isIn
  have room : c.offset t + w * t.mElement.getSizeBytes ≤ a.table.allocSize := by
    rw [kept.of.table]
    exact line_inside plain fits isIn
  obtain ⟨refs, copied, counts⟩ := copyCells_refs kept.script small src room
  refine ⟨_, copied, ⟨kept.of.type, kept.of.laid⟩, kept.script, fun ob some => ?_⟩
  have written := handleCount_write plain fits isIn inside a.block src ob
  have before := kept.refs some
  dsimp only
  rw [counts ob some, before, kept.of.type, kept.of.laid]
  omega

theorem Kept.copyLines {c : Cell} {w h stride : Nat} (isIn : Box.In t ⟨c.x, c.y, c.z, w, h, 1, c.lod, c.face⟩) (src : Source) :
    ∃ a', copyLines w (w * t.mElement.getSizeBytes) stride
        ((allocationBuildPointerTable t).lod c.lod).stride h (c.offset t) src a = some a' ∧ Kept t a' := by
  induction h generalizing c src a with
  | zero => exact ⟨a, rfl, kept⟩
  | succ h ih =>
    have inY : c.y + (h + 1) ≤ max (t.mLodDim c.lod).y.toNat 1 := isIn.y
    have word := (t.mLodDim c.lod).y.toNat_lt
    have first : (c.line w).In t :=
      { isIn with y := by change c.y + 1 ≤ max (t.mLodDim c.lod).y.toNat 1; omega }
    have later : Box.In t ⟨c.x, c.y + 1, c.z, w, h, 1, c.lod, c.face⟩ :=
      { isIn with y := by change c.y + 1 + h ≤ max (t.mLodDim c.lod).y.toNat 1; omega }
    obtain ⟨next, copied, keptNext⟩ := kept.copyCells plain fits inside first (src.bytes a.block)
    obtain ⟨a', rest, keptLast⟩ := @ih next keptNext { c with y := c.y + 1 } later (src.advance stride)
    have place := @offset_add t c 1 (by omega)
    rw [Nat.one_mul] at place
    rw [place] at rest
    exact ⟨a', bind_eq_some_iff.mpr ⟨next, copied, rest⟩, keptLast⟩

theorem Kept.data1D {count : UInt32} (isIn : (requestBox xoff 0 0 count 1 1 0 0).In t) (data : Source) :
    ∃ a', a.rsdAllocationData1D xoff 0 count data = some a' ∧ Kept t a' := by
  unfold Alloc.rsdAllocationData1D
  dsimp only
  cases skipped : data.isAt (a.getOffsetPtr xoff 0 0 0 0) with
  | true => exact ⟨a, rfl, kept⟩
  | false =>
    rw [if_neg Bool.false_ne_true, kept.of.getOffsetPtr, kept.of.type]
    exact @Kept.copyCells t a plain fits inside kept ⟨xoff.toNat, 0, 0, 0, 0⟩ _ isIn _

theorem Kept.data2D {face : Nat} (isIn : (requestBox xoff yoff 0 w h 1 0 face).In t) (data : Source) (stride : Nat) :
    ∃ a', a.rsdAllocationData2D xoff yoff 0 face w h data stride = some a' ∧ Kept t a' := by
  unfold Alloc.rsdAllocationData2D
  dsimp only
  cases skipped : data.isAt (a.getOffsetPtr xoff yoff 0 0 face) with
  | true => exact ⟨a, rfl, kept⟩
  | false =>
    rw [if_neg Bool.false_ne_true, kept.of.elementSizeBytes, lineSize_eq plain fits isIn, kept.of.getOffsetPtr,
      kept.of.table, lineCount_eq isIn]
    obtain ⟨a', copied, kept'⟩ := @Kept.copyLines t a plain fits inside kept
      ⟨xoff.toNat, yoff.toNat, 0, 0, face⟩ w.toNat h.toNat
      (lineStride (w.toNat * t.mElement.getSizeBytes) stride) isIn data
    refine ⟨a', bind_eq_some_iff.mpr ⟨a', copied, ?_⟩, kept'⟩
    unfold Alloc.copyYuv
    rw [kept'.of.type]
    exact if_pos plain.notYuv

theorem Kept.copySlices {z : UInt32} {slices stride : Nat} (isIn : (requestBox xoff yoff z w h slices 0 0).In t) (src : Source) :
    ∃ a', copySlices xoff yoff h 0 w.toNat (w.toNat * t.mElement.getSizeBytes) stride slices z src a = some a' ∧ Kept t a' := by
  induction slices generalizing z src a with
  | zero => exact ⟨a, rfl, kept⟩
  | succ slices ih =>
    have inZ : z.toNat + (slices + 1) ≤ max (t.mLodDim 0).z.toNat 1 := isIn.z
    have word := (t.mLodDim 0).z.toNat_lt
    have next : (z + 1).toNat = z.toNat + 1 := by
      rw [UInt32.toNat_add, UInt32.toNat_one, Nat.mod_eq_of_lt (by omega)]
    have plane : Box.In t ⟨xoff.toNat, yoff.toNat, z.toNat, w.toNat, h.toNat, 1, 0, 0⟩ :=
      { isIn with z := by change z.toNat + 1 ≤ max (t.mLodDim 0).z.toNat 1; omega }
    have later : (requestBox xoff yoff (z + 1) w h slices 0 0).In t :=
      { isIn with z := by change (z + 1).toNat + slices ≤ max (t.mLodDim 0).z.toNat 1; omega }
    rw [Copies.copySlices]
    cases skipped : src.isAt (a.getOffsetPtr xoff yoff z 0 0) with
    | true => exact ⟨a, rfl, kept⟩
    | false =>
      rw [if_neg Bool.false_ne_true, kept.of.getOffsetPtr, kept.of.table, lineCount_eq isIn]
      obtain ⟨mid, copied, keptMiddle⟩ := @Kept.copyLines t a plain fits inside kept
        ⟨xoff.toNat, yoff.toNat, z.toNat, 0, 0⟩ w.toNat h.toNat stride plane src
      obtain ⟨a', rest, kept'⟩ := ih keptMiddle later (src.advance (h.toNat * stride))
      exact ⟨a', bind_eq_some_iff.mpr ⟨mid, copied, rest⟩, kept'⟩

theorem Kept.data3D {xoff yoff zoff w h d : UInt32} (isIn : (requestBox xoff yoff zoff w h d.toNat 0 0).In t) (data : Source)
    (stride : Nat) :
    ∃ a', a.rsdAllocationData3D xoff yoff zoff 0 w h d data stride = some a' ∧ Kept t a' := by
  unfold Alloc.rsdAllocationData3D
  rw [kept.of.lineSize3D, lineSize3D_eq plain fits isIn]
  exact kept.copySlices plain fits inside (sliceBox_in isIn) data

end

/-!
## Resizing
-/

section

variable {t : RsType} {a a' : Alloc} {call : Copies.Call} (line : SingleRow t)

include line

theorem Kept.released_refs (fits : RowsFit t) (kept : Kept t a) (some : ob ≠ 0) : (call.released a).refs ob =
      tally a.block (cellRefs t.mElement 0 (min t.dimX.toNat call.dimX.toNat)) ob := by
  have counted := kept.refs some
  rw [line.handleCount_eq fits] at counted
  unfold Call.released
  rw [Alloc.old_dimX kept.of.laid]
  split
  · next shrinks =>
      have fewer := UInt32.lt_iff_toNat_lt.mp shrinks
      have difference := UInt32.toNat_sub_of_le _ _ (UInt32.le_of_lt shrinks)
      have small : (t.dimX - call.dimX).toNat ≠ 0 → a.type.mElement.getSizeBytes < 2 ^ 32 := by
        intro _
        rw [kept.of.type]
        exact fits.small line.plain (first_row_in line.plain) (by omega)
      obtain ⟨refs, released, counts⟩ := decRefs_refs kept.script small 0 call.dimX.toNat
      obtain ⟨more, width⟩ := Nat.exists_eq_add_of_le fewer.le
      rw [width, cellRefs_add, tally_append, zero_add] at counted
      rw [released, min_eq_right fewer.le]
      dsimp only
      rw [counts ob some, counted, kept.of.type, difference, width, Nat.add_sub_cancel_left, zero_add, mul_comm]
      omega
  · next grows =>
      have more := UInt32.le_iff_toNat_le.mp (UInt32.not_lt.mp grows)
      rw [min_eq_left more]
      exact counted

theorem Kept.resize1D (fits : RowsFit t) (inside : RefsInside t.mElement)
    (small : t.mElement.getSizeBytes < 2 ^ 32) (kept : Kept t a) {refused : Bool}
    (done : a.resize1D false call.address call.dimX call.fresh = some (a', refused)) :
    ∃ t', Kept t' a' ∧ SingleRow t' ∧ RowsFit t' ∧ t'.mElement = t.mElement := by
  have short := line.short_of_resize kept.of fits small done
  by_cases eq : call.dimX = t.dimX
  · rw [Alloc.resize_same (eq.trans (Alloc.old_dimX kept.of.laid).symm)] at done
    cases done
    exact ⟨t, kept, line, fits, rfl⟩
  · have cloned : SingleRow (call.newType t) := line.clone call.address call.dimX
    have fitsNew := cloned.rowsFit short
    rw [line.resize_eq kept.of eq short] at done
    cases done
    refine ⟨call.newType t, ⟨⟨rfl, rfl⟩, kept.script, fun ob some => ?_⟩, cloned, fitsNew, rfl⟩
    rw [Kept.released_refs line fits kept some, cloned.handleCount_eq fitsNew]
    exact congrArg Nat.cast (line.tally_newBlock fits inside short some).symm

end

/-!
## Whole runs
-/

/-- What every call keeps: the element, and the single row where there are resizes. -/
structure Tracked (e : Element) (resizes : Bool) (t : RsType) (a : Alloc) : Prop where
  kept : Kept t a
  plain : Plain t
  fits : RowsFit t
  element : t.mElement = e
  row : resizes = true → SingleRow t

def Act.isUpload : Act → Bool
  | .resize1D _ => false
  | _ => true

section

variable {e : Element} {shared resizes : Bool} {t : RsType} {s : Alloc × Bool} {act : Act}
  (inside : RefsInside e) (tracked : Tracked e resizes t s.1) (meets : Requested resizes s act)

include inside tracked meets

theorem Tracked.upload (upload : act.isUpload = true) : ∃ next, step shared s act = some next ∧ Tracked e resizes t next.1 := by
  obtain ⟨kept, plain, fits, rfl, row⟩ := tracked
  cases act with
  | data1D xoff count data sizeBytes =>
    have isIn : (requestBox xoff 0 0 count 1 1 0 0).In s.1.laid := meets
    rw [kept.of.laid] at isIn
    rw [step, Alloc.data1D]
    split
    · exact ⟨_, rfl, kept, plain, fits, rfl, row⟩
    · obtain ⟨a', done, kept'⟩ := kept.data1D plain fits inside isIn data
      exact ⟨(a', false), map_eq_some_iff.mpr ⟨a', done, rfl⟩, kept', plain, fits, rfl, row⟩
  | data2D xoff yoff face w h data stride =>
    have isIn : (requestBox xoff yoff 0 w h 1 0 face).In s.1.laid := meets
    rw [kept.of.laid] at isIn
    obtain ⟨a', done, kept'⟩ := kept.data2D plain fits inside isIn data stride
    exact ⟨(a', false), map_eq_some_iff.mpr ⟨a', done, rfl⟩, kept', plain, fits, rfl, row⟩
  | data3D xoff yoff zoff w h d data stride =>
    have isIn : (requestBox xoff yoff zoff w h d.toNat 0 0).In s.1.laid := meets
    rw [kept.of.laid] at isIn
    obtain ⟨a', done, kept'⟩ := kept.data3D plain fits inside isIn data stride
    exact ⟨(a', false), map_eq_some_iff.mpr ⟨a', done, rfl⟩, kept', plain, fits, rfl, row⟩
  | resize1D call => cases upload

theorem Tracked.step (small : e.getSizeBytes < 2 ^ 32) (unshared : resizes = true → shared = false)
    {next : Alloc × Bool} (happens : step shared s act = some next) :
    ∃ t', Tracked e resizes t' next.1 := by
  cases kind : act.isUpload with
  | true =>
    obtain ⟨after, done, trackedAfter⟩ := tracked.upload inside meets kind
    cases happens.symm.trans done
    exact ⟨t, trackedAfter⟩
  | false =>
    cases act with
    | resize1D call =>
      obtain ⟨kept, plain, fits, rfl, row⟩ := tracked
      have resized : resizes = true := meets
      rw [unshared resized] at happens
      obtain ⟨t', kept', line', fits', element'⟩ := kept.resize1D (row resized) fits inside small happens
      exact ⟨t', kept', line'.plain, fits', element', fun _ => line'⟩
    | data1D => cases kind
    | data2D => cases kind
    | data3D => cases kind

end

def start (t : RsType) : Alloc × Bool := (⟨t, t, true, fun _ => 0, fun _ => 0⟩, false)

theorem init_start {t : RsType} (levels : t.mLodCount.toNat ≤ MAX_LOD) :
    rsdAllocationInit t true (fun _ => 0) = some (start t).1 := if_pos levels

theorem tracked_of_run {t : RsType} {shared resizes : Bool} (plain : Plain t) (fits : RowsFit t)
    (small : t.mElement.getSizeBytes < 2 ^ 32) (inside : RefsInside t.mElement)
    (single : resizes = true → SingleRow t ∧ shared = false) {acts : List Act} {s : Alloc × Bool}
    (run : Run (step shared) (Requested resizes) (start t) acts s) :
    ∃ t', Tracked t.mElement resizes t' s.1 := by
  refine run.invariant (fun _ s => ∃ t', Tracked t.mElement resizes t' s.1) ?_ ?_
  · exact ⟨t, .start t, plain, fits, rfl, fun resized => (single resized).1⟩
  · rintro _ _ _ _ ⟨now, tracked⟩ meets happens
    exact tracked.step inside meets small (fun resized => (single resized).2) happens

/-!
## What goes wrong otherwise
-/

/-- A buffer with the handle `2 ^ 24` at `r`. -/
def handleBuffer (r : Nat) : Memory := fun i => if i = r + 3 then 1 else 0

theorem handleAt_handleBuffer (r : Nat) : handleAt (handleBuffer r) r = 2 ^ 24 := by
  simp [handleAt, ByteMemory.read, handleBuffer, AlignedBytes.decode, range_succ]

theorem one_le_handleBuffer {e : Element} {r : Nat} (mem : r ∈ e.references) :
    1 ≤ tally (handleBuffer r) (cellRefs e 0 1) (2 ^ 24) :=
  one_le_tally (mem_cellRefs.mpr ⟨0, zero_lt_one, r, mem, by simp⟩) (handleAt_handleBuffer r)

section

variable {t : RsType} (plain : Plain t) (fits : RowsFit t) (wide : 0 < t.dimX.toNat) {shared resizes : Bool}

include plain wide

theorem first_cell_in : ((rowCell 0).line 1).In t :=
  { first_row_in plain with
    x := by
      rw [Cell.line, rowCell, plain.mLodDim]
      exact wide }

include fits

theorem upload_first (src : Memory) : ∃ refs, Requested resizes (start t) (.data1D 0 1 (.buffer src) t.mElement.getSizeBytes) ∧
      step shared (start t) (.data1D 0 1 (.buffer src) t.mElement.getSizeBytes) =
        some (⟨t, t, true, write (fun _ => 0) ⟨0, 1 * t.mElement.getSizeBytes⟩ src, refs⟩, false) ∧
      ∀ ob, ob ≠ 0 → refs ob = tally src (cellRefs t.mElement 0 1) ob := by
  have isIn := first_cell_in plain wide
  have place : (rowCell 0).offset t = 0 := by
    simp [plain.offset_rowCell]
  have room := line_inside plain fits isIn
  rw [place] at room
  obtain ⟨refs, copied, counts⟩ := @copyCells_refs (start t).1 rfl 0 1 (fits.small plain isIn) _ _ room
  refine ⟨refs, isIn, ?_, fun ob some => ?_⟩
  · have size : (1 : UInt32).toNat * (start t).1.type.mElement.getSizeBytes = t.mElement.getSizeBytes := one_mul _
    rw [step, Alloc.data1D, if_neg (not_not.mpr size)]
    refine map_eq_some_iff.mpr ⟨_, ?_, rfl⟩
    have ptr : (start t).1.getOffsetPtr 0 0 0 0 0 = 0 := place
    rw [Alloc.rsdAllocationData1D, ptr]
    exact copied
  · have null : tally (fun _ => 0) (cellRefs t.mElement 0 1) ob = 0 := tally_of_null some fun p _ => handleAt_zero p
    refine (counts ob some).trans ?_
    change 0 + _ - ((tally (fun _ => 0) (cellRefs t.mElement 0 1) ob : Nat) : Int) = _
    rw [null, zero_add]
    exact sub_zero _

theorem not_counted_of_outside {r : Nat} (mem : r ∈ t.mElement.references) (out : ¬ r + 4 ≤ t.mElement.getSizeBytes) :
    ∃ acts s, Run (step shared) (Requested resizes) (start t) acts s ∧ s.2 = false ∧ ¬ Counted s.1 := by
  obtain ⟨refs, meets, happens, counts⟩ := upload_first plain fits wide (handleBuffer r)
  refine ⟨_, _, .snoc .nil meets happens, rfl, fun counted => ?_⟩
  have zero : write (fun _ => 0) ⟨0, 1 * t.mElement.getSizeBytes⟩ (handleBuffer r) = fun _ => 0 := by
    funext i
    rw [write]
    split
    · next held =>
        have lt : i < 0 + 1 * t.mElement.getSizeBytes := held.2
        exact if_neg (by omega)
    · rfl
  have none : refs (2 ^ 24) = 0 := by
    refine (counted (2 ^ 24) (by decide)).trans ?_
    rw [zero, handleCount_zero (by decide)]
    rfl
  have some := one_le_handleBuffer mem
  rw [counts (2 ^ 24) (by decide)] at none
  omega

end

section

variable {t : RsType} (plain : Plain t) (fits : RowsFit t) (wide : 0 < t.dimX.toNat) {a : Alloc}
  (laid : a.laid = t) (element : a.type.mElement = t.mElement) (script : a.script = true)

def emptyCall : Copies.Call := ⟨0, 0, fun _ => 0⟩

include wide laid

theorem emptyCall_different : emptyCall.dimX ≠ (a.table.lod 0).dimX := by
  rw [Alloc.old_dimX laid]
  intro none
  rw [← none] at wide
  exact absurd wide (by decide)

include plain fits element script

theorem released_row : ∃ refs, emptyCall.released a = { a with refs := refs } ∧ ∀ ob, ob ≠ 0 →
      refs ob = a.refs ob - tally a.block (cellRefs t.mElement 0 t.dimX.toNat) ob := by
  have smaller : emptyCall.dimX < (a.table.lod 0).dimX := UInt32.pos_iff_ne_zero.mpr (Ne.symm (emptyCall_different wide laid))
  have count : ((a.table.lod 0).dimX - emptyCall.dimX).toNat = t.dimX.toNat := by
    rw [Alloc.old_dimX laid, emptyCall, sub_zero]
  have small : t.dimX.toNat ≠ 0 → a.type.mElement.getSizeBytes < 2 ^ 32 := by
    rw [element]
    exact fits.small plain (first_row_in plain)
  obtain ⟨refs, released, counts⟩ := decRefs_refs script small 0 emptyCall.dimX.toNat
  refine ⟨refs, ?_, fun ob some => ?_⟩
  · unfold Call.released
    rw [if_pos smaller, count]
    exact released
  · rw [counts ob some, element]
    rfl

theorem resize_shared : ∃ type refs, a.resize1D true emptyCall.address emptyCall.dimX emptyCall.fresh =
        some (⟨type, t, a.script, a.block, refs⟩, true) ∧ type.mElement = t.mElement ∧
      ∀ ob, ob ≠ 0 → refs ob = a.refs ob - tally a.block (cellRefs t.mElement 0 t.dimX.toNat) ob := by
  obtain ⟨refs, released, counts⟩ := released_row plain fits wide laid element script
  refine ⟨emptyCall.newType a.type, refs, ?_, element, counts⟩
  rw [Alloc.resize_inv (emptyCall_different wide laid), released, ← laid]
  rfl

theorem resize_unshared (single : a.type.mDimLOD = false) (notYuv : a.type.dimYuv = 0) :
    ∃ block refs, a.resize1D false emptyCall.address emptyCall.dimX emptyCall.fresh =
        some (⟨emptyCall.newType a.type, emptyCall.newType a.type, a.script, block, refs⟩, false) ∧
      ∀ ob, ob ≠ 0 → refs ob = a.refs ob - tally a.block (cellRefs t.mElement 0 t.dimX.toNat) ob := by
  obtain ⟨refs, released, counts⟩ := released_row plain fits wide laid element script
  have cloned : Plain (emptyCall.newType a.type) := ⟨rfl, notYuv⟩
  have levels : ¬ MAX_LOD < (emptyCall.newType a.type).mLodCount.toNat := by
    rw [cloned.mLodCount_eq_one_iff.mpr (.inl single)]
    decide
  have shrinks : ¬ (emptyCall.newType a.type).dimX > (a.table.lod 0).dimX := UInt32.not_lt.mpr UInt32.zero_le
  refine ⟨realloc a.block a.table.allocSize (allocationBuildPointerTable (emptyCall.newType a.type)).allocSize
    emptyCall.fresh, refs, ?_, counts⟩
  rw [Alloc.resize_inv (emptyCall_different wide laid), released]
  unfold Alloc.rsdAllocationResize
  rw [if_neg Bool.false_ne_true, if_neg levels]
  exact congrArg (Option.map _) (if_neg shrinks)

end

section

variable {t : RsType} (plain : Plain t) (fits : RowsFit t) (wide : 0 < t.dimX.toNat)
  (inside : RefsInside t.mElement) {shared resizes : Bool}

include plain fits inside

theorem reach_line {yoff : UInt32} {face : Nat} (isIn : (requestBox 0 yoff 0 1 1 1 0 face).In t) (src : Memory) :
    ∃ acts s, Run (step shared) (Requested resizes) (start t) acts s ∧ Kept t s.1 ∧
      ∀ j < t.mElement.getSizeBytes, s.1.block (Cell.offset t ⟨0, yoff.toNat, 0, 0, face⟩ + j) = src j := by
  obtain ⟨a', done, kept⟩ := (Kept.start t).data2D plain fits inside isIn (.buffer src) 0
  obtain ⟨refs, copied⟩ := @Alloc.Of.data2D t (start t).1 0 _ 1 1 0 face src 0 plain fits isIn ⟨rfl, rfl⟩
  cases (Option.some.inj (done.symm.trans copied))
  refine ⟨_, _, .snoc .nil (show Requested resizes _ (.data2D 0 yoff face 1 1 (.buffer src) 0) from isIn)
    (map_eq_some_iff.mpr ⟨_, done, rfl⟩), kept, fun j inCell => ?_⟩
  have has : (requestBox 0 yoff 0 1 1 1 0 face).Has ⟨0, yoff.toNat, 0, 0, face⟩ :=
    ⟨rfl, rfl, ⟨le_rfl, zero_lt_one⟩, ⟨le_rfl, Nat.lt_succ_self _⟩, ⟨le_rfl, zero_lt_one⟩⟩
  refine (isIn.written plain fits src (fun _ => 0) _ _ has j inCell).trans (congrArg src ?_)
  simp [Box.lineOf, requestBox]

theorem reach_plane (isIn : (requestBox 0 0 0 1 1 2 0 0).In t) (src : Memory) :
    ∃ acts s, Run (step shared) (Requested resizes) (start t) acts s ∧ Kept t s.1 ∧
      ∀ j < t.mElement.getSizeBytes, s.1.block (Cell.offset t ⟨0, 0, 1, 0, 0⟩ + j) = src j := by
  let bytes : Memory := fun i => src (i - t.mElement.getSizeBytes)
  obtain ⟨a', done, kept⟩ := @Kept.data3D t _ plain fits inside (Kept.start t) 0 0 0 1 1 2 isIn _ 0
  obtain ⟨refs, copied⟩ := @Alloc.Of.data3D t (start t).1 0 0 0 1 1 2 0 0 _ plain fits isIn ⟨rfl, rfl⟩
  cases (Option.some.inj (done.symm.trans copied))
  refine ⟨_, _, .snoc .nil (show Requested resizes _ (.data3D 0 0 0 1 1 2 (.buffer bytes) 0) from isIn)
    (map_eq_some_iff.mpr ⟨_, done, rfl⟩), kept, fun j inCell => ?_⟩
  have has : (sliceBox 0 0 0 1 1 2 0).Has ⟨0, 0, 1, 0, 0⟩ :=
    ⟨rfl, rfl, ⟨le_rfl, zero_lt_one⟩, ⟨le_rfl, zero_lt_one⟩, ⟨Nat.zero_le _, one_lt_two⟩⟩
  refine ((sliceBox_in isIn).written plain fits bytes (fun _ => 0) _ _ has j inCell).trans (congrArg src ?_)
  simp [Box.lineOf, sliceBox, requestBox, lineStride]

include wide

theorem reach_row (single : t.mDimLOD = false) (several : ¬ SingleRow t) (src : Memory) :
    ∃ acts s c, Run (step shared) (Requested resizes) (start t) acts s ∧ Kept t s.1 ∧
      c ∈ cells t \ lineCells (rowCell 0) t.dimX.toNat ∧
      ∀ j < t.mElement.getSizeBytes, s.1.block (c.offset t + j) = src j := by
  have level := plain.mLodDim 0
  have first := first_cell_in plain wide
  by_cases lines : t.dimY.toNat ≤ 1
  · by_cases planes : t.dimZ.toNat ≤ 1
    · have faces : t.faces = true := by
        by_contra none
        exact several ⟨plain, lines, planes, single, Bool.not_eq_true _ ▸ none⟩
      have inFace : 1 < faceTotal t := by
        rw [faceTotal, faces]
        decide
      obtain ⟨acts, s, run, kept, found⟩ := @reach_line t plain fits inside shared _ 0 1
        { first with face := inFace } src
      refine ⟨acts, s, ⟨0, 0, 0, 0, 1⟩, run, kept, Finset.mem_sdiff.mpr ⟨?_, ?_⟩, found⟩
      · exact mem_cells.mpr ⟨first.lod, inFace, first.x, first.y, first.z⟩
      · intro inRow
        exact one_ne_zero (mem_lineCells.mp inRow).face
    · have inZ : 2 ≤ max (t.mLodDim 0).z.toNat 1 := by
        rw [level]
        exact le_max_of_le_left (not_le.mp planes)
      obtain ⟨acts, s, run, kept, found⟩ := reach_plane plain fits inside
        { first with z := inZ } src
      refine ⟨acts, s, ⟨0, 0, 1, 0, 0⟩, run, kept, Finset.mem_sdiff.mpr ⟨?_, ?_⟩, found⟩
      · exact mem_cells.mpr ⟨first.lod, first.face, first.x, first.y, inZ⟩
      · intro inRow
        exact lt_irrefl 1 (mem_lineCells.mp inRow).z.2
  · have inY : 2 ≤ max (t.mLodDim 0).y.toNat 1 := by
      rw [level]
      exact le_max_of_le_left (not_le.mp lines)
    obtain ⟨acts, s, run, kept, found⟩ := @reach_line t plain fits inside shared _ 1 0
      { first with y := inY } src
    refine ⟨acts, s, ⟨0, 1, 0, 0, 0⟩, run, kept, Finset.mem_sdiff.mpr ⟨?_, ?_⟩, found⟩
    · exact mem_cells.mpr ⟨first.lod, first.face, first.x, inY, first.z⟩
    · intro inRow
      exact lt_irrefl 1 (mem_lineCells.mp inRow).y.2

theorem not_counted_of_rows (single : t.mDimLOD = false) (several : ¬ SingleRow t) (handles : t.mElement.references ≠ []) :
    ∃ acts s, Run (step false) (Requested true) (start t) acts s ∧ s.2 = false ∧ ¬ Counted s.1 := by
  obtain ⟨r, mem⟩ := exists_mem_of_ne_nil _ handles
  obtain ⟨acts, s, c, run, kept, other, found⟩ := @reach_row t plain fits wide inside false true single several _
  have fits4 := inside r mem
  obtain ⟨block, refs, done, counts⟩ := resize_unshared plain fits wide kept.of.laid
    (congrArg RsType.mElement kept.of.type) kept.script (kept.of.type ▸ single) (kept.of.type ▸ plain.notYuv)
  refine ⟨_, _, .snoc run (show Requested true s (.resize1D emptyCall) from rfl) done, rfl, fun counted => ?_⟩
  have empty : cells (emptyCall.newType s.1.type) = ∅ := by
    apply Finset.eq_empty_of_forall_notMem
    intro cell cellIn
    have cloned : Plain (emptyCall.newType s.1.type) := ⟨rfl, kept.of.type ▸ plain.notYuv⟩
    have inX := (mem_cells.mp cellIn).x
    have level : cell.lod < 1 := by
      have inLod := (mem_cells.mp cellIn).lod
      rwa [cloned.mLodCount_eq_one_iff.mpr (.inl (kept.of.type ▸ single))] at inLod
    rw [Nat.lt_one_iff.mp level, cloned.mLodDim] at inX
    exact absurd inX (Nat.not_lt_zero _)
  have none : refs (2 ^ 24) = 0 := by
    refine (counted (2 ^ 24) (by decide)).trans ?_
    rw [handleCount, empty]
    rfl
  have handle : handleAt s.1.block (c.offset t + r) = 2 ^ 24 := by
    refine Eq.trans ?_ (handleAt_handleBuffer r)
    apply congrArg AlignedBytes.decode
    apply map_congr_left
    intro i lt
    have inHandle : i < 4 := mem_range.mp lt
    rw [add_assoc]
    exact found (r + i) (by omega)
  have one : 1 ≤ ∑ other ∈ cells t \ lineCells (rowCell 0) t.dimX.toNat, tally s.1.block (other.handles t) (2 ^ 24) := by
    have here := one_le_tally (List.mem_map.mpr ⟨r, mem, rfl⟩) handle
    exact here.trans (Finset.single_le_sum
      (f := fun other : Cell => tally s.1.block (other.handles t) (2 ^ 24)) (fun _ _ => Nat.zero_le _) other)
  have all := kept.refs (by decide : 2 ^ 24 ≠ 0)
  have split := handleCount_first plain fits s.1.block (2 ^ 24)
  rw [counts (2 ^ 24) (by decide), all] at none
  omega

theorem not_counted_of_shared (handles : t.mElement.references ≠ []) :
    ∃ acts s, Run (step true) (Requested true) (start t) acts s ∧ s.2 = false ∧ ¬ Counted s.1 := by
  obtain ⟨r, mem⟩ := exists_mem_of_ne_nil _ handles
  obtain ⟨refs, meets, happens, counts⟩ := @upload_first t plain fits wide true true _
  obtain ⟨type, refsOnce, once, elem, countsOnce⟩ := @resize_shared t plain fits wide
    ⟨t, t, true, write (fun _ => 0) ⟨0, 1 * t.mElement.getSizeBytes⟩ (handleBuffer r), refs⟩ rfl rfl rfl
  obtain ⟨type', refsTwice, twice, -, countsTwice⟩ := @resize_shared t plain fits wide
    ⟨type, t, true, write (fun _ => 0) ⟨0, 1 * t.mElement.getSizeBytes⟩ (handleBuffer r), refsOnce⟩ rfl elem rfl
  -- an accepted call, which changes nothing
  have eq := @Alloc.resize_same
    ⟨type', t, true, write (fun _ => 0) ⟨0, 1 * t.mElement.getSizeBytes⟩ (handleBuffer r), refsTwice⟩
    ⟨0, t.dimX, fun _ => 0⟩ true (table_width t).symm
  have run : Run (step true) (Requested true) (start t) _ _ := .snoc (.snoc (.snoc (.snoc .nil meets happens)
      (show Requested true _ (.resize1D emptyCall) from rfl) once)
      (show Requested true _ (.resize1D emptyCall) from rfl) twice)
      (show Requested true _ (.resize1D ⟨0, t.dimX, fun _ => 0⟩) from rfl) eq
  refine ⟨_, _, run, rfl, fun counted => ?_⟩
  have object : 2 ^ 24 ≠ 0 := by decide
  have notNegative : 0 ≤ refsTwice (2 ^ 24) := by
    have exact := counted (2 ^ 24) object
    dsimp only at exact
    rw [exact]
    exact Int.natCast_nonneg _
  have uploaded := tally_write_cells inside (fun _ => 0) (handleBuffer r) 0 1 (2 ^ 24)
  have some := one_le_handleBuffer mem
  obtain ⟨more, dims⟩ := Nat.exists_eq_add_of_lt wide
  rw [zero_add, add_comm] at dims
  have first := countsOnce (2 ^ 24) object
  have second := countsTwice (2 ^ 24) object
  dsimp only at first second
  rw [counts _ object, dims, cellRefs_add, tally_append, uploaded] at first
  rw [dims, cellRefs_add, tally_append, uploaded] at second
  omega

end

/-- For allocations with handles, the counts are right after every call of every run exactly if the
handles of a cell are inside its bytes and only allocations with one row that are not shared are
resized. -/
theorem handles_counted_iff {t : RsType} (shared resizes : Bool) (plain : Plain t) (fits : RowsFit t)
    (levels : t.mLodCount.toNat ≤ MAX_LOD) (resizable : resizes = true → t.mDimLOD = false)
    (wide : 0 < t.dimX.toNat) (handles : t.mElement.references ≠ []) :
    (∃ a, rsdAllocationInit t true (fun _ => 0) = some a ∧
      ∀ acts s, Run (step shared) (Requested resizes) (a, false) acts s → (s.2 = false → Counted s.1) ∧
        ∀ act, Requested resizes s act → act.isUpload = true → (step shared s act).isSome) ↔
      RefsInside t.mElement ∧ (resizes = true → SingleRow t ∧ shared = false) := by
  constructor
  · rintro ⟨a, made, always⟩
    cases (made.symm.trans (init_start levels))
    have right {acts : List Act} {s : Alloc × Bool}
        (run : Run (step shared) (Requested resizes) (start t) acts s) (accepted : s.2 = false) :
        Counted s.1 := (always acts s run).1 accepted
    have inside : RefsInside t.mElement := by
      intro r mem
      by_contra outside
      obtain ⟨acts, s, run, accepted, wrong⟩ := not_counted_of_outside plain fits wide mem outside
      exact wrong (right run accepted)
    refine ⟨inside, ?_⟩
    rintro rfl
    cases shared with
    | true =>
      obtain ⟨acts, s, run, accepted, wrong⟩ := not_counted_of_shared plain fits wide inside handles
      exact absurd (right run accepted) wrong
    | false =>
      refine ⟨?_, rfl⟩
      by_contra several
      obtain ⟨acts, s, run, accepted, wrong⟩ := not_counted_of_rows plain fits wide inside (resizable rfl) several handles
      exact wrong (right run accepted)
  · rintro ⟨inside, single⟩
    have small := fits.small plain (first_cell_in plain wide) one_ne_zero
    refine ⟨(start t).1, init_start levels, fun acts s run => ?_⟩
    obtain ⟨t', tracked⟩ := tracked_of_run plain fits small inside single run
    refine ⟨fun _ => tracked.kept.counted, fun act meets upload => ?_⟩
    obtain ⟨next, done, -⟩ := Tracked.upload inside tracked meets upload
    rw [done]
    rfl

private def handle : Element := .mk 0 (.set .allocation .user false 1) []

private def nested : Element :=
  .mk 0 .initial [(⟨.ofBuffer [], 1⟩, .mk 1 .initial [(⟨.ofBuffer [], 1⟩, handle)])]

private def holders (e : Element) (dimX dimY : UInt32) : RsType :=
  .create 0 e { dimX := dimX, dimY := dimY, dimZ := 0, mDimLOD := false, faces := false, dimYuv := 0 }

private theorem holders_plain (e : Element) (dimX dimY : UInt32) : Plain (holders e dimX dimY) := ⟨rfl, rfl⟩

theorem handles_counted_iff_row : ∃ a, rsdAllocationInit (holders handle 5 0) true (fun _ => 0) = some a ∧
      ∀ acts s, Run (step false) (Requested true) (a, false) acts s → (s.2 = false → Counted s.1) ∧
        ∀ act, Requested true s act → act.isUpload = true → (step false s act).isSome :=
  (handles_counted_iff false true (holders_plain handle 5 0) (.inr ⟨by decide, by decide, by decide⟩) (by decide)
    (fun _ => rfl) (by decide) (by decide)).mpr
    ⟨by decide, fun _ => ⟨⟨holders_plain handle 5 0, by decide, by decide, rfl, rfl⟩, rfl⟩⟩

/-- The size of a structure does not include structures in it, only the first row is released when two rows are
resized to nothing, and a shared allocation that is not resized releases its handles anyway. -/
theorem handles_not_counted :
    (∃ acts s, Run (step false) (Requested false) (start (holders nested 1 0)) acts s ∧ s.2 = false ∧ ¬ Counted s.1) ∧
    (∃ acts s, Run (step false) (Requested true) (start (holders handle 1 2)) acts s ∧ s.2 = false ∧ ¬ Counted s.1) ∧
    ∃ acts s, Run (step true) (Requested true) (start (holders handle 1 0)) acts s ∧ s.2 = false ∧ ¬ Counted s.1 := by
  refine ⟨?_, ?_, ?_⟩
  · exact @not_counted_of_outside _ (holders_plain nested 1 0) (.inl (by decide)) (by decide) _ _ 0 (by decide) (by decide)
  · exact not_counted_of_rows (holders_plain handle 1 2) (.inr ⟨by decide, by decide, by decide⟩) (by decide)
      (by decide) rfl (fun row => absurd row.dimY (by decide)) (by decide)
  · exact not_counted_of_shared (holders_plain handle 1 0) (.inr ⟨by decide, by decide, by decide⟩) (by decide)
      (by decide) (by decide)

end RenderScript.Uploads
