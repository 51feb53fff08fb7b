import RenderScript.Allocation.ObjectCells
import RenderScript.Allocation.CellLayout

/-!
# Copies between clients and allocations

`rsdAllocationData1D`, `rsdAllocationRead1D` and those for two and three dimensions of
driver/rsdAllocation.cpp, with `data` and `read` of rsAllocation.cpp. An access outside the block
has no value. What is read goes to memory of the client; what is written may also come from the
block itself.
-/

namespace RenderScript.Copies
open ByteMemory Elements RenderScript.Types Allocations Option

/-- An allocation with its block. `laid` is the type that the pointer table was built for, and
`refs` has the system references that objects got from its cells. -/
structure Alloc where
  type : RsType
  laid : RsType
  script : Bool
  block : Memory
  refs : Nat → Int := fun _ => 0

/-- The table has no room for more than `MAX_LOD` levels. -/
def rsdAllocationInit (t : RsType) (script : Bool) (block : Memory) : Option Alloc :=
  if t.mLodCount.toNat ≤ MAX_LOD then some { type := t, laid := t, script := script, block := block }
  else none

/-- `incSysRef` or `decSysRef` of the object at a place, unless it is `NULL`. -/
def adjustRef (memory : Memory) (n : Int) (refs : Nat → Int) (ptr : Nat) : Nat → Int :=
  let ob := handleAt memory ptr
  if ob = 0 then refs else Function.update refs ob (refs ob + n)

namespace Alloc

variable (a : Alloc)

def table : DrvState := allocationBuildPointerTable a.laid

def elementSizeBytes : UInt32 := .ofNat a.type.mElement.getSizeBytes

def hasReferences : Bool := a.type.mElement.mHasReference

def getOffsetPtr (xoff yoff zoff : UInt32) (lod face : Nat) : Nat :=
  Allocations.getOffsetPtr a.table a.elementSizeBytes xoff yoff zoff lod face

def incRefs (data : Memory) (ct : Nat) : Alloc :=
  { a with refs := visitCells (adjustRef data 1) a.type.mElement 0 ct 0 a.refs }

def decRefs (ptr ct startOff : Nat) : Alloc :=
  if a.hasReferences = true ∧ a.script = true then
    { a with refs := visitCells (adjustRef a.block (-1)) a.type.mElement ptr ct startOff a.refs }
  else a

/-- `memcpy` into the block. -/
def store (dst size : Nat) (src : Memory) : Option Alloc :=
  if dst + size ≤ a.table.allocSize then some { a with block := write a.block ⟨dst, size⟩ src } else none

/-- `memcpy` of `ct` cells with the references in them. -/
def copyCells (dst : Nat) (src : Memory) (ct size : Nat) : Option Alloc :=
  (if a.hasReferences then (a.incRefs src ct).decRefs dst ct 0 else a).store dst size src

end Alloc

/-- Where the data of an upload is: in a buffer of the client, or in the block itself. -/
inductive Source where
  | buffer (bytes : Memory)
  | storage (offset : Nat)

namespace Source

def bytes (block : Memory) : Source → Memory
  | .buffer bytes => bytes
  | .storage offset => fun i => block (offset + i)

def advance (n : Nat) : Source → Source
  | .buffer bytes => .buffer fun i => bytes (n + i)
  | .storage offset => .storage (offset + n)

/-- `dst == src` -/
def isAt (dst : Nat) : Source → Bool
  | .buffer _ => false
  | .storage offset => offset == dst

end Source

def lineStride (lineSize stride : Nat) : Nat := if stride = 0 then lineSize else stride

/-- `line` runs from `yoff` to `yoff + h`, in 32 bits. -/
def lineCount (yoff h : UInt32) : Nat := (yoff + h).toNat - yoff.toNat

def chromaLineCount (yoff h : UInt32) : Nat := ((yoff + h) >>> 1).toNat - (yoff >>> 1).toNat

def copyLines (w lineSize stride lodStride : Nat) : Nat → Nat → Source → Alloc → Option Alloc
  | 0, _, _, a => some a
  | lines + 1, dst, src, a => do
      let a ← a.copyCells dst (src.bytes a.block) w lineSize
      copyLines w lineSize stride lodStride lines (dst + lodStride) (src.advance stride) a

/-- The loop over the lines of a chroma plane, in which both pointers move by the same stride. -/
def copyChromaLines (clineSize lodStride : Nat) : Nat → Nat → Source → Alloc → Option Alloc
  | 0, _, _, a => some a
  | lines + 1, dst, src, a => do
      let a ← a.store dst clineSize (src.bytes a.block)
      copyChromaLines clineSize lodStride lines (dst + lodStride) (src.advance lodStride) a

def copyChroma (xoff yoff h : UInt32) (face clineSize : Nat) : List Nat → Source → Alloc → Option Alloc
  | [], _, a => some a
  | lod :: rest, src, a => do
      let lodStride := (a.table.lod lod).stride
      let lines := chromaLineCount yoff h
      let a ← copyChromaLines clineSize lodStride lines (a.getOffsetPtr xoff yoff 0 lod face) src a
      copyChroma xoff yoff h face clineSize rest (src.advance (lines * lodStride)) a

namespace Alloc

variable (a : Alloc)

/-- `lod` is not used. -/
def rsdAllocationData1D (xoff : UInt32) (_lod : Nat) (count : UInt32) (data : Source) : Option Alloc :=
  let ptr := a.getOffsetPtr xoff 0 0 0 0
  if data.isAt ptr then some a
  else a.copyCells ptr (data.bytes a.block) count.toNat (count.toNat * a.type.mElement.getSizeBytes)

def copyYuv (xoff yoff : UInt32) (face : Nat) (h : UInt32) (lineSize : Nat) (src : Source) : Option Alloc :=
  if a.type.dimYuv = 0 then some a
  else if a.type.dimYuv = HAL_PIXEL_FORMAT_YV12 then copyChroma xoff yoff h face (lineSize >>> 1) [1, 2] src a
  else if a.type.dimYuv = HAL_PIXEL_FORMAT_YCrCb_420_SP then copyChroma xoff yoff h face lineSize [2] src a
  else copyChroma xoff yoff h face lineSize [1] src a

def rsdAllocationData2D (xoff yoff : UInt32) (lod face : Nat) (w h : UInt32) (data : Source)
    (stride : Nat) : Option Alloc :=
  let lineSize := a.elementSizeBytes.toNat * w.toNat
  let stride := lineStride lineSize stride
  let dst := a.getOffsetPtr xoff yoff 0 lod face
  let lines := lineCount yoff h
  if data.isAt dst then some a
  else do
    let a ← copyLines w.toNat lineSize stride (a.table.lod lod).stride lines dst data a
    a.copyYuv xoff yoff face h lineSize (data.advance (lines * stride))

end Alloc

/-- The loop over the planes from `z` on. -/
def copySlices (xoff yoff h : UInt32) (lod w lineSize stride : Nat) :
    Nat → UInt32 → Source → Alloc → Option Alloc
  | 0, _, _, a => some a
  | slices + 1, z, src, a => do
      let dst := a.getOffsetPtr xoff yoff z lod 0
      if src.isAt dst then some a
      else
        let a ← copyLines w lineSize stride (a.table.lod lod).stride (lineCount yoff h) dst src a
        copySlices xoff yoff h lod w lineSize stride slices (z + 1)
          (src.advance (lineCount yoff h * stride)) a

/-- `z` runs from `zoff` to `d`, and not to `zoff + d`. -/
def sliceCount (zoff d : UInt32) : Nat := d.toNat - zoff.toNat

/-- `lineSize` has 32 bits. -/
def Alloc.rsdAllocationData3D (a : Alloc) (xoff yoff zoff : UInt32) (lod : Nat) (w h d : UInt32)
    (data : Source) (stride : Nat) : Option Alloc :=
  let lineSize := (a.elementSizeBytes * w).toNat
  let stride := lineStride lineSize stride
  copySlices xoff yoff h lod w.toNat lineSize stride (sliceCount zoff d) zoff data a

/-- `memcpy` from the block. -/
def Alloc.load (a : Alloc) (src size dst : Nat) (buffer : Memory) : Option Memory :=
  if src + size ≤ a.table.allocSize then some (write buffer ⟨dst, size⟩ fun i => a.block (src + i))
  else none

def Alloc.readLines (a : Alloc) (lineSize stride lodStride : Nat) :
    Nat → Nat → Nat → Memory → Option Memory
  | 0, _, _, buffer => some buffer
  | lines + 1, src, dst, buffer => do
      let buffer ← a.load src lineSize dst buffer
      a.readLines lineSize stride lodStride lines (src + lodStride) (dst + stride) buffer

def Alloc.readSlices (a : Alloc) (xoff yoff h : UInt32) (lod lineSize stride : Nat) :
    Nat → UInt32 → Nat → Memory → Option Memory
  | 0, _, _, buffer => some buffer
  | slices + 1, z, dst, buffer => do
      let lines := lineCount yoff h
      let buffer ← a.readLines lineSize stride (a.table.lod lod).stride lines
        (a.getOffsetPtr xoff yoff z lod 0) dst buffer
      a.readSlices xoff yoff h lod lineSize stride slices (z + 1) (dst + lines * stride) buffer

namespace Alloc

variable (a : Alloc)

/-- `lod` is not used. -/
def rsdAllocationRead1D (xoff : UInt32) (_lod : Nat) (count : UInt32) (buffer : Memory) : Option Memory :=
  a.load (a.getOffsetPtr xoff 0 0 0 0) (count.toNat * a.type.mElement.getSizeBytes) 0 buffer

def rsdAllocationRead2D (xoff yoff : UInt32) (lod face : Nat) (w h : UInt32) (stride : Nat)
    (buffer : Memory) : Option Memory :=
  let lineSize := a.elementSizeBytes.toNat * w.toNat
  let stride := lineStride lineSize stride
  a.readLines lineSize stride (a.table.lod lod).stride (lineCount yoff h)
    (a.getOffsetPtr xoff yoff 0 lod face) 0 buffer

def rsdAllocationRead3D (xoff yoff zoff : UInt32) (lod : Nat) (w h d : UInt32) (stride : Nat)
    (buffer : Memory) : Option Memory :=
  let lineSize := (a.elementSizeBytes * w).toNat
  let stride := lineStride lineSize stride
  a.readSlices xoff yoff h lod lineSize stride (sliceCount zoff d) zoff 0 buffer

/-- `data` for one dimension, and whether it is refused. -/
def data1D (xoff : UInt32) (lod : Nat) (count : UInt32) (data : Source) (sizeBytes : Nat) :
    Option (Alloc × Bool) :=
  if count.toNat * a.type.mElement.getSizeBytes ≠ sizeBytes then some (a, true)
  else (a.rsdAllocationData1D xoff lod count data).map (·, false)

/-- `read` for one dimension, and whether it is refused. -/
def read1D (xoff : UInt32) (lod : Nat) (count : UInt32) (buffer : Memory) (sizeBytes : Nat) :
    Option (Memory × Bool) :=
  if count.toNat * a.type.mElement.getSizeBytes ≠ sizeBytes then some (buffer, true)
  else (a.rsdAllocationRead1D xoff lod count buffer).map (·, false)

/-- `read` for two dimensions. The size is checked only where a stride is given. -/
def read2D (xoff yoff : UInt32) (lod face : Nat) (w h : UInt32) (buffer : Memory) (sizeBytes stride : Nat) :
    Option (Memory × Bool) :=
  let lineSize := a.elementSizeBytes.toNat * w.toNat
  if stride ≠ 0 ∧ lineSize * h.toNat ≠ sizeBytes then some (buffer, true)
  else (a.rsdAllocationRead2D xoff yoff lod face w h (lineStride lineSize stride) buffer).map (·, false)

end Alloc

open LineCopies

variable {size ct : Nat}

section

variable {a a' : Alloc} {bytes src : Memory} {w lineSize stride lodStride lines dst start : Nat}

theorem Alloc.store_eq {size : Nat} {src : Memory} (inside : dst + size ≤ a.table.allocSize) :
    a.store dst size src = some { a with block := write a.block ⟨dst, size⟩ src } := if_pos inside

theorem Alloc.inside_of_store {size : Nat} {src : Memory} (stored : a.store dst size src = some a') :
    dst + size ≤ a.table.allocSize := by
  by_contra outside
  cases (if_neg outside).symm.trans stored

theorem Alloc.decRefs_eq (a : Alloc) (ptr ct startOff : Nat) : ∃ refs, a.decRefs ptr ct startOff = { a with refs := refs } := by
  unfold Alloc.decRefs
  split
  · exact ⟨_, rfl⟩
  · exact ⟨a.refs, rfl⟩

theorem Alloc.copyCells_eq_store (a : Alloc) (dst : Nat) (src : Memory) (ct size : Nat) :
    ∃ refs, a.copyCells dst src ct size = ({ a with refs := refs } : Alloc).store dst size src := by
  unfold Alloc.copyCells
  split
  · obtain ⟨refs, released⟩ := (a.incRefs src ct).decRefs_eq dst ct 0
    exact ⟨refs, congrArg (fun b : Alloc => b.store dst size src) released⟩
  · exact ⟨a.refs, rfl⟩

theorem Alloc.copyCells_eq {size ct : Nat} {src : Memory} (inside : dst + size ≤ a.table.allocSize) :
    ∃ refs, a.copyCells dst src ct size = some { a with block := write a.block ⟨dst, size⟩ src, refs := refs } := by
  obtain ⟨refs, stored⟩ := a.copyCells_eq_store dst src ct size
  exact ⟨refs, stored.trans (Alloc.store_eq inside)⟩

theorem Alloc.inside_of_copyCells (copied : a.copyCells dst src ct size = some a') : dst + size ≤ a.table.allocSize := by
  obtain ⟨refs, stored⟩ := a.copyCells_eq_store dst src ct size
  rw [stored] at copied
  exact @Alloc.inside_of_store { a with refs := refs } a' dst _ src copied

theorem Alloc.copyCells_inv (copied : a.copyCells dst src ct size = some a') :
    dst + size ≤ a.table.allocSize ∧ ∃ refs, a' = { a with block := write a.block ⟨dst, size⟩ src, refs := refs } := by
  have inside := Alloc.inside_of_copyCells copied
  obtain ⟨refs, stored⟩ := Alloc.copyCells_eq inside
  exact ⟨inside, refs, Option.some.inj (copied.symm.trans stored)⟩

theorem copyLines_one {src : Source} :
    copyLines w lineSize stride lodStride 1 dst src a = a.copyCells dst (src.bytes a.block) w lineSize := by
  exact bind_fun_some _

theorem Source.advance_buffer : (Source.buffer fun i => bytes (start + i)).advance stride =
    .buffer fun i => bytes (start + stride + i) := by
  simp only [Source.advance, add_assoc]

theorem copyLines_eq (inside : ∀ i < lines, dst + i * lodStride + lineSize ≤ a.table.allocSize) :
    ∃ refs, copyLines w lineSize stride lodStride lines dst (.buffer fun i => bytes (start + i)) a = some { a with
        block := copy bytes lineSize lines (fun i => dst + i * lodStride) (fun i => start + i * stride) a.block
        refs := refs } := by
  induction lines generalizing dst start a with
  | zero => exact ⟨a.refs, rfl⟩
  | succ lines ih =>
    obtain ⟨first, later⟩ := forall_lines_succ.mp inside
    obtain ⟨refs, copied⟩ := Alloc.copyCells_eq first
    obtain ⟨refs', rest⟩ := @ih { a with
        block := write a.block ⟨dst, lineSize⟩ fun i => bytes (start + i)
        refs := refs } (dst + lodStride) (start + stride) later
    refine ⟨refs', ?_⟩
    rw [copyLines, Source.bytes, copied, Source.advance_buffer]
    refine rest.trans ?_
    simp only [copy, Nat.zero_mul, add_zero, Nat.succ_mul, add_assoc, add_comm stride, add_comm lodStride]

theorem inside_of_copyLines {src : Source} (copied : copyLines w lineSize stride lodStride lines dst src a = some a') :
    ∀ i < lines, dst + i * lodStride + lineSize ≤ a.table.allocSize := by
  induction lines generalizing dst src a with
  | zero => exact fun i lt => absurd lt (Nat.not_lt_zero _)
  | succ lines ih =>
    obtain ⟨next, first, rest⟩ := bind_eq_some_iff.mp copied
    obtain ⟨inFirst, refs, rfl⟩ := Alloc.copyCells_inv first
    have later := ih rest
    exact forall_lines_succ.mpr ⟨inFirst, later⟩

end

section

variable {a a' : Alloc} {bytes : Memory} {xoff yoff h z : UInt32} {lod w lineSize stride slices start lines : Nat}

/-- Where a line goes. Lines are counted from plane `z` on. -/
def Alloc.slicePtr (a : Alloc) (xoff yoff z : UInt32) (lod face lines n : Nat) : Nat :=
  a.getOffsetPtr xoff yoff (z + .ofNat (n / lines)) lod face + n % lines * (a.table.lod lod).stride

theorem Alloc.slicePtr_first {face n : Nat} (lt : n < lines) : a.slicePtr xoff yoff z lod face lines n =
      a.getOffsetPtr xoff yoff z lod face + n * (a.table.lod lod).stride := by
  rw [Alloc.slicePtr, Nat.div_eq_of_lt lt, Nat.mod_eq_of_lt lt]
  exact congrArg (fun z => a.getOffsetPtr xoff yoff z lod face + _) (add_zero z)

theorem Alloc.slicePtr_later {face n : Nat} (some : 0 < lines) :
    a.slicePtr xoff yoff z lod face lines (lines + n) = a.slicePtr xoff yoff (z + 1) lod face lines n := by
  have next : z + .ofNat (n / lines + 1) = z + 1 + .ofNat (n / lines) := by
    rw [UInt32.ofNat_add, UInt32.add_comm (.ofNat _), ← add_assoc]
    rfl
  rw [Alloc.slicePtr, Alloc.slicePtr, Nat.add_mod_left, Nat.add_div_left _ some, next]

theorem Alloc.slices_inside
    (inside : ∀ n < lines + slices * lines, a.slicePtr xoff yoff z lod 0 lines n + lineSize ≤ a.table.allocSize) :
    (∀ i < lines, a.getOffsetPtr xoff yoff z lod 0 + i * (a.table.lod lod).stride + lineSize ≤ a.table.allocSize) ∧
      ∀ n < slices * lines, a.slicePtr xoff yoff (z + 1) lod 0 lines n + lineSize ≤ a.table.allocSize := by
  constructor
  · intro i lt
    rw [← Alloc.slicePtr_first lt]
    exact inside i (Nat.lt_add_right _ lt)
  · intro n lt
    have some : 0 < lines := Nat.pos_of_mul_pos_left ((Nat.zero_le n).trans_lt lt)
    rw [← Alloc.slicePtr_later some]
    exact inside _ (Nat.add_lt_add_left lt _)

theorem copySlices_eq (inside : ∀ n < slices * lineCount yoff h,
      a.slicePtr xoff yoff z lod 0 (lineCount yoff h) n + lineSize ≤ a.table.allocSize) :
    ∃ refs, copySlices xoff yoff h lod w lineSize stride slices z (.buffer fun i => bytes (start + i)) a = some { a with
        block := copy bytes lineSize (slices * lineCount yoff h)
          (a.slicePtr xoff yoff z lod 0 (lineCount yoff h)) (fun n => start + n * stride) a.block
        refs := refs } := by
  induction slices generalizing z start a with
  | zero =>
    rw [Nat.zero_mul]
    exact ⟨a.refs, rfl⟩
  | succ slices ih =>
    generalize count : lineCount yoff h = lines at *
    rw [Nat.succ_mul, add_comm (slices * lines)] at inside ⊢
    obtain ⟨here, later⟩ := Alloc.slices_inside inside
    obtain ⟨refs, first⟩ := @copyLines_eq _ _ _ _ _ _ _ (a.getOffsetPtr xoff yoff z lod 0) start here
    obtain ⟨refs', rest⟩ := @ih { a with
        block := copy bytes lineSize lines (fun i => a.getOffsetPtr xoff yoff z lod 0 + i * (a.table.lod lod).stride)
          (fun i => start + i * stride) a.block
        refs := refs } (z + 1) (start + lines * stride) later
    refine ⟨refs', ?_⟩
    rw [copySlices]
    rw [Source.isAt, if_neg Bool.false_ne_true, count, first]
    rw [Source.advance_buffer]
    refine rest.trans ?_
    rw [copy_add]
    congr 2
    apply (copy_congr _ _).trans
    · congr 1
      apply copy_congr
      · exact fun i lt => (Alloc.slicePtr_first lt).symm
      · exact fun _ _ => rfl
    · intro n lt
      exact (Alloc.slicePtr_later (Nat.pos_of_mul_pos_left ((Nat.zero_le n).trans_lt lt))).symm
    · intro n _
      rw [add_mul, add_assoc]

end

section

variable {location : Nat} {a b : Alloc} {buffer out : Memory} {xoff yoff h z : UInt32}
  {lod lineSize stride lodStride lines slices src dst : Nat}

theorem Alloc.load_eq (inside : src + size ≤ a.table.allocSize) :
    a.load src size dst buffer = some (write buffer ⟨dst, size⟩ fun i => a.block (src + i)) := if_pos inside

theorem Alloc.inside_of_load (loaded : a.load src size dst buffer = some out) : src + size ≤ a.table.allocSize := by
  by_contra outside
  cases (if_neg outside).symm.trans loaded

theorem Alloc.readLines_eq (inside : ∀ i < lines, src + i * lodStride + lineSize ≤ a.table.allocSize) :
    a.readLines lineSize stride lodStride lines src dst buffer =
      some (copy a.block lineSize lines (fun i => dst + i * stride) (fun i => src + i * lodStride) buffer) := by
  induction lines generalizing src dst buffer with
  | zero => rfl
  | succ lines ih =>
    obtain ⟨first, later⟩ := forall_lines_succ.mp inside
    rw [Alloc.readLines, Alloc.load_eq first]
    refine (ih later).trans ?_
    simp only [copy, Nat.zero_mul, add_zero, Nat.succ_mul, add_assoc, add_comm stride, add_comm lodStride]

theorem Alloc.inside_of_readLines (read : a.readLines lineSize stride lodStride lines src dst buffer = some out) :
    ∀ i < lines, src + i * lodStride + lineSize ≤ a.table.allocSize := by
  induction lines generalizing src dst buffer with
  | zero => exact fun i lt => absurd lt (Nat.not_lt_zero _)
  | succ lines ih =>
    obtain ⟨next, first, rest⟩ := bind_eq_some_iff.mp read
    exact forall_lines_succ.mpr ⟨Alloc.inside_of_load first, ih rest⟩

theorem Alloc.readSlices_eq (inside : ∀ n < slices * lineCount yoff h,
      a.slicePtr xoff yoff z lod 0 (lineCount yoff h) n + lineSize ≤ a.table.allocSize) :
    a.readSlices xoff yoff h lod lineSize stride slices z dst buffer =
      some (copy a.block lineSize (slices * lineCount yoff h) (fun n => dst + n * stride)
        (a.slicePtr xoff yoff z lod 0 (lineCount yoff h)) buffer) := by
  induction slices generalizing z dst buffer with
  | zero =>
    rw [Nat.zero_mul]
    rfl
  | succ slices ih =>
    generalize count : lineCount yoff h = lines at *
    rw [Nat.succ_mul, add_comm (slices * lines)] at inside ⊢
    obtain ⟨first, later⟩ := Alloc.slices_inside inside
    rw [Alloc.readSlices, count, Alloc.readLines_eq first]
    refine (ih later).trans ?_
    rw [copy_add]
    congr 1
    apply (copy_congr _ _).trans
    · congr 1
      apply copy_congr
      · exact fun _ _ => rfl
      · exact fun i lt => (Alloc.slicePtr_first lt).symm
    · intro n _
      rw [add_mul, add_assoc]
    · intro n lt
      exact (Alloc.slicePtr_later (Nat.pos_of_mul_pos_left ((Nat.zero_le n).trans_lt lt))).symm

theorem Alloc.readLines_congr (tables : a.table = b.table) (blocks : a.block = b.block) :
    a.readLines lineSize stride lodStride lines src dst buffer = b.readLines lineSize stride lodStride lines src dst buffer := by
  induction lines generalizing src dst buffer with
  | zero => rfl
  | succ lines ih =>
    have loads (size : Nat) : a.load src size dst buffer = b.load src size dst buffer := by
      rw [Alloc.load, Alloc.load, tables, blocks]
    rw [Alloc.readLines, Alloc.readLines, loads]
    exact congrArg _ (funext fun _ => ih)

theorem Alloc.readLines_behind (narrow : lineSize ≤ stride) (behind : dst + lines * stride ≤ location)
    (read : a.readLines lineSize stride lodStride lines src dst buffer = some out) :
    out location = buffer location := by
  rw [Alloc.readLines_eq (Alloc.inside_of_readLines read)] at read
  cases read
  refine copy_outside fun i lt => .inr ?_
  calc dst + i * stride + lineSize ≤ dst + (i + 1) * stride := by
        rw [Nat.succ_mul]
        omega
    _ ≤ dst + lines * stride := Nat.add_le_add_left (Nat.mul_le_mul_right _ lt) _
    _ ≤ location := behind

theorem Alloc.readSlices_behind (narrow : lineSize ≤ stride) (behind : dst + slices * lineCount yoff h * stride ≤ location)
    (read : a.readSlices xoff yoff h lod lineSize stride slices z dst buffer = some out) :
    out location = buffer location := by
  induction slices generalizing z dst buffer with
  | zero =>
    cases read
    rfl
  | succ slices ih =>
    rw [Nat.succ_mul, add_mul] at behind
    obtain ⟨next, first, rest⟩ := bind_eq_some_iff.mp read
    calc out location = next location := ih (by omega) rest
      _ = buffer location := Alloc.readLines_behind narrow (by omega) first

end

end RenderScript.Copies
