import RenderScript.Allocation.Uploads

/-!
# Copies between allocations

`rsdAllocationData2D_alloc` and `rsdAllocationData3D_alloc` of driver/rsdAllocation.cpp, which copy
lines of cells from one allocation to another or within one allocation. `memcpy` takes the bytes
that were there before; an access outside a block has no value.
-/

namespace RenderScript.Allocations
open LineCopies Elements RenderScript.Types

section

variable {t : RsType} {b other : Box} {n size : Nat}

theorem Box.In.outside_line (plain : Plain t) (fits : RowsFit t) (isIn : b.In t) (otherIn : other.In t)
    (elsewhere : ¬ (b.lod = other.lod ∧ b.face = other.face)) (short : size ≤ b.w * t.mElement.getSizeBytes)
    (otherShort : size ≤ other.w * t.mElement.getSizeBytes) (lt : n < other.lines) {j : Nat} (inLine : j < size) :
    Outside size b.lines (b.lineAt t) (other.lineAt t n + j) := by
  intro m inLines
  have ends := isIn.line_le plain inLines
  have otherEnds := otherIn.line_le plain lt
  have rows := fits.rows_le plain (isIn.row plain inLines) (otherIn.row plain lt) fun eq =>
    elsewhere ⟨(Row.mk.inj eq).2.1, (Row.mk.inj eq).1⟩
  rw [isIn.lineAt_eq plain fits inLines, otherIn.lineAt_eq plain fits lt]
  omega

theorem RowsFit.line_eq (fits : RowsFit t) {r : Row} (inZ : r.z < max (tableLevel t r.lod).z.toNat 1) :
    (r.z * (tableLevel t r.lod).y.toNat % 2 ^ 32 + r.y) * tableStride t r.lod = r.index t * tableStride t r.lod := by
  rcases fits.index_eq inZ with empty | ⟨number, -⟩
  · simp [empty]
  · rw [number]

def cornerAt (t : RsType) (b : Box) : Nat :=
  (b.z * (tableLevel t b.lod).y.toNat + b.y) * tableStride t b.lod + b.x * t.mElement.getSizeBytes

theorem Box.In.lineAt_add (plain : Plain t) (fits : RowsFit t) (isIn : b.In t) (otherIn : other.In t)
    (lods : b.lod = other.lod) (faces : b.face = other.face) (heights : b.h = other.h) (lt : n < b.lines)
    (otherBelow : n < other.lines) : b.lineAt t n + cornerAt t other = other.lineAt t n + cornerAt t b := by
  have inRow := isIn.row plain lt
  have otherInRow := otherIn.row plain otherBelow
  rw [isIn.lineAt_eq plain fits lt, otherIn.lineAt_eq plain fits otherBelow, Row.start_eq plain inRow,
    Row.start_eq plain otherInRow]
  simp only [Stacking.offset_const]
  rw [fits.line_eq (inRow.table plain).1, fits.line_eq (otherInRow.table plain).1]
  simp only [cornerAt, Row.index, Cell.row, Box.lineCell, lods, faces, heights]
  ring

end

end RenderScript.Allocations

namespace RenderScript.Copies
open ByteMemory LineCopies Elements RenderScript.Types Allocations Option

/-- The allocations of a copy. Without `src` the copy is within `dst`. -/
structure Pair where
  dst : Alloc
  src : Option Alloc

structure Corner where
  xoff : UInt32
  yoff : UInt32
  zoff : UInt32
  lod : Nat
  face : Nat

namespace Pair

variable (p : Pair)

def srcAlloc : Alloc := p.src.getD p.dst

def withBlock (block : Memory) : Pair := { p with dst := { p.dst with block := block } }

/-- `memcpy` between the blocks. -/
def memcpy (dstPtr srcPtr size : Nat) : Option Pair :=
  if srcPtr + size ≤ p.srcAlloc.table.allocSize then
    (p.dst.store dstPtr size fun k => p.srcAlloc.block (srcPtr + k)).map fun dst => { p with dst := dst }
  else none

end Pair

/-- The loop over the lines from `i` on. -/
def copyRows (dst src : Corner) (size : Nat) : Nat → UInt32 → Pair → Option Pair
  | 0, _, p => some p
  | lines + 1, i, p => do
      let dstPtr := p.dst.getOffsetPtr dst.xoff (dst.yoff + i) dst.zoff dst.lod dst.face
      let srcPtr := p.srcAlloc.getOffsetPtr src.xoff (src.yoff + i) src.zoff src.lod src.face
      let p ← p.memcpy dstPtr srcPtr size
      copyRows dst src size lines (i + 1) p

/-- The loop over the planes from `j` on. -/
def copyPlanes (dst src : Corner) (size : Nat) (h : UInt32) : Nat → UInt32 → Pair → Option Pair
  | 0, _, p => some p
  | planes + 1, j, p => do
      let p ← copyRows { dst with zoff := dst.zoff + j } { src with zoff := src.zoff + j } size h.toNat 0 p
      copyPlanes dst src size h planes (j + 1) p

namespace Pair

variable (p : Pair)

/-- `elementSize` is a `size_t`. -/
def rsdAllocationData2DAllocScript (dst src : Corner) (w h : UInt32) : Option Pair :=
  let elementSize := p.dst.type.mElement.getSizeBytes
  copyRows { dst with zoff := 0 } { src with zoff := 0 } (w.toNat * elementSize) h.toNat 0 p

/-- `elementSize` has 32 bits. -/
def rsdAllocationData3DAllocScript (dst src : Corner) (w h d : UInt32) : Option Pair :=
  let elementSize : UInt32 := .ofNat p.dst.type.mElement.getSizeBytes
  copyPlanes { dst with face := 0 } { src with face := 0 } (w * elementSize).toNat h d.toNat 0 p

def isScript : Bool := p.dst.script || p.srcAlloc.script

def notImplemented : String := "Non-script allocation copies not yet implemented."

def rsdAllocationData2DAlloc (dst src : Corner) (w h : UInt32) : Option (Except String Pair) :=
  if p.isScript = false then some (.error notImplemented)
  else (p.rsdAllocationData2DAllocScript dst src w h).map .ok

def rsdAllocationData3DAlloc (dst src : Corner) (w h d : UInt32) : Option (Except String Pair) :=
  if p.isScript = false then some (.error notImplemented)
  else (p.rsdAllocationData3DAllocScript dst src w h d).map .ok

end Pair

/-- `rsi_AllocationCopy2DRange`, which has no `zoff`, or `rsi_AllocationCopy3DRange`, which has no face. -/
inductive CopyCall where
  | range2D (dst src : Corner) (w h : UInt32)
  | range3D (dst src : Corner) (w h d : UInt32)

def Pair.copy (p : Pair) : CopyCall → Option (Except String Pair)
  | .range2D dst src w h => p.rsdAllocationData2DAlloc dst src w h
  | .range3D dst src w h d => p.rsdAllocationData3DAlloc dst src w h d

namespace CopyCall

def dstBox : CopyCall → Box
  | .range2D dst _ w h => requestBox dst.xoff dst.yoff 0 w h 1 dst.lod dst.face
  | .range3D dst _ w h d => requestBox dst.xoff dst.yoff dst.zoff w h d.toNat dst.lod 0

def srcBox : CopyCall → Box
  | .range2D _ src w h => requestBox src.xoff src.yoff 0 w h 1 src.lod src.face
  | .range3D _ src w h d => requestBox src.xoff src.yoff src.zoff w h d.toNat src.lod 0

def lineSize (e : Element) : CopyCall → Nat
  | .range2D _ _ w _ => w.toNat * e.getSizeBytes
  | .range3D _ _ w _ _ => w.toNat * e.getSizeBytes % 2 ^ 32

theorem boxes (call : CopyCall) :
    call.dstBox.w = call.srcBox.w ∧ call.dstBox.h = call.srcBox.h ∧ call.dstBox.lines = call.srcBox.lines := by
  cases call with
  | range2D dst src w h => exact ⟨rfl, rfl, rfl⟩
  | range3D dst src w h d => exact ⟨rfl, rfl, rfl⟩

theorem lineSize_le (call : CopyCall) (e : Element) : call.lineSize e ≤ call.dstBox.w * e.getSizeBytes := by
  cases call with
  | range2D dst src w h => exact le_rfl
  | range3D dst src w h d => exact Nat.mod_le _ _

end CopyCall

section

variable {p p' : Pair} {dst src : Corner} {size lines : Nat} {i : UInt32} {target source : Nat → Nat}

theorem Pair.memcpy_eq_some_iff {dstPtr srcPtr : Nat} : p.memcpy dstPtr srcPtr size = some p' ↔
      (dstPtr + size ≤ p.dst.table.allocSize ∧ srcPtr + size ≤ p.srcAlloc.table.allocSize) ∧
        p' = p.withBlock (write p.dst.block ⟨dstPtr, size⟩ fun k => (p.src.map Alloc.block).getD p.dst.block (srcPtr + k)) := by
  have bytes : p.srcAlloc.block = (p.src.map Alloc.block).getD p.dst.block := by
    unfold Pair.srcAlloc
    cases p.src with
    | none => rfl
    | some a => rfl
  unfold Pair.memcpy
  split
  case isFalse out => simp [out]
  case isTrue inside =>
    by_cases room : dstPtr + size ≤ p.dst.table.allocSize
    · rw [Alloc.store_eq room, bytes]
      simp only [map_some, some_inj, room, inside, true_and]
      exact eq_comm
    · simp [Alloc.store, room]

/-- The lines of a copy are where they are said to be, and inside the blocks. -/
structure Reached (p : Pair) (size lines : Nat) (target source : Nat → Nat) : Prop where
  dst : ∀ n < lines, target n + size ≤ p.dst.table.allocSize
  src : ∀ n < lines, source n + size ≤ p.srcAlloc.table.allocSize

def Pair.after (p : Pair) (size lines : Nat) (target source : Nat → Nat) : Pair :=
  p.withBlock (transfer (p.src.map Alloc.block) size lines target source p.dst.block)

theorem Pair.table_withBlock (p : Pair) (block : Memory) : (p.withBlock block).srcAlloc.table = p.srcAlloc.table := by
  unfold Pair.srcAlloc Pair.withBlock
  cases p.src with
  | none => rfl
  | some a => rfl

theorem Pair.getOffsetPtr_withBlock (p : Pair) (block : Memory) (xoff yoff zoff : UInt32) (lod face : Nat) :
    (p.withBlock block).srcAlloc.getOffsetPtr xoff yoff zoff lod face = p.srcAlloc.getOffsetPtr xoff yoff zoff lod face := by
  unfold Pair.srcAlloc Pair.withBlock
  cases p.src with
  | none => rfl
  | some a => rfl

theorem Reached.succ : Reached p size (lines + 1) target source ↔
      (target 0 + size ≤ p.dst.table.allocSize ∧ source 0 + size ≤ p.srcAlloc.table.allocSize) ∧
        Reached p size lines (fun n => target (n + 1)) fun n => source (n + 1) := by
  constructor
  · intro reached
    refine ⟨⟨reached.dst 0 (Nat.succ_pos _), reached.src 0 (Nat.succ_pos _)⟩, ?_, ?_⟩
    · exact fun n lt => reached.dst (n + 1) (Nat.succ_lt_succ lt)
    · exact fun n lt => reached.src (n + 1) (Nat.succ_lt_succ lt)
  · rintro ⟨⟨room, readable⟩, later⟩
    constructor
    · intro n lt
      cases n with
      | zero => exact room
      | succ n => exact later.dst n (Nat.lt_of_succ_lt_succ lt)
    · intro n lt
      cases n with
      | zero => exact readable
      | succ n => exact later.src n (Nat.lt_of_succ_lt_succ lt)

theorem Reached.withBlock (block : Memory) :
    Reached (p.withBlock block) size lines target source ↔ Reached p size lines target source := by
  have eq := p.table_withBlock block
  constructor
  · exact fun reached => ⟨reached.dst, fun n below => eq ▸ reached.src n below⟩
  · exact fun reached => ⟨reached.dst, fun n below => eq.symm ▸ reached.src n below⟩

theorem Reached.none : Reached p size 0 target source :=
  ⟨fun n lt => absurd lt (Nat.not_lt_zero n), fun n lt => absurd lt (Nat.not_lt_zero n)⟩

theorem add_one_ofNat (i : UInt32) (n : Nat) : i + 1 + UInt32.ofNat n = i + UInt32.ofNat (n + 1) := by
  rw [UInt32.ofNat_add, add_assoc, add_comm 1]
  rfl

theorem copyRows_eq_some_iff
    (targets : ∀ n < lines, p.dst.getOffsetPtr dst.xoff (dst.yoff + (i + .ofNat n)) dst.zoff dst.lod dst.face = target n)
    (sources : ∀ n < lines, p.srcAlloc.getOffsetPtr src.xoff (src.yoff + (i + .ofNat n)) src.zoff src.lod src.face = source n) :
    copyRows dst src size lines i p = some p' ↔ Reached p size lines target source ∧ p' = p.after size lines target source := by
  induction lines generalizing p i target source with
  | zero =>
    rw [copyRows, some_inj, and_iff_right Reached.none]
    exact eq_comm
  | succ lines ih =>
    have zero : i + UInt32.ofNat 0 = i := add_zero i
    have first := targets 0 (Nat.succ_pos _)
    have firstSource := sources 0 (Nat.succ_pos _)
    rw [zero] at first firstSource
    have others (block : Memory) : copyRows dst src size lines (i + 1) (p.withBlock block) = some p' ↔
        Reached p size lines (fun n => target (n + 1)) (fun n => source (n + 1)) ∧
          p' = (p.withBlock block).after size lines (fun n => target (n + 1)) fun n => source (n + 1) := by
      rw [← Reached.withBlock block]
      apply ih
      · intro n lt
        rw [add_one_ofNat]
        exact targets (n + 1) (Nat.succ_lt_succ lt)
      · intro n lt
        rw [add_one_ofNat, Pair.getOffsetPtr_withBlock]
        exact sources (n + 1) (Nat.succ_lt_succ lt)
    rw [copyRows, first, firstSource, bind_eq_bind, bind_eq_some_iff, Reached.succ, and_assoc]
    simp only [Pair.memcpy_eq_some_iff]
    constructor
    · rintro ⟨mid, ⟨inside, rfl⟩, rest⟩
      exact ⟨inside, (others _).mp rest⟩
    · rintro ⟨inside, rest⟩
      exact ⟨_, ⟨inside, rfl⟩, (others _).mpr rest⟩

end

section

variable {p p' : Pair} {dst src : Corner} {size planes : Nat} {h j : UInt32} {target source : Nat → Nat}

theorem Reached.add {first second : Nat} : Reached p size (first + second) target source ↔ Reached p size first target source ∧
      Reached p size second (fun n => target (first + n)) fun n => source (first + n) := by
  constructor
  · intro reached
    refine ⟨⟨?_, ?_⟩, ⟨?_, ?_⟩⟩
    · exact fun n lt => reached.dst n (lt.trans_le (Nat.le_add_right _ _))
    · exact fun n lt => reached.src n (lt.trans_le (Nat.le_add_right _ _))
    · exact fun n lt => reached.dst _ (Nat.add_lt_add_left lt _)
    · exact fun n lt => reached.src _ (Nat.add_lt_add_left lt _)
  · rintro ⟨early, late⟩
    have split {n : Nat} (lt : n < first + second) : n < first ∨ ∃ m < second, n = first + m := by
      rcases lt_or_ge n first with low | high
      · exact .inl low
      · obtain ⟨m, rfl⟩ := Nat.exists_eq_add_of_le high
        exact .inr ⟨m, lt_of_add_lt_add_left lt, rfl⟩
    constructor
    · intro n lt
      rcases split lt with low | ⟨m, small, rfl⟩
      · exact early.dst n low
      · exact late.dst m small
    · intro n lt
      rcases split lt with low | ⟨m, small, rfl⟩
      · exact early.src n low
      · exact late.src m small

theorem copyPlanes_eq_some_iff (targets : ∀ k < planes, ∀ n < h.toNat,
      p.dst.getOffsetPtr dst.xoff (dst.yoff + (0 + .ofNat n)) (dst.zoff + (j + .ofNat k)) dst.lod dst.face =
        target (k * h.toNat + n)) (sources : ∀ k < planes, ∀ n < h.toNat,
      p.srcAlloc.getOffsetPtr src.xoff (src.yoff + (0 + .ofNat n)) (src.zoff + (j + .ofNat k)) src.lod src.face =
        source (k * h.toNat + n)) :
    copyPlanes dst src size h planes j p = some p' ↔
      Reached p size (planes * h.toNat) target source ∧ p' = p.after size (planes * h.toNat) target source := by
  induction planes generalizing p j target source with
  | zero =>
    rw [copyPlanes, some_inj, Nat.zero_mul, and_iff_right Reached.none]
    exact eq_comm
  | succ planes ih =>
    have zero : j + UInt32.ofNat 0 = j := add_zero j
    have number (k n : Nat) : (k + 1) * h.toNat + n = h.toNat + (k * h.toNat + n) := by
      rw [Nat.succ_mul, add_comm (k * h.toNat), add_assoc]
    have plane (mid : Pair) : copyRows { dst with zoff := dst.zoff + j } { src with zoff := src.zoff + j } size h.toNat 0 p =
            some mid ↔
          Reached p size h.toNat target source ∧ mid = p.after size h.toNat target source := by
      apply copyRows_eq_some_iff
      · intro n lt
        have at0 := targets 0 (Nat.succ_pos _) n lt
        rw [zero, Nat.zero_mul, Nat.zero_add] at at0
        exact at0
      · intro n lt
        have at0 := sources 0 (Nat.succ_pos _) n lt
        rw [zero, Nat.zero_mul, Nat.zero_add] at at0
        exact at0
    have others : copyPlanes dst src size h planes (j + 1) (p.after size h.toNat target source) = some p' ↔
        Reached p size (planes * h.toNat) (fun n => target (h.toNat + n)) (fun n => source (h.toNat + n)) ∧
          p' = (p.after size h.toNat target source).after size (planes * h.toNat)
            (fun n => target (h.toNat + n)) fun n => source (h.toNat + n) := by
      rw [← Reached.withBlock (transfer (p.src.map Alloc.block) size h.toNat target source p.dst.block)]
      apply ih
      · intro k small n lt
        rw [add_one_ofNat, ← number]
        exact targets (k + 1) (Nat.succ_lt_succ small) n lt
      · intro k small n lt
        rw [add_one_ofNat, ← number, Pair.after, Pair.getOffsetPtr_withBlock]
        exact sources (k + 1) (Nat.succ_lt_succ small) n lt
    have whole : (p.after size h.toNat target source).after size (planes * h.toNat)
        (fun n => target (h.toNat + n)) (fun n => source (h.toNat + n)) =
          p.after size (h.toNat + planes * h.toNat) target source := by
      rw [Pair.after, Pair.after, Pair.after, transfer_add]
      rfl
    rw [copyPlanes, bind_eq_bind, bind_eq_some_iff, Nat.succ_mul, Nat.add_comm, Reached.add, ← whole, and_assoc, ← others]
    simp only [plane]
    constructor
    · rintro ⟨mid, ⟨reached, rfl⟩, rest⟩
      exact ⟨reached, rest⟩
    · rintro ⟨reached, rest⟩
      exact ⟨_, ⟨reached, rfl⟩, rest⟩

end

/-- Allocations of the types `t` and `s`. Without `s` they are the same. -/
def Pair.Of (t : RsType) (s : Option RsType) (p : Pair) : Prop :=
  p.dst.Of t ∧ Option.Rel (fun a t => Alloc.Of t a) p.src s

section

variable {t : RsType} {s : Option RsType} {p p' : Pair} {call : CopyCall}

theorem Pair.Of.srcAlloc (of : p.Of t s) : p.srcAlloc.Of (s.getD t) := by
  obtain ⟨dst, src⟩ := p
  obtain ⟨isDst, isSrc⟩ := of
  cases isSrc with
  | none => exact isDst
  | some isSrc => exact isSrc

theorem request_ptr {a : Alloc} {xoff yoff zoff w h : UInt32} {d lod face k n : Nat} (of : a.Of t)
    (isIn : (requestBox xoff yoff zoff w h d lod face).In t) (inPlanes : k < d) (inLines : n < h.toNat) :
    a.getOffsetPtr xoff (yoff + (0 + .ofNat n)) (zoff + (0 + .ofNat k)) lod face =
      (requestBox xoff yoff zoff w h d lod face).lineAt t (k * h.toNat + n) := by
  have inY : yoff.toNat + h.toNat ≤ max (t.mLodDim lod).y.toNat 1 := isIn.y
  have inZ : zoff.toNat + d ≤ max (t.mLodDim lod).z.toNat 1 := isIn.z
  have wordY := (t.mLodDim lod).y.toNat_lt
  have wordZ := (t.mLodDim lod).z.toNat_lt
  have y : (yoff + (0 + UInt32.ofNat n)).toNat = yoff.toNat + n := by
    rw [zero_add, UInt32.toNat_add, UInt32.toNat_ofNat', Nat.mod_eq_of_lt (by omega : n < 2 ^ 32)]
    exact Nat.mod_eq_of_lt (by omega)
  have z : (zoff + (0 + UInt32.ofNat k)).toNat = zoff.toNat + k := by
    rw [zero_add, UInt32.toNat_add, UInt32.toNat_ofNat', Nat.mod_eq_of_lt (by omega : k < 2 ^ 32)]
    exact Nat.mod_eq_of_lt (by omega)
  have line : (k * h.toNat + n) % h.toNat = n := by
    simp [Nat.mod_eq_of_lt inLines]
  have plane : (k * h.toNat + n) / h.toNat = k := by
    rw [add_comm, Nat.add_mul_div_right _ _ (Nat.zero_lt_of_lt inLines), Nat.div_eq_of_lt inLines, zero_add]
  rw [of.getOffsetPtr, y, z, Box.lineAt, Box.lineCell]
  simp [requestBox, line, plane]

section

variable (of : p.Of t s) (dstIn : call.dstBox.In t) (srcIn : call.srcBox.In (s.getD t))

include of dstIn srcIn

theorem Pair.copy_eq_ok_iff (script : p.isScript = true) : p.copy call = some (.ok p') ↔
      Reached p (call.lineSize t.mElement) call.dstBox.lines (call.dstBox.lineAt t) (call.srcBox.lineAt (s.getD t)) ∧
        p' = p.after (call.lineSize t.mElement) call.dstBox.lines (call.dstBox.lineAt t) (call.srcBox.lineAt (s.getD t)) := by
  have notRefused : ¬ p.isScript = false := by
    rw [script]
    exact Bool.noConfusion
  have ok (result : Option Pair) : result.map (Except.ok : Pair → Except String Pair) = some (.ok p') ↔ result = some p' := by
    cases result with
    | none => simp
    | some q => simp
  cases call with
  | range2D dst src w h =>
    rw [Pair.copy, Pair.rsdAllocationData2DAlloc, if_neg notRefused, ok, Pair.rsdAllocationData2DAllocScript, of.1.type]
    have lines : (CopyCall.range2D dst src w h).dstBox.lines = h.toNat := one_mul _
    rw [lines]
    apply copyRows_eq_some_iff
    · intro n lt
      have place := request_ptr of.1 dstIn one_pos lt
      rw [Nat.zero_mul, Nat.zero_add] at place
      exact place
    · intro n lt
      have place := request_ptr of.srcAlloc srcIn one_pos lt
      rw [Nat.zero_mul, Nat.zero_add] at place
      exact place
  | range3D dst src w h d =>
    have size : (w * UInt32.ofNat t.mElement.getSizeBytes).toNat = w.toNat * t.mElement.getSizeBytes % 2 ^ 32 := by
      simp
    rw [Pair.copy, Pair.rsdAllocationData3DAlloc, if_neg notRefused, ok, Pair.rsdAllocationData3DAllocScript, of.1.type, size]
    apply copyPlanes_eq_some_iff
    · exact fun k inPlanes n lt => request_ptr of.1 dstIn inPlanes lt
    · exact fun k inPlanes n lt => request_ptr of.srcAlloc srcIn inPlanes lt

end

end

end RenderScript.Copies

namespace RenderScript.Uploads
open ByteMemory LineCopies Elements RenderScript.Types Allocations Copies

def CountedBoth (p : Pair) : Prop := Counted p.dst ∧ ∀ a ∈ p.src, Counted a

def CopyInside (t : RsType) (s : Option RsType) (call : CopyCall) : Prop :=
  ∀ n < call.dstBox.lines,
    call.dstBox.lineAt t n + call.lineSize t.mElement ≤ (allocationBuildPointerTable t).allocSize ∧
    call.srcBox.lineAt (s.getD t) n + call.lineSize t.mElement ≤ (allocationBuildPointerTable (s.getD t)).allocSize

def SparesHandles (t : RsType) (call : CopyCall) : Prop :=
  ∀ q ∈ handlePlaces t, ∀ i < 4, Outside (call.lineSize t.mElement) call.dstBox.lines (call.dstBox.lineAt t) (q + i)

def OntoItself (t : RsType) (s : Option RsType) (call : CopyCall) : Prop :=
  s = none ∧ ∀ n < call.dstBox.lines, call.dstBox.lineAt t n = call.srcBox.lineAt t n

/-- A copy between script allocations of the types keeps their counts right, whatever their cells are. -/
def CopiesCounted (t : RsType) (s : Option RsType) (call : CopyCall) : Prop :=
  ∀ p : Pair, p.Of t s → p.dst.script = true → p.srcAlloc.script = true → CountedBoth p →
    ∃ p', p.copy call = some (.ok p') ∧ CountedBoth p'

def counting (t : RsType) (block : Memory) : Alloc where
  type := t
  laid := t
  script := true
  block := block
  refs ob := handleCount t block ob

def countingPair (t : RsType) (s : Option RsType) (block : Memory) : Pair where
  dst := counting t block
  src := s.map fun t => counting t fun _ => 1

section

variable {t : RsType} {s : Option RsType} {p p' : Pair} {call : CopyCall}

theorem countingPair_of (t : RsType) (s : Option RsType) (block : Memory) : (countingPair t s block).Of t s := by
  refine ⟨⟨rfl, rfl⟩, ?_⟩
  cases s with
  | none => exact .none
  | some s => exact .some ⟨rfl, rfl⟩

theorem countingPair_counted (t : RsType) (s : Option RsType) (block : Memory) : CountedBoth (countingPair t s block) := by
  refine ⟨fun ob _ => rfl, ?_⟩
  intro a mem
  cases s with
  | none => cases mem
  | some s =>
    cases mem
    exact fun ob _ => rfl

theorem reached_iff (of : p.Of t s) : Reached p (call.lineSize t.mElement) call.dstBox.lines (call.dstBox.lineAt t)
      (call.srcBox.lineAt (s.getD t)) ↔ CopyInside t s call := by
  have dst := congrArg DrvState.allocSize of.1.table
  have src := congrArg DrvState.allocSize of.srcAlloc.table
  constructor
  · exact fun reached n lt => ⟨(reached.dst n lt).trans_eq dst, (reached.src n lt).trans_eq src⟩
  · exact fun inside => ⟨fun n lt => (inside n lt).1.trans_eq dst.symm,
      fun n lt => (inside n lt).2.trans_eq src.symm⟩

def copied (t : RsType) (s : Option RsType) (call : CopyCall) (bytes : Option Memory) (block : Memory) : Memory :=
  transfer bytes (call.lineSize t.mElement) call.dstBox.lines (call.dstBox.lineAt t)
    (call.srcBox.lineAt (s.getD t)) block

section

variable (dstIn : call.dstBox.In t) (srcIn : call.srcBox.In (s.getD t))

include dstIn srcIn

theorem counted_copy_iff (of : p.Of t s) (script : p.isScript = true) (counted : CountedBoth p) :
    (∃ p', p.copy call = some (.ok p') ∧ CountedBoth p') ↔ CopyInside t s call ∧ ∀ ob, ob ≠ 0 →
        handleCount t (copied t s call (p.src.map Alloc.block) p.dst.block) ob = handleCount t p.dst.block ob := by
  simp only [Pair.copy_eq_ok_iff of dstIn srcIn script, reached_iff of]
  have before (ob : Nat) (some : ob ≠ 0) : p.dst.refs ob = handleCount t p.dst.block ob := by
    have all := counted.1 ob some
    rw [of.1.laid] at all
    exact all
  have after (block : Memory) : Counted (p.withBlock block).dst ↔
      ∀ ob, ob ≠ 0 → handleCount t block ob = handleCount t p.dst.block ob := by
    have laid : (p.withBlock block).dst.laid = t := of.1.laid
    constructor
    · intro counts ob some
      have eq := counts ob some
      rw [laid] at eq
      exact Int.ofNat.inj (eq.symm.trans (before ob some))
    · intro eq ob some
      rw [laid]
      exact (before ob some).trans (congrArg Nat.cast (eq ob some).symm)
  constructor
  · rintro ⟨p', ⟨inside, rfl⟩, counts, -⟩
    exact ⟨inside, (after _).mp counts⟩
  · rintro ⟨inside, eq⟩
    exact ⟨_, ⟨inside, rfl⟩, (after _).mpr eq, counted.2⟩

variable (always : CopiesCounted t s call)

include always

theorem counts_of_copies (block : Memory) : CopyInside t s call ∧ ∀ ob, ob ≠ 0 →
      handleCount t (copied t s call (s.map fun _ _ => 1) block) ob = handleCount t block ob := by
  have of := countingPair_of t s block
  have counted := countingPair_counted t s block
  have script : (countingPair t s block).srcAlloc.script = true := by
    cases s with
    | none => rfl
    | some s => rfl
  have bytes : (countingPair t s block).src.map Alloc.block = s.map fun _ _ => 1 := by
    cases s with
    | none => rfl
    | some s => rfl
  have result := (counted_copy_iff dstIn srcIn of rfl counted).mp (always _ of rfl script counted)
  rw [bytes] at result
  exact result

theorem not_fed_of_copies {q i : Nat} (mem : q ∈ handlePlaces t) (inHandle : i < 4)
    (written : ¬ Outside (call.lineSize t.mElement) call.dstBox.lines (call.dstBox.lineAt t) (q + i))
    (held : Nat → Prop) (notHeld : ¬ held (q + i)) (fed : ∀ n < call.dstBox.lines, ∀ j < call.lineSize t.mElement,
      held (call.dstBox.lineAt t n + j) ∨ call.dstBox.lineAt t n + j = q + i →
        Feeds (s.map fun _ _ => 1) held 1 (call.srcBox.lineAt (s.getD t) n + j)) : False := by
  classical
  let block : Memory := fun l => if held l then 1 else 0
  have there : ∀ l, held l → block l = 1 := fun l isHeld => if_pos isHeld
  have reaches : copied t s call (s.map fun _ _ => 1) block (q + i) = 1 := transfer_reaches there fed written
  have keeps : ∀ l, held l → copied t s call (s.map fun _ _ => 1) block l = 1 :=
    transfer_keeps there fun n lt j inside isHeld => fed n lt j inside (.inl isHeld)
  have grows (l : Nat) : (block l).toNat ≤ (copied t s call (s.map fun _ _ => 1) block l).toNat := by
    by_cases isHeld : held l
    · rw [there l isHeld, keeps l isHeld]
    · rw [show block l = 0 from if_neg isHeld]
      exact Nat.zero_le _
  have more : (block (q + i)).toNat < (copied t s call (s.map fun _ _ => 1) block (q + i)).toNat := by
    rw [show block (q + i) = 0 from if_neg notHeld, reaches]
    decide
  obtain ⟨ob, some, ne⟩ := exists_count_ne grows mem inHandle more
  apply ne
  have eq := (counts_of_copies dstIn srcIn always block).2 ob some
  rw [handleCount_eq_count, handleCount_eq_count] at eq
  exact eq.symm

end

/-- Lines of one allocation, which are where they were before, or all moved in one direction, or far from each
other. -/
theorem lines_cases (plain : Plain t) (fits : RowsFit t) (dstIn : call.dstBox.In t) (srcIn : call.srcBox.In t) :
    (∀ n < call.dstBox.lines, call.dstBox.lineAt t n = call.srcBox.lineAt t n) ∨
    (∀ n < call.dstBox.lines, call.dstBox.lineAt t n < call.srcBox.lineAt t n) ∨
    (∀ n < call.dstBox.lines, call.srcBox.lineAt t n < call.dstBox.lineAt t n) ∨
    ∀ n < call.dstBox.lines, ∀ j < call.lineSize t.mElement,
      Outside (call.lineSize t.mElement) call.dstBox.lines (call.dstBox.lineAt t) (call.srcBox.lineAt t n + j) := by
  obtain ⟨widths, heights, lines⟩ := call.boxes
  by_cases near : call.dstBox.lod = call.srcBox.lod ∧ call.dstBox.face = call.srcBox.face
  · have distance {n : Nat} (lt : n < call.dstBox.lines) :=
      dstIn.lineAt_add plain fits srcIn near.1 near.2 heights lt (lt.trans_eq lines)
    rcases lt_trichotomy (cornerAt t call.dstBox) (cornerAt t call.srcBox) with less | equal | more
    · refine .inr (.inl fun n lt => ?_)
      have moved := distance lt
      omega
    · refine .inl fun n lt => ?_
      have moved := distance lt
      omega
    · refine .inr (.inr (.inl fun n lt => ?_))
      have moved := distance lt
      omega
  · refine .inr (.inr (.inr fun n lt j inside => ?_))
    have short := call.lineSize_le t.mElement
    exact dstIn.outside_line plain fits srcIn near short (short.trans_eq (congrArg (· * _) widths))
      (lt.trans_eq lines) inside

theorem spares_of_copies (dstIn : call.dstBox.In t) (srcIn : call.srcBox.In (s.getD t))
    (layout : s = none → Plain t ∧ RowsFit t) (always : CopiesCounted t s call) (moves : ¬ OntoItself t s call) :
    SparesHandles t call := by
  intro q mem i inHandle
  by_contra written
  cases s with
  | some s =>
    apply not_fed_of_copies dstIn srcIn always mem inHandle written (fun _ => False) id
    exact fun n lt j inside either => rfl
  | none =>
    obtain ⟨plain, fits⟩ := layout rfl
    rcases lines_cases plain fits dstIn srcIn with eq | less | more | far
    · exact moves ⟨rfl, eq⟩
    · apply not_fed_of_copies dstIn srcIn always mem inHandle written (q + i < ·) (lt_irrefl _)
      intro n lt j inside either
      have moved := less n lt
      change q + i < call.srcBox.lineAt t n + j
      omega
    · apply not_fed_of_copies dstIn srcIn always mem inHandle written (· < q + i) (lt_irrefl _)
      intro n lt j inside either
      have moved := more n lt
      change call.srcBox.lineAt t n + j < q + i
      omega
    · apply not_fed_of_copies dstIn srcIn always mem inHandle written
        (Outside (call.lineSize t.mElement) call.dstBox.lines (call.dstBox.lineAt t)) written
      exact fun n lt j inside either => far n lt j inside

/-- Copies are counted exactly if they write no handles, or cells onto themselves. -/
theorem copies_counted_iff (dstIn : call.dstBox.In t) (srcIn : call.srcBox.In (s.getD t))
    (layout : s = none → Plain t ∧ RowsFit t) :
    CopiesCounted t s call ↔ CopyInside t s call ∧ (SparesHandles t call ∨ OntoItself t s call) := by
  constructor
  · intro always
    refine ⟨(counts_of_copies dstIn srcIn always fun _ => 0).1, ?_⟩
    by_cases moves : OntoItself t s call
    · exact .inr moves
    · exact .inl (spares_of_copies dstIn srcIn layout always moves)
  · rintro ⟨inside, kept⟩ p of script - counted
    have isScript : p.isScript = true := by
      simp [Pair.isScript, script]
    refine (counted_copy_iff dstIn srcIn of isScript counted).mpr ⟨inside, fun ob _ => ?_⟩
    rcases kept with spares | ⟨rfl, eq⟩
    · rw [handleCount_eq_count, handleCount_eq_count]
      congr 1
      apply Multiset.map_congr rfl
      intro q mem
      apply handleAt_congr
      exact fun i small => transfer_outside (spares q mem i small)
    · obtain ⟨dst, src⟩ := p
      cases of.2
      exact congrArg (handleCount t · ob) (transfer_self eq)

end

private def objectCell : Element := .mk 0 (.set .allocation .user false 1) []

private def objects (dimX dimY : UInt32) : RsType :=
  .create 0 objectCell { dimX := dimX, dimY := dimY, dimZ := 0, mDimLOD := false, faces := false, dimYuv := 0 }

private def copyOf (x w : UInt32) : CopyCall := .range2D ⟨x, 0, 0, 0, 0⟩ ⟨0, 0, 0, 0, 0⟩ w 1

theorem copies_counted_iff_itself : CopiesCounted (objects 3 2) none (copyOf 0 2) := by
  have isIn : (copyOf 0 2).dstBox.In (objects 3 2) := by
    constructor
    all_goals decide
  have plain : Plain (objects 3 2) := ⟨rfl, rfl⟩
  have fits : RowsFit (objects 3 2) := .inr ⟨by decide, by decide, by decide⟩
  have eq : (copyOf 0 2).srcBox = (copyOf 0 2).dstBox := rfl
  have srcIn : (copyOf 0 2).srcBox.In (Option.getD none (objects 3 2)) := eq.symm ▸ isIn
  apply (copies_counted_iff isIn srcIn fun _ => ⟨plain, fits⟩).mpr
  refine ⟨fun n lt => ?_, .inr ⟨rfl, fun _ _ => rfl⟩⟩
  have inside := isIn.inside plain fits lt
  exact ⟨inside, inside⟩

private def seven : Memory := fun i => if i = 0 then 7 else 0

/-- A cell with a handle is copied to another allocation, and within one allocation. -/
theorem copies_not_counted :
    (∃ p p', CountedBoth p ∧ p.Of (objects 1 0) (some (objects 1 0)) ∧ p.copy (copyOf 0 1) = some (.ok p') ∧
      p'.dst.refs 7 = 0 ∧ handleCount p'.dst.laid p'.dst.block 7 = 1) ∧
    ∃ p p', CountedBoth p ∧ p.Of (objects 2 0) none ∧ p.copy (copyOf 1 1) = some (.ok p') ∧
      p'.dst.refs 7 = 1 ∧ handleCount p'.dst.laid p'.dst.block 7 = 2 := by
  constructor
  · have counted : CountedBoth ⟨(start (objects 1 0)).1, some (counting (objects 1 0) seven)⟩ := by
      refine ⟨(Kept.start _).counted, fun a mem => ?_⟩
      cases mem
      exact fun ob _ => rfl
    refine ⟨_, _, counted, ⟨⟨rfl, rfl⟩, .some ⟨rfl, rfl⟩⟩, rfl, ?_, ?_⟩
    · decide
    · decide
  · refine ⟨countingPair (objects 2 0) none seven, _, countingPair_counted _ _ _, countingPair_of _ _ _, rfl, ?_, ?_⟩
    · decide
    · decide

end RenderScript.Uploads
