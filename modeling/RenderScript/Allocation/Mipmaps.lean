import RenderScript.Foundation.Sweeps
import RenderScript.Allocation.CopyBoxes

/-!
# Mipmaps

`rsdAllocationGenerateMipmaps` of driver/rsdAllocation.cpp, with the filters of rsCppUtils.h. A
texel is a little-endian number. As in other places, accesses outside the block have no value.
-/

namespace RenderScript.Copies
open AlignedBytes ByteMemory Elements RenderScript.Types Allocations List Option

def rsBoxFilter565 (i1 i2 i3 i4 : UInt16) : UInt16 :=
  let r : UInt32 := (i1 &&& 0x1f).toUInt32 + (i2 &&& 0x1f).toUInt32 + (i3 &&& 0x1f).toUInt32 +
    (i4 &&& 0x1f).toUInt32
  let g : UInt32 := ((i1 >>> 5) &&& 0x3f).toUInt32 + ((i2 >>> 5) &&& 0x3f).toUInt32 +
    ((i3 >>> 5) &&& 0x3f).toUInt32 + ((i4 >>> 5) &&& 0x3f).toUInt32
  let b : UInt32 := (i1 >>> 11).toUInt32 + (i2 >>> 11).toUInt32 + (i3 >>> 11).toUInt32 + (i4 >>> 11).toUInt32
  ((r >>> 2) ||| ((g >>> 2) <<< 5) ||| ((b >>> 2) <<< 11)).toUInt16

/-- `(i >> shift) & 0xff` -/
def channel8 (i shift : UInt32) : UInt32 := (i >>> shift) &&& 0xff

def rsBoxFilter8888 (i1 i2 i3 i4 : UInt32) : UInt32 :=
  let r : UInt32 := (i1 &&& 0xff) + (i2 &&& 0xff) + (i3 &&& 0xff) + (i4 &&& 0xff)
  let g : UInt32 := channel8 i1 8 + channel8 i2 8 + channel8 i3 8 + channel8 i4 8
  let b : UInt32 := channel8 i1 16 + channel8 i2 16 + channel8 i3 16 + channel8 i4 16
  let a : UInt32 := channel8 i1 24 + channel8 i2 24 + channel8 i3 24 + channel8 i4 24
  (r >>> 2) ||| ((g >>> 2) <<< 8) ||| ((b >>> 2) <<< 16) ||| ((a >>> 2) <<< 24)

abbrev BoxFilter := Nat → Nat → Nat → Nat → Nat

def boxFilter565 : BoxFilter := fun i1 i2 i3 i4 =>
  (rsBoxFilter565 (.ofNat i1) (.ofNat i2) (.ofNat i3) (.ofNat i4)).toNat

def boxFilter8888 : BoxFilter := fun i1 i2 i3 i4 =>
  (rsBoxFilter8888 (.ofNat i1) (.ofNat i2) (.ofNat i3) (.ofNat i4)).toNat

def boxFilter8 : BoxFilter := fun i1 i2 i3 i4 =>
  (UInt8.ofNat ((i1 + i2 + i3 + i4) / 4)).toNat

def wordAt (memory : Memory) (size ptr : Nat) : Nat := decode (read memory ⟨ptr, size⟩)

def wordBytes (size value : Nat) : Memory := fun i => ((encode size value)[i]?).getD 0

def Alloc.fetch (a : Alloc) (size ptr : Nat) : Option Nat :=
  if ptr + size ≤ a.table.allocSize then some (wordAt a.block size ptr) else none

/-- The loop over `x`, with `oPtr ++`, `i1 += 2` and `i2 += 2`. -/
def mipLine (size : Nat) (filter : BoxFilter) : Nat → Nat → Nat → Nat → Alloc → Option Alloc
  | 0, _, _, _, a => some a
  | count + 1, oPtr, i1, i2, a => do
      let first ← a.fetch size i1
      let second ← a.fetch size (i1 + size)
      let third ← a.fetch size i2
      let fourth ← a.fetch size (i2 + size)
      let a ← a.store oPtr size (wordBytes size (filter first second third fourth))
      mipLine size filter count (oPtr + size) (i1 + 2 * size) (i2 + 2 * size) a

/-- The loop over `y`. Lines of the level are at `row`, and those of the next one at `next`. -/
def mipLines (size : Nat) (filter : BoxFilter) (row next : UInt32 → Nat) (w : Nat) :
    Nat → UInt32 → Alloc → Option Alloc
  | 0, _, a => some a
  | lines + 1, y, a => do
      let a ← mipLine size filter w (next y) (row (y * 2)) (row (y * 2 + 1)) a
      mipLines size filter row next w lines (y + 1) a

namespace Alloc

variable (a : Alloc)

def mip (size : Nat) (filter : BoxFilter) (row : UInt32 → Nat) (lod face : Nat) : Option Alloc :=
  let w := (a.table.lod (lod + 1)).dimX
  let h := (a.table.lod (lod + 1)).dimY
  mipLines size filter row (fun y => a.getOffsetPtr 0 y 0 (lod + 1) face) w.toNat h.toNat 0 a

def mip565 (lod face : Nat) : Option Alloc :=
  a.mip 2 boxFilter565 (fun y => a.getOffsetPtr 0 0 y lod face) lod face

def mip8888 (lod face : Nat) : Option Alloc :=
  a.mip 4 boxFilter8888 (fun y => a.getOffsetPtr 0 y 0 lod face) lod face

def mip8 (lod face : Nat) : Option Alloc :=
  a.mip 1 boxFilter8 (fun y => a.getOffsetPtr 0 y 0 lod face) lod face

/-- The `switch`. -/
def mipLevel (lod face : Nat) : Option Alloc :=
  if a.type.mElement.getSizeBits = 32 then a.mip8888 lod face
  else if a.type.mElement.getSizeBits = 16 then a.mip565 lod face
  else if a.type.mElement.getSizeBits = 8 then a.mip8 lod face
  else some a

end Alloc

def mipLevels (face : Nat) : Nat → Nat → Alloc → Option Alloc
  | 0, _, a => some a
  | count + 1, lod, a => do
      let a ← a.mipLevel lod face
      mipLevels face count (lod + 1) a

def mipFaces (levels : Nat) : Nat → Nat → Alloc → Option Alloc
  | 0, _, a => some a
  | count + 1, face, a => do
      let a ← mipLevels face levels 0 a
      mipFaces levels count (face + 1) a

def Alloc.rsdAllocationGenerateMipmaps (a : Alloc) : Option Alloc :=
  let numFaces := if a.type.faces then 6 else 1
  mipFaces (a.type.mLodCount - 1).toNat numFaces 0 a

open LineCopies Stacking Sweeps

def channels (bits value : Nat) : List Nat :=
  if bits = 32 then [value % 256, value / 256 % 256, value / 65536 % 256, value / 16777216]
  else if bits = 16 then [value % 32, value / 32 % 64, value / 2048]
  else [value]

def average (a b c d : List Nat) : List Nat :=
  (List.zipWith (· + ·) (List.zipWith (· + ·) (List.zipWith (· + ·) a b) c) d).map (· / 4)

structure Averaging (bits : Nat) (filter : BoxFilter) : Prop where
  small : ∀ {a b c d : Nat}, a < 2 ^ bits → b < 2 ^ bits → c < 2 ^ bits → d < 2 ^ bits →
    filter a b c d < 2 ^ bits
  channels : ∀ {a b c d : Nat}, a < 2 ^ bits → b < 2 ^ bits → c < 2 ^ bits → d < 2 ^ bits →
    channels bits (filter a b c d) =
      average (channels bits a) (channels bits b) (channels bits c) (channels bits d)

theorem toNat_and_ff (i : UInt32) : (i &&& 0xff).toNat = i.toNat % 256 := by
  exact Nat.and_two_pow_sub_one_eq_mod _ 8

theorem toNat_channel8 (i : UInt32) {shift : UInt32} (small : shift.toNat < 32) :
    (channel8 i shift).toNat = i.toNat / 2 ^ shift.toNat % 256 := by
  rw [channel8, toNat_and_ff, UInt32.toNat_shiftRight, Nat.mod_eq_of_lt small, Nat.shiftRight_eq_div_pow]

theorem toNat_quarter {a b c d : UInt32} {bound : Nat} (small : bound ≤ 256) (inA : a.toNat < bound)
    (inB : b.toNat < bound) (inC : c.toNat < bound) (inD : d.toNat < bound) :
    ((a + b + c + d) >>> 2).toNat = (a.toNat + b.toNat + c.toNat + d.toNat) / 4 ∧
      (a.toNat + b.toNat + c.toNat + d.toNat) / 4 < bound := by
  have sum : (a + b + c + d).toNat = a.toNat + b.toNat + c.toNat + d.toNat := by
    rw [UInt32.toNat_add, UInt32.toNat_add, UInt32.toNat_add]
    omega
  refine ⟨?_, by omega⟩
  rw [UInt32.toNat_shiftRight, sum, Nat.shiftRight_eq_div_pow]
  rfl

theorem toNat_or_shiftLeft {low high shift : UInt32} {bound : Nat} (shifts : shift.toNat < 32)
    (lt : low.toNat < 2 ^ shift.toNat) (inHigh : high.toNat < bound) (room : 2 ^ shift.toNat * bound ≤ 2 ^ 32) :
    (low ||| high <<< shift).toNat = low.toNat + 2 ^ shift.toNat * high.toNat ∧
      low.toNat + 2 ^ shift.toNat * high.toNat < 2 ^ shift.toNat * bound := by
  have top : 2 ^ shift.toNat * (high.toNat + 1) ≤ 2 ^ shift.toNat * bound := Nat.mul_le_mul_left _ inHigh
  rw [Nat.mul_succ] at top
  refine ⟨?_, by omega⟩
  rw [UInt32.toNat_or, UInt32.toNat_shiftLeft, Nat.mod_eq_of_lt shifts, Nat.shiftLeft_eq, mul_comm,
    Nat.mod_eq_of_lt (by omega), Nat.or_comm, ← Nat.two_pow_add_eq_or_of_lt lt, add_comm]

theorem toNat_rsBoxFilter8888 (i1 i2 i3 i4 : UInt32) :
    let mean (shift : Nat) := (i1.toNat / 2 ^ shift % 256 + i2.toNat / 2 ^ shift % 256 +
      i3.toNat / 2 ^ shift % 256 + i4.toNat / 2 ^ shift % 256) / 4
    (rsBoxFilter8888 i1 i2 i3 i4).toNat = mean 0 + 2 ^ 8 * mean 8 + 2 ^ 16 * mean 16 + 2 ^ 24 * mean 24 ∧
      mean 0 < 256 ∧ mean 8 < 256 ∧ mean 16 < 256 ∧ mean 24 < 256 := by
  have byte (n : Nat) : n % 256 < 256 := Nat.mod_lt _ (by decide)
  have low (i : UInt32) := (toNat_and_ff i).trans_lt (byte _)
  have small (i : UInt32) {shift : UInt32} (shifts : shift.toNat < 32) := (toNat_channel8 i shifts).trans_lt (byte _)
  obtain ⟨r, inR⟩ := toNat_quarter le_rfl (low i1) (low i2) (low i3) (low i4)
  have at8 : (8 : UInt32).toNat < 32 := by decide
  have at16 : (16 : UInt32).toNat < 32 := by decide
  have at24 : (24 : UInt32).toNat < 32 := by decide
  obtain ⟨g, inG⟩ := toNat_quarter le_rfl (small i1 at8) (small i2 at8) (small i3 at8) (small i4 at8)
  obtain ⟨b, inB⟩ := toNat_quarter le_rfl (small i1 at16) (small i2 at16) (small i3 at16) (small i4 at16)
  obtain ⟨a, inA⟩ := toNat_quarter le_rfl (small i1 at24) (small i2 at24) (small i3 at24) (small i4 at24)
  obtain ⟨rg, inRG⟩ := toNat_or_shiftLeft at8 (r.trans_lt inR) (g.trans_lt inG) (by decide)
  obtain ⟨rgb, inRGB⟩ := toNat_or_shiftLeft at16 (rg.trans_lt inRG) (b.trans_lt inB) (by decide)
  obtain ⟨rgba, -⟩ := toNat_or_shiftLeft at24 (rgb.trans_lt inRGB) (a.trans_lt inA) (by decide)
  rw [rgb, rg, r, g, b, a] at rgba
  simp only [toNat_and_ff] at rgba inR
  simp only [toNat_channel8 _ at8] at rgba inG
  simp only [toNat_channel8 _ at16] at rgba inB
  simp only [toNat_channel8 _ at24] at rgba inA
  refine ⟨?_, ?_, inG, inB, inA⟩
  · simp only [pow_zero, Nat.div_one]
    exact rgba
  · simp only [pow_zero, Nat.div_one]
    exact inR

theorem channels_join8888 {r g b a : Nat} (inR : r < 256) (inG : g < 256) (inB : b < 256) :
    channels 32 (r + 2 ^ 8 * g + 2 ^ 16 * b + 2 ^ 24 * a) = [r, g, b, a] := by
  rw [channels, if_pos rfl, cons.injEq, cons.injEq, cons.injEq, cons.injEq]
  refine ⟨?_, ?_, ?_, ?_, rfl⟩
  · omega
  · omega
  · omega
  · omega

theorem channels_split8888 {value : Nat} (small : value < 2 ^ 32) :
    channels 32 value = [value / 2 ^ 0 % 256, value / 2 ^ 8 % 256, value / 2 ^ 16 % 256, value / 2 ^ 24 % 256] := by
  have top : value / 2 ^ 24 % 256 = value / 16777216 := Nat.mod_eq_of_lt (by omega)
  rw [top, pow_zero, Nat.div_one]
  rfl

theorem averaging8888 : Averaging 32 boxFilter8888 := by
  have loaded {a : Nat} (small : a < 2 ^ 32) := UInt32.toNat_ofNat_of_lt' small
  constructor
  · intro a b c d _ _ _ _
    exact UInt32.toNat_lt _
  · intro a b c d inA inB inC inD
    obtain ⟨value, m0, m8, m16, m24⟩ := toNat_rsBoxFilter8888 (.ofNat a) (.ofNat b) (.ofNat c) (.ofNat d)
    simp only [loaded inA, loaded inB, loaded inC, loaded inD] at value m0 m8 m16 m24
    rw [boxFilter8888, value, channels_join8888 m0 m8 m16, channels_split8888 inA, channels_split8888 inB,
      channels_split8888 inC, channels_split8888 inD]
    rfl

theorem toNat_rsBoxFilter565 (i1 i2 i3 i4 : UInt16) :
    let r := (i1.toNat % 32 + i2.toNat % 32 + i3.toNat % 32 + i4.toNat % 32) / 4
    let g := (i1.toNat / 32 % 64 + i2.toNat / 32 % 64 + i3.toNat / 32 % 64 + i4.toNat / 32 % 64) / 4
    let b := (i1.toNat / 2048 + i2.toNat / 2048 + i3.toNat / 2048 + i4.toNat / 2048) / 4
    (rsBoxFilter565 i1 i2 i3 i4).toNat = r + 2 ^ 5 * g + 2 ^ 11 * b ∧ r < 32 ∧ g < 64 ∧ b < 32 := by
  have low (i : UInt16) : (i &&& 0x1f).toUInt32.toNat = i.toNat % 32 := by
    exact Nat.and_two_pow_sub_one_eq_mod _ 5
  have mid (i : UInt16) : ((i >>> 5) &&& 0x3f).toUInt32.toNat = i.toNat / 32 % 64 := by
    rw [UInt16.toNat_toUInt32, UInt16.toNat_and, UInt16.toNat_shiftRight, Nat.shiftRight_eq_div_pow]
    exact Nat.and_two_pow_sub_one_eq_mod _ 6
  have high (i : UInt16) : (i >>> 11).toUInt32.toNat = i.toNat / 2048 := by
    rw [UInt16.toNat_toUInt32, UInt16.toNat_shiftRight, Nat.shiftRight_eq_div_pow]
    rfl
  have inLow (i : UInt16) := (low i).trans_lt (Nat.mod_lt _ (by decide))
  have inMiddle (i : UInt16) := (mid i).trans_lt (Nat.mod_lt _ (by decide))
  have inHigh (i : UInt16) : (i >>> 11).toUInt32.toNat < 32 := by
    have word := i.toNat_lt
    rw [high]
    omega
  obtain ⟨r, inR⟩ := toNat_quarter (by decide) (inLow i1) (inLow i2) (inLow i3) (inLow i4)
  obtain ⟨g, inG⟩ := toNat_quarter (by decide) (inMiddle i1) (inMiddle i2) (inMiddle i3) (inMiddle i4)
  obtain ⟨b, inB⟩ := toNat_quarter (by decide) (inHigh i1) (inHigh i2) (inHigh i3) (inHigh i4)
  obtain ⟨rg, inRG⟩ := @toNat_or_shiftLeft _ _ 5 _ (by decide) (r.trans_lt inR) (g.trans_lt inG) (by decide)
  obtain ⟨rgb, inRGB⟩ := @toNat_or_shiftLeft _ _ 11 _ (by decide) (rg.trans_lt inRG) (b.trans_lt inB) (by decide)
  rw [← rgb] at inRGB
  have kept := (UInt32.toNat_toUInt16 _).trans (Nat.mod_eq_of_lt inRGB)
  rw [rgb, rg, r, g, b] at kept
  simp only [low, mid, high] at kept inR inG inB
  exact ⟨kept, inR, inG, inB⟩

theorem channels_join565 {r g b : Nat} (inR : r < 32) (inG : g < 64) : channels 16 (r + 2 ^ 5 * g + 2 ^ 11 * b) = [r, g, b] := by
  rw [channels, if_neg (by decide), if_pos rfl, cons.injEq, cons.injEq, cons.injEq]
  refine ⟨?_, ?_, ?_, rfl⟩
  · omega
  · omega
  · omega

theorem averaging565 : Averaging 16 boxFilter565 := by
  have loaded {a : Nat} (small : a < 2 ^ 16) := UInt16.toNat_ofNat_of_lt' small
  constructor
  · intro a b c d _ _ _ _
    exact UInt16.toNat_lt _
  · intro a b c d inA inB inC inD
    obtain ⟨value, inR, inG, -⟩ := toNat_rsBoxFilter565 (.ofNat a) (.ofNat b) (.ofNat c) (.ofNat d)
    simp only [loaded inA, loaded inB, loaded inC, loaded inD] at value inR inG
    rw [boxFilter565, value, channels_join565 inR inG]
    rfl

theorem averaging8 : Averaging 8 boxFilter8 := by
  have kept {a b c d : Nat} (inA : a < 2 ^ 8) (inB : b < 2 ^ 8) (inC : c < 2 ^ 8) (inD : d < 2 ^ 8) :
      boxFilter8 a b c d = (a + b + c + d) / 4 := by
    have small : (a + b + c + d) / 4 < 2 ^ 8 := by omega
    exact UInt8.toNat_ofNat_of_lt' small
  constructor
  · intro a b c d _ _ _ _
    exact UInt8.toNat_lt _
  · intro a b c d inA inB inC inD
    rw [kept inA inB inC inD]
    rfl

section

variable {memory other : Memory} {size ptr value : Nat}

theorem wordAt_congr (same : ∀ i < size, memory (ptr + i) = other (ptr + i)) : wordAt memory size ptr = wordAt other size ptr :=
  congrArg decode (map_congr_left fun i mem => same i (mem_range.mp mem))

theorem wordAt_of_bytes (bytes : ∀ i < size, memory (ptr + i) = wordBytes size value i)
    (small : value < 256 ^ size) : wordAt memory size ptr = value := by
  have encoded : read memory ⟨ptr, size⟩ = encode size value := by
    apply ext_getElem
    · simp [ByteMemory.read, length_encode]
    · intro i inRead inWord
      rw [length_encode] at inWord
      simp only [ByteMemory.read, getElem_map, getElem_range]
      rw [bytes i inWord, wordBytes, List.getElem?_eq_getElem]
      rfl
  rw [wordAt, encoded, decode_encode small]

theorem wordAt_lt : wordAt memory size ptr < 256 ^ size := by
  have bound := decode_lt (ByteMemory.read memory ⟨ptr, size⟩)
  rwa [ByteMemory.read, length_map, length_range] at bound

end

section

variable {a after : Alloc} {size : Nat} {filter : BoxFilter}

theorem Alloc.fetch_eq_some_iff {ptr value : Nat} :
    a.fetch size ptr = some value ↔ ptr + size ≤ a.table.allocSize ∧ wordAt a.block size ptr = value := by
  rw [Alloc.fetch, ite_none_right_eq_some, some_inj]

theorem Alloc.store_eq_some_iff {dst : Nat} {src : Memory} : a.store dst size src = some after ↔
      dst + size ≤ a.table.allocSize ∧ { a with block := write a.block ⟨dst, size⟩ src } = after := by
  rw [Alloc.store, ite_none_right_eq_some, some_inj]

def boxBytes (size : Nat) (filter : BoxFilter) (i1 i2 : Nat) (memory : Memory) : Memory :=
  wordBytes size (filter (wordAt memory size i1) (wordAt memory size (i1 + size)) (wordAt memory size i2)
    (wordAt memory size (i2 + size)))

theorem mipLine_iff {w oPtr i1 i2 : Nat} : mipLine size filter w oPtr i1 i2 a = some after ↔
      (∀ x < w, oPtr + x * size + size ≤ a.table.allocSize ∧
        i1 + x * (2 * size) + 2 * size ≤ a.table.allocSize ∧ i2 + x * (2 * size) + 2 * size ≤ a.table.allocSize) ∧
      { a with
        block := sweep size (fun x => oPtr + x * size)
          (fun x => boxBytes size filter (i1 + x * (2 * size)) (i2 + x * (2 * size))) w a.block } = after := by
  induction w generalizing oPtr i1 i2 a with
  | zero =>
    rw [mipLine, some_inj]
    exact ⟨fun eq => ⟨fun _ below => absurd below (Nat.not_lt_zero _), eq⟩, fun both => both.2⟩
  | succ w ih =>
    have place (p x step : Nat) : p + step + x * step = p + (x + 1) * step := by
      rw [Nat.succ_mul]
      omega
    rw [mipLine]
    simp only [bind_eq_bind, bind_eq_some_iff, Alloc.fetch_eq_some_iff, Alloc.store_eq_some_iff,
      and_assoc, exists_and_left, exists_eq_left', ih, place]
    have blocks : sweep size (fun x => oPtr + x * size)
          (fun x => boxBytes size filter (i1 + x * (2 * size)) (i2 + x * (2 * size))) (w + 1) a.block =
        sweep size (fun x => oPtr + (x + 1) * size)
          (fun x => boxBytes size filter (i1 + (x + 1) * (2 * size)) (i2 + (x + 1) * (2 * size))) w
          (write a.block ⟨oPtr, size⟩ (boxBytes size filter i1 i2 a.block)) := by
      rw [add_comm w 1, sweep_add]
      simp only [add_comm 1, sweep, Nat.zero_mul, add_zero]
    rw [blocks, Nat.forall_lt_succ_left]
    simp only [Nat.zero_mul, add_zero]
    constructor
    · rintro ⟨-, second, -, fourth, out, rest, rfl⟩
      exact ⟨⟨⟨out, by omega, by omega⟩, rest⟩, rfl⟩
    · rintro ⟨⟨⟨out, inFirst, inSecond⟩, rest⟩, rfl⟩
      exact ⟨by omega, by omega, by omega, by omega, out, rest, rfl⟩

/-- Where the texel of step `s` goes. Steps are counted line by line, from line `y` on. -/
def stepTarget (size w : Nat) (next : UInt32 → Nat) (y : UInt32) (s : Nat) : Nat :=
  next (y + .ofNat (s / w)) + s % w * size

def stepBytes (size w : Nat) (filter : BoxFilter) (row : UInt32 → Nat) (y : UInt32) (s : Nat) : Memory → Memory :=
  boxBytes size filter (row ((y + .ofNat (s / w)) * 2) + s % w * (2 * size))
    (row ((y + .ofNat (s / w)) * 2 + 1) + s % w * (2 * size))

structure StepInside (bound size : Nat) (row next : UInt32 → Nat) (y : UInt32) (x : Nat) : Prop where
  out : next y + x * size + size ≤ bound
  first : row (y * 2) + x * (2 * size) + 2 * size ≤ bound
  second : row (y * 2 + 1) + x * (2 * size) + 2 * size ≤ bound

variable {w : Nat} {row next : UInt32 → Nat} {y : UInt32}

theorem ofNat_succ_add (y : UInt32) (k : Nat) : y + .ofNat (k + 1) = y + 1 + .ofNat k := by
  rw [UInt32.ofNat_add, UInt32.add_comm (.ofNat k), ← add_assoc]
  rfl

theorem add_ofNat_zero (y : UInt32) : y + .ofNat 0 = y := add_zero y

theorem sweep_line (lines : Nat) (memory : Memory) :
    sweep size (stepTarget size w next y) (stepBytes size w filter row y) ((lines + 1) * w) memory =
      sweep size (stepTarget size w next (y + 1)) (stepBytes size w filter row (y + 1)) (lines * w)
        (sweep size (fun x => next y + x * size)
          (fun x => boxBytes size filter (row (y * 2) + x * (2 * size)) (row (y * 2 + 1) + x * (2 * size))) w
          memory) := by
  have first : sweep size (stepTarget size w next y) (stepBytes size w filter row y) w memory =
      sweep size (fun x => next y + x * size)
        (fun x => boxBytes size filter (row (y * 2) + x * (2 * size)) (row (y * 2 + 1) + x * (2 * size))) w
        memory := by
    apply sweep_congr
    · intro x lt
      rw [stepTarget, Nat.div_eq_of_lt lt, Nat.mod_eq_of_lt lt, add_ofNat_zero]
    · intro x lt
      rw [stepBytes, Nat.div_eq_of_lt lt, Nat.mod_eq_of_lt lt, add_ofNat_zero]
  rw [Nat.succ_mul, add_comm (lines * w) w, sweep_add, first]
  apply sweep_congr
  · intro s lt
    have some : 0 < w := Nat.pos_of_mul_pos_left ((Nat.zero_le s).trans_lt lt)
    rw [stepTarget, stepTarget, Nat.add_mod_left, Nat.add_div_left _ some, ofNat_succ_add]
  · intro s lt
    have some : 0 < w := Nat.pos_of_mul_pos_left ((Nat.zero_le s).trans_lt lt)
    rw [stepBytes, stepBytes, Nat.add_mod_left, Nat.add_div_left _ some, ofNat_succ_add]

theorem mipLines_iff {lines : Nat} : mipLines size filter row next w lines y a = some after ↔
      (∀ k < lines, ∀ x < w, StepInside a.table.allocSize size row next (y + .ofNat k) x) ∧
      { a with block := sweep size (stepTarget size w next y) (stepBytes size w filter row y) (lines * w) a.block } =
        after := by
  induction lines generalizing y a with
  | zero =>
    rw [mipLines, some_inj, Nat.zero_mul]
    exact ⟨fun eq => ⟨fun _ lt => absurd lt (Nat.not_lt_zero _), eq⟩, fun both => both.2⟩
  | succ lines ih =>
    rw [mipLines]
    simp only [bind_eq_bind, bind_eq_some_iff, mipLine_iff, ih, Nat.forall_lt_succ_left,
      ofNat_succ_add, add_ofNat_zero, sweep_line]
    constructor
    · rintro ⟨mid, ⟨first, rfl⟩, rest, rfl⟩
      exact ⟨⟨fun x lt => ⟨(first x lt).1, (first x lt).2.1, (first x lt).2.2⟩, rest⟩, rfl⟩
    · rintro ⟨⟨first, rest⟩, rfl⟩
      exact ⟨_, ⟨fun x lt => ⟨(first x lt).out, (first x lt).first, (first x lt).second⟩, rfl⟩, rest, rfl⟩

end

end RenderScript.Copies
