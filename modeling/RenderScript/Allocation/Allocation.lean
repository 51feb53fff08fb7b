import RenderScript.Element.ElementSize
import RenderScript.Types.RsType

/-!
# Allocations

The memory of an `Allocation`: the pointer table of driver/rsdAllocation.cpp, and the
data part of `serialize` and `createFromStream` of rsAllocation.cpp. A size in bytes
(`size_t`) is a natural number, and a pointer into the block is its offset. Accesses
outside the block have no value, and neither has a division by zero.
-/

namespace RenderScript.Allocations
open AlignedBytes RenderScript.Stream Elements RenderScript.Types

/-- The mask has 32 bits, whatever the type of `v` is. -/
def rsRound (v : Nat) (r : UInt32) : Nat :=
  if r &&& (r - 1) ≠ 0 then v else (v + (r - 1).toNat) &&& (~~~(r - 1)).toNat

structure LodState where
  mallocPtr : Nat := 0
  stride : Nat := 0
  dimX : UInt32 := 0
  dimY : UInt32 := 0
  dimZ : UInt32 := 0

def LodState.bytes (s : LodState) : Nat := s.stride * (max s.dimY 1).toNat * (max s.dimZ 1).toNat

/-- The entry of a level that starts at `mallocPtr`. -/
def LodState.ofLevel (eSize : Nat) (level : Level) (mallocPtr : Nat) : LodState where
  mallocPtr := mallocPtr
  stride := rsRound (level.x.toNat * eSize) 16
  dimX := level.x
  dimY := level.y
  dimZ := level.z

def MAX_LOD : Nat := 16

structure DrvState where
  lod : Nat → LodState
  lodCount : UInt32
  faceOffset : Nat
  faceCount : Bool

/-- The loop over the levels from `lod` on. It starts with the size of level 0, so that
level 1 gets it again. -/
def buildLods (eSize : Nat) : Nat → Nat → Level → Nat → (Nat → LodState) → (Nat → LodState) × Nat
  | 0, _, _, o, lods => (lods, o)
  | count + 1, lod, level, o, lods =>
    let state := LodState.ofLevel eSize level o
    buildLods eSize count (lod + 1) level.next (o + state.bytes) (Function.update lods lod state)

def HAL_PIXEL_FORMAT_YV12 : UInt32 := 0x32315659

/-- Entries 1 and 2 for the chroma planes, and their size. Other formats are filled in later. -/
def deriveYUVLayout (yuv : UInt32) (luma : LodState) : LodState × LodState × Nat :=
  let dimX := luma.dimX / 2
  let dimY := luma.dimY / 2
  let below := luma.stride * luma.dimY.toNat
  if yuv = HAL_PIXEL_FORMAT_YV12 then
    let stride := rsRound (luma.stride >>> 1) 16
    ({ mallocPtr := below + stride * dimY.toNat, stride := stride, dimX := dimX, dimY := dimY },
      { mallocPtr := below, stride := stride, dimX := dimX, dimY := dimY },
      stride * dimY.toNat + stride * dimY.toNat)
  else if yuv = HAL_PIXEL_FORMAT_YCrCb_420_SP then
    ({ mallocPtr := below + 1, stride := luma.stride, dimX := dimX, dimY := dimY },
      { mallocPtr := below, stride := luma.stride, dimX := dimX, dimY := dimY },
      luma.stride * dimY.toNat)
  else ({ dimX := dimX, dimY := dimY }, { dimX := dimX, dimY := dimY }, 0)

def allocationBuildPointerTable (t : RsType) : DrvState :=
  let eSize := t.mElement.getSizeBytes
  let level : Level := { x := t.dimX, y := t.dimY, z := t.dimZ }
  let first := LodState.ofLevel eSize level 0
  let lods := Function.update (fun _ => ({} : LodState)) 0 first
  if t.mLodCount > 1 then
    let built := buildLods eSize (t.mLodCount.toNat - 1) 1 level first.bytes lods
    { lod := built.1, lodCount := t.mLodCount, faceOffset := built.2, faceCount := t.faces }
  else if t.dimYuv ≠ 0 then
    let (one, two, uvSize) := deriveYUVLayout t.dimYuv first
    { lod := Function.update (Function.update lods 1 one) 2 two, lodCount := 3, faceOffset := first.bytes + uvSize
      faceCount := t.faces }
  else { lod := lods, lodCount := t.mLodCount, faceOffset := first.bytes, faceCount := t.faces }

def DrvState.allocSize (d : DrvState) : Nat := if d.faceCount then d.faceOffset * 6 else d.faceOffset

def getOffsetPtr (d : DrvState) (elementSizeBytes : UInt32) (xoff yoff zoff : UInt32) (lod : Nat)
    (face : Nat) : Nat :=
  (d.lod lod).mallocPtr + face * d.faceOffset +
    (zoff * (d.lod lod).dimY).toNat * (d.lod lod).stride + yoff.toNat * (d.lod lod).stride +
    (xoff * elementSizeBytes).toNat

def getPackedSizeBytes (t : RsType) : Nat := t.mCellCount.toNat * t.mElement.getSizeBytes

def getPackedSize (t : RsType) : Option UInt32 := do
  let unpadded ← t.mElement.getSizeBytesUnpadded
  return .ofNat (t.mCellCount.toUInt32.toNat * unpadded)

/-- `memcpy` into a block of `size` bytes. -/
def memcpy (size : Nat) (block : Nat → UInt8) (dst : Nat) (bytes : List UInt8) :
    Option (Nat → UInt8) :=
  if dst + bytes.length ≤ size then
    some fun index => if index < dst then block index else (bytes[index - dst]?).getD (block index)
  else none

def copyPlaces (dstSize : Nat) (src : Nat → Option UInt8) (srcAt dstAt : Nat) (dstPadded : Bool) :
    List FieldPlace → (Nat → UInt8) → Option (Nat → UInt8)
  | [], dst => some dst
  | place :: rest, dst => do
      let srcOffset := if dstPadded then place.offsetUnpadded else place.offset
      let dstOffset := if dstPadded then place.offset else place.offsetUnpadded
      let bytes ← readAt src (srcAt + srcOffset.toNat) place.sizeUnpadded.toNat
      let dst ← memcpy dstSize dst (dstAt + dstOffset.toNat) bytes
      copyPlaces dstSize src srcAt dstAt dstPadded rest dst

def copyItems (dstSize : Nat) (src : Nat → Option UInt8) (srcInc dstInc : Nat) (dstPadded : Bool)
    (places : List FieldPlace) : Nat → Nat → Nat → (Nat → UInt8) → Option (Nat → UInt8)
  | 0, _, _, dst => some dst
  | items + 1, srcAt, dstAt, dst => do
      let dst ← copyPlaces dstSize src srcAt dstAt dstPadded places dst
      copyItems dstSize src srcInc dstInc dstPadded places items (srcAt + srcInc) (dstAt + dstInc) dst

def writePackedData (t : RsType) (dstSize : Nat) (dst : Nat → UInt8) (src : Nat → Option UInt8)
    (dstPadded : Bool) : Option (Nat → UInt8) := do
  let unpadded ← t.mElement.getSizeBytesUnpadded
  let places ← t.mElement.places
  let unpaddedBytes := UInt32.ofNat unpadded
  let paddedBytes := UInt32.ofNat t.mElement.getSizeBytes
  if paddedBytes = 0 then none
  else
    let numItems := UInt32.ofNat (getPackedSizeBytes t / paddedBytes.toNat)
    let srcInc := if dstPadded then unpaddedBytes else paddedBytes
    let dstInc := if dstPadded then paddedBytes else unpaddedBytes
    copyItems dstSize src srcInc.toNat dstInc.toNat dstPadded places numItems.toNat 0 0 dst

/-- What may be read of a block of `size` bytes. -/
def lookBlock (size : Nat) (block : Nat → UInt8) (index : Nat) : Option UInt8 :=
  if index < size then some (block index) else none

/-- The calls that write the data of a block. `scratch` is what `new` hands out. -/
def serializeData (t : RsType) (scratch block : Nat → UInt8) : Option (List Value) := do
  let size := (allocationBuildPointerTable t).allocSize
  let dataSize := UInt32.ofNat (getPackedSizeBytes t)
  let packedSize ← getPackedSize t
  if dataSize = packedSize then
    let bytes ← readAt (lookBlock size block) 0 dataSize.toNat
    return [.u32 packedSize, .byteArray bytes]
  else
    let unpadded ← t.mElement.getSizeBytesUnpadded
    let dstSize := (t.mCellCount.toUInt32 * .ofNat unpadded).toNat
    let dst ← writePackedData t dstSize scratch (lookBlock size block) false
    let bytes ← readAt (lookBlock dstSize dst) 0 packedSize.toNat
    return [.u32 packedSize, .byteArray bytes]

/-- The data part of `createFromStream`, into a new block. No block when the size is
refused; nothing is copied when `data` refuses it. -/
def loadData (t : RsType) (fresh : Nat → UInt8) : Load (Option (Nat → UInt8)) := do
  let size := (allocationBuildPointerTable t).allocSize
  let eSize := t.mElement.getSizeBytes
  let dataSize ← IStream.loadU32
  let packedSize ← getPackedSize t
  if dataSize.toNat ≠ getPackedSizeBytes t ∧ dataSize ≠ packedSize then
    return none
  let s ← get
  let src (index : Nat) := s.look (s.mPos.toNat + index)
  let block ←
    if dataSize.toNat = getPackedSizeBytes t then
      if eSize = 0 then failure
      else
        let count := UInt32.ofNat (dataSize.toNat / eSize)
        if count.toNat * eSize ≠ dataSize.toNat then pure fresh
        else do
          let bytes ← readAt src 0 (count.toNat * eSize)
          memcpy size fresh 0 bytes
    else writePackedData t size fresh src true
  modify fun s => { s with mPos := s.mPos + dataSize.toUInt64 }
  return some block

end RenderScript.Allocations
