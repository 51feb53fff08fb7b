import RenderScript.Element.Element

/-!
# Files of objects

`appendToFile`, `writeFile`, `parseHeader` and `load` of rsFileA3D.cpp. A file is its bytes,
and a function that leaves a buffer has no value. `mUse64BitOffsets` is not initialised by
the constructor.
-/

namespace RenderScript.A3DFile
open AlignedBytes RenderScript.Stream Elements

/-- What is asked of an object. `serialize` is the list of the calls on the stream. -/
structure ObjectBase where
  getName : CString
  getClassId : UInt32
  serialize : List Value

structure A3DIndexEntry where
  mObjectName : CString
  mType : UInt32
  mOffset : UInt64
  mLength : UInt64
  deriving DecidableEq

structure FileA3D where
  mMajorVersion : UInt32 := 0
  mMinorVersion : UInt32 := 1
  mUse64BitOffsets : Bool
  mDataSize : UInt64 := 0
  mWriteStream : Option OStream := none
  mWriteIndex : List A3DIndexEntry := []
  mReadStream : Option IStream := none
  mIndex : List A3DIndexEntry := []

section

variable (malloc : UInt64 → Nat → UInt8)

def FileA3D.stream (file : FileA3D) : OStream :=
  file.mWriteStream.getD (OStream.create malloc (256 * 1024) false)

def FileA3D.appendToFile (file : FileA3D) : Option ObjectBase → Option FileA3D
  | none => some file
  | some obj => do
      let stream := file.stream malloc
      let after ← stream.addAll malloc obj.serialize
      let indexEntry : A3DIndexEntry :=
        { mObjectName := obj.getName, mType := obj.getClassId, mOffset := stream.mPos, mLength := after.mPos - stream.mPos }
      return { file with mWriteStream := some (after.align malloc 4), mWriteIndex := file.mWriteIndex ++ [indexEntry] }

def FileA3D.appendAll (file : FileA3D) (objs : List ObjectBase) : Option FileA3D :=
  objs.foldlM (fun file obj => file.appendToFile malloc (some obj)) file

/-- `A3D_MAGIC_KEY`, "Android3D_ff". -/
def A3D_MAGIC_KEY : List UInt8 := [65, 110, 100, 114, 111, 105, 100, 51, 68, 95, 102, 102]

def A3DIndexEntry.calls (mUse64BitOffsets : Bool) (entry : A3DIndexEntry) : List Value :=
  [.string entry.mObjectName.bytes, .u32 entry.mType] ++
    if mUse64BitOffsets then [.offset entry.mOffset, .offset entry.mLength]
    else [.u32 entry.mOffset.toUInt32, .u32 entry.mLength.toUInt32]

def FileA3D.header (file : FileA3D) : List Value :=
  let is64Bit : UInt32 := 0
  let writeIndexSize : UInt32 := .ofNat file.mWriteIndex.length
  [.u32 file.mMajorVersion, .u32 file.mMinorVersion, .u32 is64Bit, .u32 writeIndexSize] ++
    (file.mWriteIndex.take writeIndexSize.toNat).flatMap (A3DIndexEntry.calls file.mUse64BitOffsets)

def FileA3D.writeFile (file : FileA3D) : Option (Option (List UInt8)) :=
  match file.mWriteStream with
  | none => some none
  | some stream =>
    if stream.mPos = 0 then some none
    else do
      let headerStream ← (OStream.create malloc (5 * 1024) false).addAll malloc file.header
      return some (A3D_MAGIC_KEY ++ encode 8 headerStream.mPos.toNat ++ headerStream.bytes ++
        encode 8 stream.mPos.toNat ++ stream.bytes)

end

def parseEntry (mUse64BitOffsets : Bool) : Load A3DIndexEntry := do
  let name ← IStream.loadString
  let type ← IStream.loadU32
  if mUse64BitOffsets then
    let offset ← IStream.loadOffset
    let length ← IStream.loadOffset
    return { mObjectName := .ofBuffer name, mType := type, mOffset := offset, mLength := length }
  else
    let offset ← IStream.loadU32
    let length ← IStream.loadU32
    return { mObjectName := .ofBuffer name, mType := type, mOffset := offset.toUInt64, mLength := length.toUInt64 }

def parseEntries (mUse64BitOffsets : Bool) : Nat → Load (List A3DIndexEntry)
  | 0 => return []
  | count + 1 => do
      let entry ← parseEntry mUse64BitOffsets
      let rest ← parseEntries mUse64BitOffsets count
      return entry :: rest

def FileA3D.parseHeader (file : FileA3D) : Load FileA3D := do
  let mMajorVersion ← IStream.loadU32
  let mMinorVersion ← IStream.loadU32
  let flags ← IStream.loadU32
  let mUse64BitOffsets := flags &&& 1 != 0
  let numIndexEntries ← IStream.loadU32
  let entries ← parseEntries mUse64BitOffsets numIndexEntries.toNat
  return { file with
    mMajorVersion := mMajorVersion, mMinorVersion := mMinorVersion, mUse64BitOffsets := mUse64BitOffsets
    mIndex := file.mIndex ++ entries }

def FileA3D.load (file : FileA3D) (data : List UInt8) : Option (Bool × FileA3D) :=
  if data.length < 12 ∨ data.take 12 ≠ A3D_MAGIC_KEY then some (false, file)
  else
    let localData := data.drop 12
    if localData.length < 8 then some (false, file)
    else
      let headerSize := decode (localData.take 8)
      let localData := localData.drop 8
      if localData.length < headerSize then some (false, file)
      else do
        let (file, _) ← file.parseHeader.run { mData := localData, mUse64 := false }
        let localData := localData.drop headerSize
        if localData.length < 8 then return (false, file)
        let file := { file with mDataSize := .ofNat (decode (localData.take 8)) }
        let localData := localData.drop 8
        if localData.length < file.mDataSize.toNat then return (false, file)
        return (true, { file with mReadStream := some { mData := localData, mUse64 := file.mUse64BitOffsets } })

end RenderScript.A3DFile
