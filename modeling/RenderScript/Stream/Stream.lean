import RenderScript.Foundation.AlignedBytes

/-!
# Streams

`IStream` and `OStream` of rsStream.h and rsStream.cpp on a little-endian host.
Positions are 64-bit. A load past the available bytes and a store past `mLength`
have no value. A float is its 32 bits.
-/

namespace RenderScript.Stream
open AlignedBytes

/-- `mData` holds the bytes that may be read. -/
structure IStream where
  mData : List UInt8
  mPos : UInt64 := 0
  mUse64 : Bool
  deriving DecidableEq

def IStream.look (s : IStream) (index : Nat) : Option UInt8 := s.mData[index]?

abbrev Load := StateT IStream Option

namespace IStream

def loadByteArray (numBytes : Nat) : Load (List UInt8) := do
  let s ← get
  let bytes ← readAt s.look s.mPos.toNat numBytes
  modify fun s => { s with mPos := s.mPos + .ofNat numBytes }
  return bytes

/-- A little-endian number of `size` bytes, read through a pointer. -/
def loadNumber (size : Nat) : Load Nat := do
  let bytes ← loadByteArray size
  return decode bytes

def loadU32 : Load UInt32 := do
  modify fun s => { s with mPos := (s.mPos + 3) &&& ~~~3 }
  let tmp ← loadNumber 4
  return .ofNat tmp

def loadF : Load UInt32 := do
  modify fun s => { s with mPos := (s.mPos + 3) &&& ~~~3 }
  let tmp ← loadNumber 4
  return .ofNat tmp

def loadI32 : Load Int32 := do
  modify fun s => { s with mPos := (s.mPos + 3) &&& ~~~3 }
  let tmp ← loadNumber 4
  return .ofBitVec (.ofNat 32 tmp)

def loadU16 : Load UInt16 := do
  modify fun s => { s with mPos := (s.mPos + 1) &&& ~~~1 }
  let tmp ← loadNumber 2
  return .ofNat tmp

def loadU8 : Load UInt8 := do
  let tmp ← loadNumber 1
  return .ofNat tmp

def loadOffset : Load UInt64 := do
  if (← get).mUse64 then
    modify fun s => { s with mPos := (s.mPos + 7) &&& ~~~7 }
    let tmp ← loadNumber 8
    return .ofNat tmp
  else
    let tmp ← loadU32
    return tmp.toUInt64

/-- The copy that is returned has all `len` bytes. -/
def loadString : Load (List UInt8) := do
  let len ← loadU32
  loadByteArray len.toNat

end IStream

/-- `mData` is the buffer; only its first `mLength` bytes may be touched. -/
structure OStream where
  mData : Nat → UInt8
  mLength : UInt64
  mPos : UInt64 := 0
  mUse64 : Bool

def OStream.bytes (s : OStream) : List UInt8 := (List.range s.mPos.toNat).map s.mData

section

/-! What a block of each length holds when it has just been allocated. -/
variable (malloc : UInt64 → Nat → UInt8)

def OStream.create (length : UInt64) (use64 : Bool) : OStream where
  mData := malloc length
  mLength := length
  mUse64 := use64

def OStream.growSize (s : OStream) : OStream :=
  { s with
    mData := fun index =>
      if index < s.mLength.toNat then s.mData index else malloc (s.mLength * 2) index
    mLength := s.mLength * 2 }

/-- `mData[mPos++] = v`. -/
def OStream.store (s : OStream) (v : UInt8) : Option OStream :=
  if s.mPos < s.mLength then
    some { s with mData := Function.update s.mData s.mPos.toNat v, mPos := s.mPos + 1 }
  else none

def OStream.storeAll (s : OStream) (bytes : List UInt8) : Option OStream :=
  bytes.foldlM OStream.store s

/-- Grows once when `size` more bytes would reach the end of the buffer. -/
def OStream.growFor (s : OStream) (size : UInt64) : OStream :=
  if s.mPos + size ≥ s.mLength then s.growSize malloc else s

def OStream.align (s : OStream) (bytes : UInt32) : OStream :=
  let s := { s with mPos := (s.mPos + (bytes - 1).toUInt64) &&& (~~~(bytes - 1)).toUInt64 }
  if s.mPos ≥ s.mLength then s.growSize malloc else s

def OStream.addU32 (s : OStream) (v : UInt32) : Option OStream :=
  let s := { s with mPos := (s.mPos + 3) &&& ~~~3 }
  (s.growFor malloc 4).storeAll
    [(v &&& 0xff).toUInt8, ((v >>> 8) &&& 0xff).toUInt8, ((v >>> 16) &&& 0xff).toUInt8, ((v >>> 24) &&& 0xff).toUInt8]

def OStream.addF (s : OStream) (v : UInt32) : Option OStream := s.addU32 malloc v

def OStream.addI32 (s : OStream) (v : Int32) : Option OStream :=
  let s := { s with mPos := (s.mPos + 3) &&& ~~~3 }
  let byte (shift : Nat) : UInt8 :=
    .ofBitVec ((v.toBitVec.sshiftRight shift &&& 0xff#32).setWidth 8)
  (s.growFor malloc 4).storeAll [byte 0, byte 8, byte 16, byte 24]

def OStream.addU16 (s : OStream) (v : UInt16) : Option OStream :=
  let s := { s with mPos := (s.mPos + 1) &&& ~~~1 }
  (s.growFor malloc 2).storeAll [(v &&& 0xff).toUInt8, (v >>> 8).toUInt8]

def OStream.addU8 (s : OStream) (v : UInt8) : Option OStream :=
  (s.growFor malloc 1).storeAll [v]

/-- The loop of `addByteArray`; no value when it does not end. The length reaches
`2 ^ 64` after 64 rounds at most. -/
def OStream.growUntil (numBytes : UInt64) : Nat → OStream → Option OStream
  | 0, s => if s.mPos + numBytes ≥ s.mLength then none else some s
  | fuel + 1, s =>
    if s.mPos + numBytes ≥ s.mLength then OStream.growUntil numBytes fuel (s.growSize malloc)
    else some s

def OStream.addByteArray (s : OStream) (src : List UInt8) : Option OStream := do
  let s ← OStream.growUntil malloc (.ofNat src.length) 64 s
  s.storeAll src

def OStream.addOffset (s : OStream) (v : UInt64) : Option OStream :=
  if s.mUse64 then
    let s := { s with mPos := (s.mPos + 7) &&& ~~~7 }
    (s.growFor malloc 8).storeAll
      [(v &&& 0xff).toUInt8, ((v >>> 8) &&& 0xff).toUInt8, ((v >>> 16) &&& 0xff).toUInt8,
        ((v >>> 24) &&& 0xff).toUInt8, ((v >>> 32) &&& 0xff).toUInt8,
        ((v >>> 40) &&& 0xff).toUInt8, ((v >>> 48) &&& 0xff).toUInt8,
        ((v >>> 56) &&& 0xff).toUInt8]
  else s.addU32 malloc v.toUInt32

/-- `addString(s, len)` with all `len` bytes; grows at most once. -/
def OStream.addString (s : OStream) (bytes : List UInt8) : Option OStream := do
  let s ← s.addU32 malloc (.ofNat bytes.length)
  (s.growFor malloc (.ofNat bytes.length)).storeAll bytes

end

inductive Value where
  | u8 (v : UInt8)
  | u16 (v : UInt16)
  | u32 (v : UInt32)
  | i32 (v : Int32)
  | f (v : UInt32)
  | string (bytes : List UInt8)
  | byteArray (bytes : List UInt8)
  | offset (v : UInt64)
  deriving DecidableEq

inductive Kind where
  | u8
  | u16
  | u32
  | i32
  | f
  | string
  | byteArray (numBytes : Nat)
  | offset
  deriving DecidableEq

def Value.kind : Value → Kind
  | .u8 _ => .u8
  | .u16 _ => .u16
  | .u32 _ => .u32
  | .i32 _ => .i32
  | .f _ => .f
  | .string _ => .string
  | .byteArray bytes => .byteArray bytes.length
  | .offset _ => .offset

def OStream.add (malloc : UInt64 → Nat → UInt8) (s : OStream) : Value → Option OStream
  | .u8 v => s.addU8 malloc v
  | .u16 v => s.addU16 malloc v
  | .u32 v => s.addU32 malloc v
  | .i32 v => s.addI32 malloc v
  | .f v => s.addF malloc v
  | .string bytes => s.addString malloc bytes
  | .byteArray bytes => s.addByteArray malloc bytes
  | .offset v => s.addOffset malloc v

def OStream.addAll (malloc : UInt64 → Nat → UInt8) (s : OStream) (values : List Value) :
    Option OStream :=
  values.foldlM (OStream.add malloc) s

def IStream.load : Kind → Load Value
  | .u8 => .u8 <$> loadU8
  | .u16 => .u16 <$> loadU16
  | .u32 => .u32 <$> loadU32
  | .i32 => .i32 <$> loadI32
  | .f => .f <$> loadF
  | .string => .string <$> loadString
  | .byteArray numBytes => .byteArray <$> loadByteArray numBytes
  | .offset => .offset <$> loadOffset

def IStream.loadAll (kinds : List Kind) : Load (List Value) := kinds.mapM load

end RenderScript.Stream
