import RenderScript.Stream.Stream

/-!
# Components

`Component` of rsComponent.cpp with the enumerations of rsDefines.h. Failed
assertions only log, so no argument is refused.
-/

namespace RenderScript.Elements
open RenderScript.Stream

inductive RsDataType where
  | none
  | float16
  | float32
  | float64
  | signed8
  | signed16
  | signed32
  | signed64
  | unsigned8
  | unsigned16
  | unsigned32
  | unsigned64
  | boolean
  | unsigned565
  | unsigned5551
  | unsigned4444
  | matrix4x4
  | matrix3x3
  | matrix2x2
  | element
  | type
  | allocation
  | sampler
  | script
  | mesh
  | programFragment
  | programVertex
  | programRaster
  | programStore
  | font
  | invalid
  | unnamed (code : UInt8) (nameless : 19 ≤ code)
  deriving DecidableEq

def RsDataType.code : RsDataType → UInt32
  | .none => 0
  | .float16 => 1
  | .float32 => 2
  | .float64 => 3
  | .signed8 => 4
  | .signed16 => 5
  | .signed32 => 6
  | .signed64 => 7
  | .unsigned8 => 8
  | .unsigned16 => 9
  | .unsigned32 => 10
  | .unsigned64 => 11
  | .boolean => 12
  | .unsigned565 => 13
  | .unsigned5551 => 14
  | .unsigned4444 => 15
  | .matrix4x4 => 16
  | .matrix3x3 => 17
  | .matrix2x2 => 18
  | .element => 1000
  | .type => 1001
  | .allocation => 1002
  | .sampler => 1003
  | .script => 1004
  | .mesh => 1005
  | .programFragment => 1006
  | .programVertex => 1007
  | .programRaster => 1008
  | .programStore => 1009
  | .font => 1010
  | .invalid => 10000
  | .unnamed code _ => code.toUInt32

def RsDataType.ofByte (code : UInt8) : RsDataType :=
  if nameless : 19 ≤ code then .unnamed code nameless
  else match code with
    | 1 => .float16
    | 2 => .float32
    | 3 => .float64
    | 4 => .signed8
    | 5 => .signed16
    | 6 => .signed32
    | 7 => .signed64
    | 8 => .unsigned8
    | 9 => .unsigned16
    | 10 => .unsigned32
    | 11 => .unsigned64
    | 12 => .boolean
    | 13 => .unsigned565
    | 14 => .unsigned5551
    | 15 => .unsigned4444
    | 16 => .matrix4x4
    | 17 => .matrix3x3
    | 18 => .matrix2x2
    | _ => .none

inductive RsDataKind where
  | user
  | pixelL
  | pixelA
  | pixelLA
  | pixelRGB
  | pixelRGBA
  | pixelDepth
  | pixelYUV
  | invalid
  | unnamed (code : UInt8) (nameless : code ∉ [0, 7, 8, 9, 10, 11, 12, 13, 100])
  deriving DecidableEq

def RsDataKind.code : RsDataKind → UInt32
  | .user => 0
  | .pixelL => 7
  | .pixelA => 8
  | .pixelLA => 9
  | .pixelRGB => 10
  | .pixelRGBA => 11
  | .pixelDepth => 12
  | .pixelYUV => 13
  | .invalid => 100
  | .unnamed code _ => code.toUInt32

def RsDataKind.ofByte (code : UInt8) : RsDataKind :=
  if nameless : code ∉ [0, 7, 8, 9, 10, 11, 12, 13, 100] then .unnamed code nameless
  else match code with
    | 7 => .pixelL
    | 8 => .pixelA
    | 9 => .pixelLA
    | 10 => .pixelRGB
    | 11 => .pixelRGBA
    | 12 => .pixelDepth
    | 13 => .pixelYUV
    | 100 => .invalid
    | _ => .user

/-- Kinds for which `set` marks the component as a pixel. -/
def RsDataKind.isPixel : RsDataKind → Bool
  | .pixelL | .pixelA | .pixelLA | .pixelRGB | .pixelRGBA | .pixelYUV => true
  | _ => false

def rsIsPow2 (val : UInt32) : Bool := val &&& (val - 1) == 0

def rsFindHighBit (val : UInt32) : UInt32 := .ofNat val.toNat.log2

def rsHigherPow2 (v : UInt32) : UInt32 :=
  if rsIsPow2 v then v else 1 <<< (rsFindHighBit v + 1)

/-- `mBitsUnpadded` has no value when `set` returns before it is written. -/
structure Component where
  mType : RsDataType
  mKind : RsDataKind
  mNormalized : Bool
  mVectorSize : UInt32
  mBits : UInt32 := 0
  mBitsUnpadded : Option UInt32 := none
  mTypeBits : UInt32 := 0
  mIsFloat : Bool := false
  mIsSigned : Bool := false
  mIsPixel : Bool := false
  deriving DecidableEq

/-- The end of `set`, for types that do not return early. -/
def Component.ofTypeBits (c : Component) (mTypeBits : UInt32) : Component :=
  { c with
    mTypeBits := mTypeBits, mBitsUnpadded := some (mTypeBits * c.mVectorSize)
    mBits := mTypeBits * rsHigherPow2 c.mVectorSize }

def Component.set (dt : RsDataType) (dk : RsDataKind) (norm : Bool) (vecSize : UInt32) :
    Component :=
  let c : Component := { mType := dt, mKind := dk, mNormalized := norm, mVectorSize := vecSize, mIsPixel := dk.isPixel }
  match dt with
  | .none => c
  | .unsigned565 => { c with mVectorSize := 3, mBits := 16, mNormalized := true }
  | .unsigned5551 | .unsigned4444 =>
    { c with mVectorSize := 4, mBits := 16, mNormalized := true }
  | .matrix4x4 => c.ofTypeBits (16 * 32)
  | .matrix3x3 => c.ofTypeBits (9 * 32)
  | .matrix2x2 => c.ofTypeBits (4 * 32)
  | .element | .type | .allocation | .sampler | .script | .mesh | .programFragment
  | .programVertex | .programRaster | .programStore | .font =>
    { c with mBits := 32, mTypeBits := 32 }
  | .float16 => { c with mIsFloat := true }.ofTypeBits 16
  | .float32 => { c with mIsFloat := true }.ofTypeBits 32
  | .float64 => { c with mIsFloat := true }.ofTypeBits 64
  | .signed8 => { c with mIsSigned := true }.ofTypeBits 8
  | .signed16 => { c with mIsSigned := true }.ofTypeBits 16
  | .signed32 => { c with mIsSigned := true }.ofTypeBits 32
  | .signed64 => { c with mIsSigned := true }.ofTypeBits 64
  | .unsigned8 => c.ofTypeBits 8
  | .unsigned16 => c.ofTypeBits 16
  | .unsigned32 => c.ofTypeBits 32
  | .unsigned64 => c.ofTypeBits 64
  | .boolean => c.ofTypeBits 8
  | .invalid | .unnamed _ _ => c.ofTypeBits 0

def Component.initial : Component := .set .none .user false 1

def Component.serialize (c : Component) : List Value :=
  [.u8 c.mType.code.toUInt8, .u8 c.mKind.code.toUInt8, .u8 (if c.mNormalized then 1 else 0),
    .u32 c.mVectorSize]

def Component.loadFromStream : Load Component := do
  let mType ← IStream.loadU8
  let mKind ← IStream.loadU8
  let temp ← IStream.loadU8
  let mVectorSize ← IStream.loadU32
  return .set (.ofByte mType) (.ofByte mKind) (temp != 0) mVectorSize

end RenderScript.Elements
