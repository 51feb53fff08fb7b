import RenderScript.Element.Element

/-!
# Types

`Type` of rsType.cpp: dimensions, the levels and cells that `compute` derives from
them, the table of all types in which `getTypeRef` looks for a match first, and the
byte form of a type. `size_t` has 64 bits.
-/

namespace RenderScript.Types
open RenderScript.Stream Elements

structure Level where
  x : UInt32
  y : UInt32
  z : UInt32
  deriving DecidableEq

def halved (d : UInt32) : UInt32 := if d > 1 then d >>> 1 else d

def Level.next (level : Level) : Level :=
  { x := halved level.x, y := halved level.y, z := halved level.z }

def Level.cells (level : Level) : UInt32 := level.x * max level.y 1 * max level.z 1

structure TypeKey where
  dimX : UInt32
  dimY : UInt32
  dimZ : UInt32
  mDimLOD : Bool
  faces : Bool
  dimYuv : UInt32
  deriving DecidableEq

def TypeKey.lodCount (key : TypeKey) : UInt32 :=
  if key.mDimLOD then
    let l2x := rsFindHighBit key.dimX + 1
    let l2y := rsFindHighBit key.dimY + 1
    let l2z := rsFindHighBit key.dimZ + 1
    max (max l2x l2y) l2z
  else 1

def countCells : Nat → Level → UInt64 → UInt64
  | 0, _, mCellCount => mCellCount
  | lods + 1, level, mCellCount =>
    countCells lods level.next (mCellCount + level.cells.toUInt64)

def HAL_PIXEL_FORMAT_YCrCb_420_SP : UInt32 := 0x11

/-- The chroma planes stand where the levels 1 and 2 would be, also when the arrays
have only one entry. -/
def TypeKey.chroma (key : TypeKey) : Level :=
  { x := key.dimX / 2, y := key.dimY / 2, z := 0 }

/-- The contents of `lodDimX`, `lodDimY` and `lodDimZ` after `compute`. Of a chroma
plane, `lodDimZ` is the one of the level. -/
def TypeKey.lodDim (key : TypeKey) (lod : Nat) : Level :=
  let level := Level.next^[lod] { x := key.dimX, y := key.dimY, z := key.dimZ }
  if key.dimYuv ≠ 0 ∧ lod = 1 then
    { level with
      x := if key.dimYuv = HAL_PIXEL_FORMAT_YCrCb_420_SP then key.dimX else key.chroma.x
      y := key.chroma.y }
  else if key.dimYuv ≠ 0 ∧ lod = 2 then { level with x := key.chroma.x, y := key.chroma.y }
  else level

/-- `mCellCount` after `compute`. -/
def TypeKey.cellCount (key : TypeKey) : UInt64 :=
  let cells := countCells key.lodCount.toNat { x := key.dimX, y := key.dimY, z := key.dimZ } 0
  let cells := if key.faces then cells * 6 else cells
  if key.dimYuv ≠ 0 then
    cells + (key.chroma.x * key.chroma.y).toUInt64 + (key.chroma.x * key.chroma.y).toUInt64
  else cells

/-- `address` is the identity of the object. -/
structure RsType extends TypeKey where
  address : Nat
  mElement : Element
  mLodCount : UInt32
  mLodDim : Nat → Level
  mCellCount : UInt64

/-- A new object after `compute`. -/
def RsType.create (address : Nat) (e : Element) (key : TypeKey) : RsType where
  toTypeKey := key
  address := address
  mElement := e
  mLodCount := key.lodCount
  mLodDim := key.lodDim
  mCellCount := key.cellCount

structure Context where
  elements : ElementState := {}
  mTypes : List RsType := []
  nextType : Nat := 0

def RsType.matches (e : Element) (key : TypeKey) (t : RsType) : Bool :=
  t.mElement.address == e.address && t.toTypeKey == key

def getTypeRef (e : Element) (key : TypeKey) (context : Context) : RsType × Context :=
  match context.mTypes.find? (RsType.matches e key) with
  | some t => (t, context)
  | none =>
    let nt := RsType.create context.nextType e key
    (nt, { context with mTypes := context.mTypes ++ [nt], nextType := context.nextType + 1 })

/-- The object is gone, and `preDestroy` has taken it out of the table. -/
def Context.destroyType (t : RsType) (context : Context) : Context :=
  { context with mTypes := context.mTypes.filter (·.address != t.address) }

def RS_A3D_CLASS_ID_TYPE : UInt32 := 2

/-- The calls made on the stream. The two functions give the names of types and elements. -/
def RsType.serialize (getName getElementName : Nat → CString) (t : RsType) : List Value :=
  [.u32 RS_A3D_CLASS_ID_TYPE, .string (getName t.address).bytes] ++
    t.mElement.serialize getElementName ++
    [.u32 t.dimX, .u32 t.dimY, .u32 t.dimZ, .u8 (if t.mLodCount ≠ 0 then 1 else 0),
      .u8 (if t.faces then 1 else 0)]

def onElements {α : Type} (work : Create α) : StateT Context Load α := fun context =>
  (fun found : α × ElementState => (found.1, { context with elements := found.2 })) <$>
    work.run context.elements

def RsType.createFromStream : StateT Context Load (Option RsType) := do
  let classID ← IStream.loadU32
  if classID ≠ RS_A3D_CLASS_ID_TYPE then
    return none
  let _name ← IStream.loadString
  let some elem ← onElements Element.createFromStream | return none
  let x ← IStream.loadU32
  let y ← IStream.loadU32
  let z ← IStream.loadU32
  let lod ← IStream.loadU8
  let faces ← IStream.loadU8
  return some (← modifyGet (getTypeRef elem
    { dimX := x, dimY := y, dimZ := z, mDimLOD := lod != 0, faces := faces != 0, dimYuv := 0 }))

end RenderScript.Types
