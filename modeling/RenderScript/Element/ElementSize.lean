import RenderScript.Element.Element

/-!
# Sizes of elements

`getSizeBits`, `getSizeBitsUnpadded` and the offsets that `Element::compute` gives to
fields. `size_t` is a natural number. Unpadded sizes have no value where the component
leaves `mBitsUnpadded` unwritten.
-/

namespace RenderScript.Elements

namespace Element

def mBits (e : Element) : UInt32 := if e.mFields = [] then e.mComponent.mBits else 0

def mBitsUnpadded (e : Element) : Option UInt32 :=
  if e.mFields = [] then e.mComponent.mBitsUnpadded else some 0

def getSizeBits (e : Element) : Nat :=
  if e.mFields = [] then e.mBits.toNat
  else (e.mFields.map fun field => (field.2.mBits * field.1.arraySize).toNat).sum

def getSizeBitsUnpadded (e : Element) : Option Nat :=
  if e.mFields = [] then e.mBitsUnpadded.map UInt32.toNat
  else do
    let sizes ← e.mFields.mapM fun field => do
      return ((← field.2.mBitsUnpadded) * field.1.arraySize).toNat
    return sizes.sum

def getSizeBytes (e : Element) : Nat := (e.getSizeBits + 7) >>> 3

def getSizeBytesUnpadded (e : Element) : Option Nat :=
  e.getSizeBitsUnpadded.map fun bits => (bits + 7) >>> 3

end Element

/-- Offsets in bytes of a field, with and without padding, and its unpadded size. -/
structure FieldPlace where
  offset : UInt32
  offsetUnpadded : UInt32
  sizeUnpadded : UInt32

/-- The loop over the fields in `compute`. The offsets are kept in 32 bits. -/
def placeFields : List (FieldLabel × Element) → Nat → Nat → Option (List FieldPlace)
  | [], _, _ => some []
  | (label, e) :: rest, bits, bitsUnpadded => do
      let unpadded ← e.getSizeBitsUnpadded
      let size ← e.getSizeBytesUnpadded
      let others ← placeFields rest (bits + e.getSizeBits * label.arraySize.toNat)
        (bitsUnpadded + unpadded * label.arraySize.toNat)
      return { offset := UInt32.ofNat bits >>> 3, offsetUnpadded := UInt32.ofNat bitsUnpadded >>> 3,
               sizeUnpadded := .ofNat size } :: others

/-- The pieces in which `writePackedData` copies an element. -/
def Element.places (e : Element) : Option (List FieldPlace) :=
  if e.mFields = [] then do
    let size ← e.getSizeBytesUnpadded
    return [{ offset := 0, offsetUnpadded := 0, sizeUnpadded := .ofNat size }]
  else placeFields e.mFields 0 0

end RenderScript.Elements
