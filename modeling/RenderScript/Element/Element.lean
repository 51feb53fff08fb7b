import RenderScript.Element.Component

/-!
# Elements

`Element` of rsElement.cpp: the table of all elements in which `createRef` looks
for a match first, and the byte form of an element.
-/

namespace RenderScript.Elements
open RenderScript.Stream

structure CString where
  bytes : List UInt8
  noZero : 0 ∉ bytes
  deriving DecidableEq

def CString.strlen (s : CString) : Nat := s.bytes.length

def CString.ofBuffer (buffer : List UInt8) : CString where
  bytes := buffer.takeWhile (· != 0)
  noZero := fun member => by simpa using List.mem_takeWhile_imp member

/-- The string in the copy; copied bytes behind the end of `name` are not part of it. -/
def rsuCopyString (name : CString) (len : Nat) : CString where
  bytes := name.bytes.take len
  noZero := fun member => name.noZero (List.mem_of_mem_take member)

structure FieldLabel where
  name : CString
  arraySize : UInt32
  deriving DecidableEq

/-- An element never changes once it is built. `address` is its identity. -/
inductive Element where
  | mk (address : Nat) (mComponent : Component) (mFields : List (FieldLabel × Element))

namespace Element

def address : Element → Nat
  | .mk address _ _ => address

def mComponent : Element → Component
  | .mk _ mComponent _ => mComponent

def mFields : Element → List (FieldLabel × Element)
  | .mk _ _ mFields => mFields

def getFieldCount (e : Element) : Nat := e.mFields.length

end Element

structure ElementState where
  mElements : List Element := []
  next : Nat := 0

def ElementState.push (mComponent : Component) (mFields : List (FieldLabel × Element))
    (state : ElementState) : Element × ElementState :=
  let e : Element := .mk state.next mComponent mFields
  (e, { mElements := state.mElements ++ [e], next := state.next + 1 })

/-- The match that `createRef` looks for when it is given a component. -/
def Element.matchesComponent (dt : RsDataType) (dk : RsDataKind) (isNorm : Bool)
    (vecSize : UInt32) (ee : Element) : Bool :=
  ee.getFieldCount == 0 && ee.mComponent.mType == dt && ee.mComponent.mKind == dk &&
    ee.mComponent.mNormalized == isNorm && ee.mComponent.mVectorSize == vecSize

def createRef (dt : RsDataType) (dk : RsDataKind) (isNorm : Bool) (vecSize : UInt32)
    (state : ElementState) : Element × ElementState :=
  match state.mElements.find? (Element.matchesComponent dt dk isNorm vecSize) with
  | some ee => (ee, state)
  | none => state.push (.set dt dk isNorm vecSize) []

/-- One index of the arrays that `createRef` is given. `len` is the length of the
name when no lengths are given, and `asize` is 1 when no sizes are. -/
structure FieldSpec where
  ein : Element
  nin : CString
  len : Nat := nin.strlen
  asize : UInt32 := 1

def FieldSpec.matches (spec : FieldSpec) (field : FieldLabel × Element) : Bool :=
  field.2.address == spec.ein.address && field.1.name.strlen == spec.len &&
    field.1.name == spec.nin && field.1.arraySize == spec.asize

def Element.matchesFields (specs : List FieldSpec) (ee : Element) : Bool :=
  ee.getFieldCount == specs.length &&
    (specs.zip ee.mFields).all fun (spec, field) => spec.matches field

def FieldSpec.field (spec : FieldSpec) : FieldLabel × Element :=
  ({ name := rsuCopyString spec.nin spec.len, arraySize := spec.asize }, spec.ein)

/-- `createRef` with fields. -/
def createRefFields (specs : List FieldSpec) (state : ElementState) : Element × ElementState :=
  match state.mElements.find? (Element.matchesFields specs) with
  | some ee => (ee, state)
  | none => state.push .initial (specs.map FieldSpec.field)

/-- The object is gone, and `preDestroy` has taken it out of the table. -/
def ElementState.destroy (e : Element) (state : ElementState) : ElementState :=
  { state with mElements := state.mElements.filter (·.address != e.address) }

def RS_A3D_CLASS_ID_ELEMENT : UInt32 := 3

mutual

/-- The calls made on the stream. `getName` gives the name of each object. -/
def Element.serialize (getName : Nat → CString) : Element → List Value
  | .mk address mComponent mFields =>
    [.u32 RS_A3D_CLASS_ID_ELEMENT, .string (getName address).bytes] ++ mComponent.serialize ++
      [.u32 (.ofNat mFields.length)] ++ serializeFields getName mFields

def serializeFields (getName : Nat → CString) : List (FieldLabel × Element) → List Value
  | [] => []
  | (label, e) :: rest =>
    [.string label.name.bytes, .u32 label.arraySize] ++ e.serialize getName ++
      serializeFields getName rest

end

abbrev Create := StateT ElementState Load

/-- The loop over the fields; a field that is not an element is dereferenced. -/
def loadFields (createFromStream : Create (Option Element)) : Nat → Create (List FieldSpec)
  | 0 => return []
  | count + 1 => do
      let name := CString.ofBuffer (← IStream.loadString)
      let arraySize ← IStream.loadU32
      let some e ← createFromStream | failure
      let rest ← loadFields createFromStream count
      return { ein := e, nin := name, asize := arraySize } :: rest

/-- No element for another class. The recursion is as deep as the elements are nested. -/
def createFromStreamDepth : Nat → Create (Option Element)
  | 0 => failure
  | depth + 1 => do
      let classID ← IStream.loadU32
      if classID ≠ RS_A3D_CLASS_ID_ELEMENT then
        return none
      let _name ← IStream.loadString
      let component ← Component.loadFromStream
      let fieldCount ← IStream.loadU32
      if fieldCount = 0 then
        return some (← modifyGet (createRef component.mType component.mKind component.mNormalized component.mVectorSize))
      let specs ← loadFields (createFromStreamDepth depth) fieldCount.toNat
      return some (← modifyGet (createRefFields specs))

/-- Every level takes bytes of the stream, so their number bounds the depth. -/
def Element.createFromStream : Create (Option Element) := do
  let s ← (get : Load IStream)
  createFromStreamDepth s.mData.length

end RenderScript.Elements
