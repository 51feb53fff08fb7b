import RenderScript.Foundation.Interleaving
import RenderScript.Types.RsType

/-!
# Objects of a file

`initializeFromEntry` of rsFileA3D.cpp makes the object of an entry and keeps a pointer
to it. The objects are counted as in rsObjectBase.cpp by one thread. Each class hands its
new objects over with its own number of references.
-/

namespace RenderScript.A3D
open Elements RenderScript.Types

/-- What an object is; the fields of elements and the element of a type are in `owns`. -/
inductive What where
  | element (mComponent : Component) (labels : List FieldLabel)
  | type (key : TypeKey)
  | allocation
  | mesh
  deriving DecidableEq

/-- `owns` has the objects that the object holds system references to. -/
structure Object where
  what : What
  owns : List Nat := []
  mUserRefCount : Int := 0
  mSysRefCount : Int := 0
  destroyed : Bool := false

structure Heap where
  object : Nat → Object := fun _ => { what := .mesh }
  next : Nat := 0

namespace Heap

def change (h : Heap) (o : Nat) (f : Object → Object) : Heap :=
  { h with object := Function.update h.object o (f (h.object o)) }

def incUserRef (h : Heap) (o : Nat) : Heap :=
  h.change o fun x => { x with mUserRefCount := x.mUserRefCount + 1 }

def incSysRef (h : Heap) (o : Nat) : Heap :=
  h.change o fun x => { x with mSysRefCount := x.mSysRefCount + 1 }

/-- `decSysRef` with the rest of `checkDelete`. -/
def decSysRefThen (checkDelete : Heap → Nat → Heap) (h : Heap) (o : Nat) : Heap :=
  let after := h.change o fun x => { x with mSysRefCount := x.mSysRefCount - 1 }
  if (h.object o).mSysRefCount ≤ 1 ∧ (h.object o).mUserRefCount ≤ 0 then checkDelete after o else after

/-- Destructors release what the object owns. The chain of owners is not longer than `fuel`. -/
def checkDelete : Nat → Heap → Nat → Heap
  | 0, h, _ => h
  | fuel + 1, h, o =>
    if (h.object o).mUserRefCount ≠ 0 ∨ (h.object o).mSysRefCount ≠ 0 then h
    else
      (h.object o).owns.foldl (decSysRefThen (checkDelete fuel))
        (h.change o fun x => { x with destroyed := true })

def decSysRef (h : Heap) (o : Nat) : Heap := decSysRefThen (checkDelete h.next) h o

def decUserRef (h : Heap) (o : Nat) : Heap :=
  let after := h.change o fun x => { x with mUserRefCount := x.mUserRefCount - 1 }
  if (h.object o).mUserRefCount ≤ 1 ∧ (h.object o).mSysRefCount ≤ 0 then checkDelete h.next after o
  else after

def new (h : Heap) (what : What) (owns : List Nat) : Nat × Heap :=
  (h.next, owns.foldl incSysRef { object := Function.update h.object h.next { what := what, owns := owns }, next := h.next + 1 })

/-- `createRef` or `getTypeRef`: a live object that matches, or a new one, with the system
reference that is returned. -/
def lookup (h : Heap) (isMatch : Object → Bool) (what : What) (owns : List Nat) : Nat × Heap :=
  match (List.range h.next).find? fun o => !(h.object o).destroyed && isMatch (h.object o) with
  | some o => (o, h.incSysRef o)
  | none =>
    let made := h.new what owns
    (made.1, made.2.incSysRef made.1)

/-- `Element::create` and `Type::getType` turn it into a user reference. -/
def create (h : Heap) (isMatch : Object → Bool) (what : What) (owns : List Nat) : Nat × Heap :=
  let found := h.lookup isMatch what owns
  (found.1, (found.2.incUserRef found.1).decSysRef found.1)

end Heap

inductive ElementData where
  | mk (component : Component) (fields : List (FieldLabel × ElementData))

structure TypeData where
  element : ElementData
  key : TypeKey

/-- `valid` says whether the number of bytes is one of the two expected ones. -/
structure AllocationData where
  type : TypeData
  valid : Bool

structure MeshData where
  vertexBuffers : List AllocationData
  indexBuffers : List AllocationData

/-- The class of an entry with what is found at its offset, which is nothing where another class
begins there. -/
inductive Entry where
  | mesh (data : Option MeshData)
  | type (data : Option TypeData)
  | element (data : Option ElementData)
  | allocation (data : Option AllocationData)
  | unsupported

def matchesComponent (c : Component) (x : Object) : Bool :=
  match x.what with
  | .element mComponent [] =>
    mComponent.mType == c.mType && mComponent.mKind == c.mKind &&
      mComponent.mNormalized == c.mNormalized && mComponent.mVectorSize == c.mVectorSize
  | _ => false

def matchesFields (labels : List FieldLabel) (subElems : List Nat) (x : Object) : Bool :=
  match x.what with
  | .element _ mLabels => mLabels == labels && x.owns == subElems
  | _ => false

def matchesType (key : TypeKey) (e : Nat) (x : Object) : Bool := x.what == .type key && x.owns == [e]

mutual

def ElementData.createFromStream : ElementData → Heap → Nat × Heap
  | .mk c [], h =>
    h.create (matchesComponent c)
      (.element (.set c.mType c.mKind c.mNormalized c.mVectorSize) []) []
  | .mk _ (field :: fields), h =>
    let labels := (field :: fields).map (·.1)
    let sub := createFields (field :: fields) h
    let made := sub.2.create (matchesFields labels sub.1) (.element .initial labels) sub.1
    (made.1, sub.1.foldl Heap.decUserRef made.2)

def createFields : List (FieldLabel × ElementData) → Heap → List Nat × Heap
  | [], h => ([], h)
  | (_, data) :: rest, h =>
    let first := data.createFromStream h
    let others := createFields rest first.2
    (first.1 :: others.1, others.2)

end

def TypeData.createFromStream (data : TypeData) (h : Heap) : Nat × Heap :=
  let elem := data.element.createFromStream h
  let type := elem.2.create (matchesType data.key elem.1) (.type data.key) [elem.1]
  (type.1, type.2.decUserRef elem.1)

def AllocationData.createFromStream (data : AllocationData) (h : Heap) : Option Nat × Heap :=
  let type := data.type.createFromStream h
  let alloc := type.2.new .allocation [type.1]
  let h := alloc.2.decUserRef type.1
  if data.valid then (some alloc.1, h)
  else (none, (h.checkDelete h.next alloc.1).checkDelete h.next type.1)

def createBuffers : List AllocationData → Heap → List Nat × Heap
  | [], h => ([], h)
  | data :: rest, h =>
    match data.createFromStream h with
    | (none, h) => createBuffers rest h
    | (some alloc, h) =>
      let others := createBuffers rest (h.incSysRef alloc)
      (alloc :: others.1, others.2)

def MeshData.createFromStream (data : MeshData) (h : Heap) : Nat × Heap :=
  let buffers := createBuffers (data.vertexBuffers ++ data.indexBuffers) h
  let mesh := buffers.2.new .mesh buffers.1
  (mesh.1, buffers.1.foldl Heap.decSysRef mesh.2)

/-- The switch of `initializeFromEntry`. -/
def Entry.createFromStream : Entry → Heap → Option Nat × Heap
  | .mesh (some data), h => let made := data.createFromStream h; (some made.1, made.2)
  | .type (some data), h => let made := data.createFromStream h; (some made.1, made.2)
  | .element (some data), h => let made := data.createFromStream h; (some made.1, made.2)
  | .allocation (some data), h => data.createFromStream h
  | _, h => (none, h)

/-- Bookkeeping: the references that were returned and not released, and whether a destroyed
object was touched through `mRsObj` or returned. -/
structure State where
  heap : Heap := {}
  mRsObj : Nat → Option Nat := fun _ => none
  held : List Nat := []
  bad : Bool := false

inductive Act where
  | initializeFromEntry (index : Nat)
  -- the client calls `decUserRef` with a reference that it was given
  | decUserRef (o : Nat)

namespace State

/-- `incUserRef` on the object of an entry, which is then returned. -/
def hand (s : State) (o : Nat) : State :=
  { s with heap := s.heap.incUserRef o, held := o :: s.held, bad := s.bad || (s.heap.object o).destroyed }

def initializeFromEntry (mIndex : List Entry) (s : State) (index : Nat) : State :=
  match mIndex[index]? with
  | none => s
  | some entry =>
    match s.mRsObj index with
    | some o => s.hand o
    | none =>
      match entry.createFromStream s.heap with
      | (none, heap) => { s with heap := heap }
      | (some o, heap) =>
        { s with heap := heap, mRsObj := Function.update s.mRsObj index (some o) }.hand o

def step (mIndex : List Entry) (s : State) : Act → Option State
  | .initializeFromEntry index => some (s.initializeFromEntry mIndex index)
  | .decUserRef o =>
    if o ∈ s.held then some { s with heap := s.heap.decUserRef o, held := s.held.erase o } else none

end State

end RenderScript.A3D
