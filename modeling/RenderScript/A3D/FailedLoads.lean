import RenderScript.A3D.EntryObjects

/-!
# Loads that fail

`createFromStream` of rsElement.cpp, rsType.cpp and rsAllocation.cpp on arbitrary streams, also
where a record of another class stands in a field. A record is what the loader reads of the
stream, in the order in which it reads it. Accesses to objects are checked: a call that
dereferences NULL or a destroyed object has no result.
-/

namespace RenderScript.A3D
open Elements RenderScript.Types

namespace Heap

def touch (h : Heap) (o : Nat) (f : Object → Object) : Option Heap :=
  if (h.object o).destroyed then none else some (h.change o f)

def incSysRefChecked (h : Heap) (o : Nat) : Option Heap :=
  h.touch o fun x => { x with mSysRefCount := x.mSysRefCount + 1 }

def incUserRefChecked (h : Heap) (o : Nat) : Option Heap :=
  h.touch o fun x => { x with mUserRefCount := x.mUserRefCount + 1 }

/-- `decSysRef` with the rest of `checkDelete`. -/
def decSysRefChecked (checkDelete : Heap → Nat → Option Heap) (h : Heap) (o : Nat) : Option Heap := do
  let after ← h.touch o fun x => { x with mSysRefCount := x.mSysRefCount - 1 }
  if (h.object o).mSysRefCount ≤ 1 ∧ (h.object o).mUserRefCount ≤ 0 then checkDelete after o else some after

/-- The chain of owners is not longer than `fuel`. -/
def checkDeleteChecked : Nat → Heap → Nat → Option Heap
  | 0, h, _ => some h
  | fuel + 1, h, o =>
    if (h.object o).destroyed then none
    else if (h.object o).mUserRefCount ≠ 0 ∨ (h.object o).mSysRefCount ≠ 0 then some h
    else
      (h.object o).owns.foldlM (decSysRefChecked (checkDeleteChecked fuel))
        (h.change o fun x => { x with destroyed := true })

def decUserRefChecked (h : Heap) (o : Nat) : Option Heap := do
  let after ← h.touch o fun x => { x with mUserRefCount := x.mUserRefCount - 1 }
  if (h.object o).mUserRefCount ≤ 1 ∧ (h.object o).mSysRefCount ≤ 0 then checkDeleteChecked h.next after o
  else some after

def extend (h : Heap) (what : What) (owns : List Nat) : Heap :=
  { object := Function.update h.object h.next { what := what, owns := owns }, next := h.next + 1 }

def newChecked (h : Heap) (what : What) (owns : List Nat) : Option (Nat × Heap) := do
  let made ← owns.foldlM incSysRefChecked (h.extend what owns)
  return (h.next, made)

def findLive (h : Heap) (isMatch : Object → Bool) : Option Nat :=
  (List.range h.next).find? fun o => !(h.object o).destroyed && isMatch (h.object o)

/-- `Element::create` and `Type::getType`: found or new, with a user reference. -/
def createChecked (h : Heap) (isMatch : Object → Bool) (what : What) (owns : List Nat) :
    Option (Nat × Heap) := do
  let found ←
    match h.findLive isMatch with
    | some o => some (o, h)
    | none => h.newChecked what owns
  let h ← found.2.incSysRefChecked found.1
  let h ← h.incUserRefChecked found.1
  let h ← h.decSysRefChecked (checkDeleteChecked h.next) found.1
  return (found.1, h)

end Heap

/-- A record of another class is `invalid`. -/
inductive ElementStream where
  | invalid
  | mk (component : Component) (fields : List (FieldLabel × ElementStream))

inductive TypeStream where
  | invalid
  | mk (element : ElementStream) (key : TypeKey)

/-- `init` says whether `createAllocation` gets its memory, `sized` whether the number of bytes is
one of the two expected ones. -/
inductive AllocationStream where
  | invalid
  | mk (type : TypeStream) (init sized : Bool)

mutual

def ElementStream.createFromStream : ElementStream → Heap → Option (Option Nat × Heap)
  | .invalid, h => some (none, h)
  | .mk c [], h => do
      let made ← h.createChecked (matchesComponent c)
        (.element (.set c.mType c.mKind c.mNormalized c.mVectorSize) []) []
      return (some made.1, made.2)
  | .mk _ (field :: fields), h => do
      let labels := (field :: fields).map (·.1)
      let sub ← createFieldsFromStream (field :: fields) h
      -- `compute` and the loop behind it dereference every field
      let subElems ← sub.1.mapM id
      let made ← sub.2.createChecked (matchesFields labels subElems) (.element .initial labels) subElems
      let after ← subElems.foldlM Heap.decUserRefChecked made.2
      return (some made.1, after)

def createFieldsFromStream : List (FieldLabel × ElementStream) → Heap → Option (List (Option Nat) × Heap)
  | [], h => some ([], h)
  | (_, stream) :: rest, h => do
      let first ← stream.createFromStream h
      let others ← createFieldsFromStream rest first.2
      return (first.1 :: others.1, others.2)

end

def TypeStream.createFromStream : TypeStream → Heap → Option (Option Nat × Heap)
  | .invalid, h => some (none, h)
  | .mk element key, h => do
      let elem ← element.createFromStream h
      match elem with
      | (none, h) => return (none, h)
      | (some e, h) =>
        let type ← h.createChecked (matchesType key e) (.type key) [e]
        let after ← type.2.decUserRefChecked e
        return (some type.1, after)

def AllocationStream.createFromStream : AllocationStream → Heap → Option (Option Nat × Heap)
  | .invalid, h => some (none, h)
  | .mk type init sized, h => do
      let type ← type.createFromStream h
      match type with
      | (none, h) => return (none, h)
      | (some t, h) =>
        -- without memory `alloc` is NULL, and its size is asked for
        if !init then none
        else
          let alloc ← h.newChecked .allocation [t]
          let h ← alloc.2.decUserRefChecked t
          if sized then return (some alloc.1, h)
          else
            let h ← h.checkDeleteChecked h.next alloc.1
            let h ← h.checkDeleteChecked h.next t
            return (none, h)

inductive ObjectStream where
  | element (stream : ElementStream)
  | type (stream : TypeStream)
  | allocation (stream : AllocationStream)

def ObjectStream.createFromStream : ObjectStream → Heap → Option (Option Nat × Heap)
  | .element stream => stream.createFromStream
  | .type stream => stream.createFromStream
  | .allocation stream => stream.createFromStream

mutual

def ElementStream.valid : ElementStream → Bool
  | .invalid => false
  | .mk _ fields => validFields fields

def validFields : List (FieldLabel × ElementStream) → Bool
  | [] => true
  | (_, stream) :: rest => stream.valid && validFields rest

end

mutual

def ElementStream.find (h : Heap) : ElementStream → Option Nat
  | .invalid => none
  | .mk c [] => h.findLive (matchesComponent c)
  | .mk _ (field :: fields) => do
      let subElems ← findFields h (field :: fields)
      h.findLive (matchesFields ((field :: fields).map (·.1)) subElems)

def findFields (h : Heap) : List (FieldLabel × ElementStream) → Option (List Nat)
  | [] => some []
  | (_, stream) :: rest => do
      let first ← stream.find h
      let others ← findFields h rest
      return first :: others

end

def TypeStream.valid : TypeStream → Bool
  | .invalid => false
  | .mk element _ => element.valid

def TypeStream.find (h : Heap) : TypeStream → Option Nat
  | .invalid => none
  | .mk element key => do
      let e ← element.find h
      h.findLive (matchesType key e)

def ElementStream.Intact (stream : ElementStream) : Prop := stream = .invalid ∨ stream.valid = true

def TypeStream.Intact : TypeStream → Prop
  | .invalid => True
  | .mk element _ => element.Intact

/-- What a load that fails needs: an element is of another class as a whole, and an allocation with
a wrong size is of a type that is there already. -/
def ObjectStream.Clean (h : Heap) : ObjectStream → Prop
  | .element stream => stream.Intact
  | .type stream => stream.Intact
  | .allocation .invalid => True
  | .allocation (.mk stream init sized) =>
    stream.Intact ∧ (stream.valid = true → init = true ∧ (sized = true ∨ (stream.find h).isSome = true))

def What.interned : What → Bool
  | .element .. => true
  | .type _ => true
  | .allocation => false
  | .mesh => false

structure Heap.Settled (h : Heap) : Prop where
  counts : ∀ o, 0 ≤ (h.object o).mUserRefCount ∧ 0 ≤ (h.object o).mSysRefCount
  ordered : ∀ p, (h.object p).what.interned = true → ∀ child ∈ (h.object p).owns, child < p
  held : ∀ p < h.next, (h.object p).destroyed = false → ∀ child ∈ (h.object p).owns,
    child < h.next ∧ (h.object child).destroyed = false ∧ 0 < (h.object child).mSysRefCount
  unborn : ∀ o, h.next ≤ o → (h.object o).mUserRefCount = 0
  -- elements and types are destroyed with their last reference
  counted : ∀ o < h.next, (h.object o).destroyed = false → (h.object o).what.interned = true →
    0 < (h.object o).mUserRefCount + (h.object o).mSysRefCount

/-- NULL is returned, the objects from before are as they were, and the others destroyed. An object
cannot be destroyed twice, since that is an access to a destroyed one. -/
def Released (h : Heap) (outcome : Option (Option Nat × Heap)) : Prop :=
  ∃ after, outcome = some (none, after) ∧ (∀ o < h.next, after.object o = h.object o) ∧
    ∀ o, h.next ≤ o → o < after.next → (after.object o).destroyed = true

end RenderScript.A3D
