import RenderScript.Client.ClientAllocation
import RenderScript.Element.ElementLayout

/-!
# Elements of the client

`Element` and `Element::Builder` of cpp/Element.cpp. A client element is an object of
its own that remembers the core object in `mID`.
-/

namespace RenderScript.Client
open Elements List

/-- `address` is the client object itself. Of a structure the names, sizes and offsets of all
fields are kept, and which of them are visible. -/
structure ClientElement where
  address : Nat
  mID : Nat
  mSizeBytes : Nat
  mVectorSize : UInt32
  mElementNames : List (List UInt8) := []
  mArraySizes : List UInt32 := []
  mOffsetInBytes : List UInt32 := []
  mVisibleElementMap : List Nat := []

/-- `GetSizeInBytesForType`; types without a case are logged. -/
def getSizeInBytesForType : RsDataType → UInt32
  | .none => 0
  | .signed8 | .unsigned8 | .boolean => 1
  | .float16 | .signed16 | .unsigned16 | .unsigned565 | .unsigned5551 | .unsigned4444 => 2
  | .float32 | .signed32 | .unsigned32 => 4
  | .float64 | .signed64 | .unsigned64 => 8
  | .matrix4x4 => 16 * 4
  | .matrix3x3 => 9 * 4
  | .matrix2x2 => 4 * 4
  | .type | .allocation | .sampler | .script | .mesh | .programFragment | .programVertex
  | .programRaster | .programStore => 4
  | .element | .font | .invalid | .unnamed _ _ => 0

def ClientElement.simple (address mID : Nat) (dt : RsDataType) (size : UInt32) : ClientElement :=
  let tsize := getSizeInBytesForType dt
  { address := address, mID := mID, mVectorSize := size
    mSizeBytes :=
      match dt with
      | .unsigned565 | .unsigned4444 | .unsigned5551 => tsize.toNat
      | _ => if size = 3 then (tsize * 4).toNat else (tsize * size).toNat }

def isPaddingName (name : List UInt8) : Bool := (CString.ofBuffer name).bytes.head? == some 35

def updateVisibleSubElements (mElementNames : List (List UInt8)) : List Nat :=
  (mElementNames.zipIdx.filter fun named => !isPaddingName named.1).map Prod.snd

def getSubElementOffsetBytes (e : ClientElement) (index : Nat) : StateM RS UInt32 :=
  if e.mVisibleElementMap.length ≠ 0 then do
    RS.throwError .invalidParameter "Element contains no sub-elements"
    return 0
  else if e.mVisibleElementMap.length ≤ index then do
    RS.throwError .invalidParameter "Illegal sub-element index"
    return 0
  else
    return (e.mVisibleElementMap[index]?.bind fun place => e.mOffsetInBytes[place]?).getD 0

/-- The arguments of `add`. -/
structure Addition where
  e : ClientElement
  name : List UInt8
  arraySize : UInt32

structure Builder where
  fields : List Addition := []
  mSkipPadding : Bool := false

/-- The characters of `#padding_`. -/
def paddingName : List UInt8 := [35, 112, 97, 100, 100, 105, 110, 103, 95]

def Builder.add (b : Builder) (addition : Addition) : Builder :=
  let s2 := (CString.ofBuffer addition.name).bytes
  if b.mSkipPadding ∧ paddingName.length ≤ s2.length ∧ s2.take paddingName.length = paddingName then
    { b with mSkipPadding := false }
  else
    { fields := b.fields ++ [addition], mSkipPadding := addition.e.mVectorSize = 3 }

def Builder.addAll (additions : List Addition) : Builder := additions.foldl Builder.add {}

/-- One index of the arrays that `ElementCreate2` is given. -/
structure HandedField where
  element : Nat
  name : CString
  nameLength : Nat
  arraySize : UInt32
  deriving DecidableEq

/-- `create` passes the addresses of the client's own objects. -/
def Builder.handed (b : Builder) : List HandedField :=
  b.fields.map fun field =>
    { element := field.e.address, name := .ofBuffer field.name, nameLength := field.name.length, arraySize := field.arraySize }

def placeAdditions : List Addition → Nat → List UInt32 × Nat
  | [], mSizeBytes => ([], mSizeBytes)
  | field :: rest, mSizeBytes =>
    let (offsets, size) :=
      placeAdditions rest (sizeT (mSizeBytes + field.e.mSizeBytes * field.arraySize.toNat))
    (.ofNat mSizeBytes :: offsets, size)

/-- The client element that `create` returns. -/
def Builder.element (b : Builder) (address mID : Nat) : ClientElement :=
  let (offsets, size) := placeAdditions b.fields 0
  { address := address, mID := mID, mSizeBytes := size, mVectorSize := 1, mElementNames := b.fields.map Addition.name
    mArraySizes := b.fields.map Addition.arraySize
    mOffsetInBytes := offsets
    mVisibleElementMap :=
      if b.fields = [] then [] else updateVisibleSubElements (b.fields.map Addition.name) }

/-- `rsi_ElementCreate2`; no value when a pointer is not a live core element. -/
def elementCreate2 (fields : List HandedField) (state : ElementState) :
    Option (Element × ElementState) := do
  let specs ← fields.mapM fun field => do
    let ein ← state.mElements.find? fun ee => ee.address == field.element
    return ({ ein := ein, nin := field.name, len := field.nameLength, asize := field.arraySize } : FieldSpec)
  return createRefFields specs state

/-- `fieldOffsetBytes` of the driver state: padding fields are left out. -/
def fieldOffsetBytes (e : Element) : List UInt32 :=
  ((e.mFields.zip (offsetBits e.mFields 0)).filter fun placed =>
    !(placed.1.1.name.bytes.head? == some 35)).map fun placed => placed.2 >>> (3 : UInt32)

/-- The core gets its own objects, names and array sizes in the order of the additions, and both
sides have the same size and the same offsets of the visible fields. -/
structure Agrees (additions : List Addition) (address mID : Nat) (state : ElementState) : Prop where
  handed : (Builder.addAll additions).handed = additions.map fun addition =>
    { element := addition.e.mID, name := .ofBuffer addition.name, nameLength := addition.name.length
      arraySize := addition.arraySize }
  built : ∃ core after, elementCreate2 (Builder.addAll additions).handed state = some (core, after) ∧
    ((Builder.addAll additions).element address mID).mSizeBytes = core.getSizeBytes ∧
    ∀ index offset, (fieldOffsetBytes core)[index]? = some offset → ∀ rs : RS,
      ((getSubElementOffsetBytes ((Builder.addAll additions).element address mID) index).run rs).1 =
        offset

/-- What the client holds: its objects are not core objects, and they know live core objects. -/
structure Held (additions : List Addition) (state : ElementState) : Prop where
  apart : ∀ addition ∈ additions, ∀ e ∈ state.mElements, addition.e.address ≠ e.address
  live : ∀ addition ∈ additions, ∃ e ∈ state.mElements, addition.e.mID = e.address

theorem fields_foldl_add (additions : List Addition) (b : Builder) :
    ∃ more, (additions.foldl Builder.add b).fields = b.fields ++ more := by
  induction additions generalizing b with
  | nil => exact ⟨[], (append_nil _).symm⟩
  | cons addition rest ih =>
    obtain ⟨more, later⟩ := ih (b.add addition)
    rw [foldl_cons, later, Builder.add]
    split
    · exact ⟨more, rfl⟩
    · exact ⟨addition :: more, by rw [append_assoc]; rfl⟩

theorem fields_addAll_cons (addition : Addition) (rest : List Addition) :
    ∃ more, (Builder.addAll (addition :: rest)).fields = addition :: more := by
  obtain ⟨more, later⟩ := fields_foldl_add rest (Builder.add {} addition)
  refine ⟨more, later.trans ?_⟩
  rfl

def isSimple (ee : Element) : Bool := decide (ee.mFields = [])

theorem getSizeBytes_initial (address : Nat) : (Element.mk address .initial []).getSizeBytes = 0 := by
  have bits : (Element.mk address .initial []).mBits = 0 := if_pos rfl
  rw [Element.getSizeBytes, getSizeBits_leaf rfl, bits]
  rfl

/-- Without fields, `createRef` takes the first element that has none. -/
theorem createRefFields_nil (state : ElementState) : (createRefFields [] state).1.mFields = [] ∧
      ((createRefFields [] state).1.getSizeBytes = 0 ↔ ∀ ee, state.mElements.find? isSimple = some ee → ee.getSizeBytes = 0) := by
  have eq : Element.matchesFields [] = isSimple := by
    funext ee
    rw [Element.matchesFields, Element.getFieldCount, isSimple]
    cases ee.mFields <;> rfl
  rw [createRefFields, eq]
  cases found : state.mElements.find? isSimple with
  | none => exact ⟨rfl, iff_of_true (getSizeBytes_initial _) fun _ none => nomatch none⟩
  | some ee =>
    have simple : isSimple ee = true := List.find?_some found
    refine ⟨of_decide_eq_true simple, fun size other isOther => ?_, fun all => all ee rfl⟩
    cases isOther
    exact size

/-- The two sides agree only on a structure without fields, and only when the element that the
core takes for it has no size. -/
theorem builder_agrees_iff {additions : List Addition} {state : ElementState} (held : Held additions state) (address mID : Nat) :
    Agrees additions address mID state ↔ additions = [] ∧
      ∀ ee, state.mElements.find? isSimple = some ee → ee.getSizeBytes = 0 := by
  cases additions with
  | cons addition rest =>
    refine iff_of_false (fun agrees => ?_) fun both => cons_ne_nil _ _ both.1
    obtain ⟨more, fields⟩ := fields_addAll_cons addition rest
    have handed := agrees.handed
    rw [Builder.handed, fields, map_cons, map_cons, cons.injEq] at handed
    have eq : addition.e.address = addition.e.mID := congrArg HandedField.element handed.1
    obtain ⟨e, mem, isCore⟩ := held.live addition mem_cons_self
    exact held.apart addition mem_cons_self e mem (eq.trans isCore)
  | nil =>
    obtain ⟨noFields, size⟩ := createRefFields_nil state
    have created : elementCreate2 (Builder.addAll []).handed state = some (createRefFields [] state) := rfl
    rw [and_iff_right rfl, ← size]
    constructor
    · rintro ⟨-, core, after, isCreated, eq, -⟩
      have isCore := Option.some.inj (isCreated.symm.trans created)
      rw [← isCore]
      exact eq.symm
    · intro zero
      refine ⟨rfl, (createRefFields [] state).1, (createRefFields [] state).2, created, zero.symm, ?_⟩
      intro i offset found
      rw [fieldOffsetBytes, noFields] at found
      cases found

private def core : ElementState := (createRef .float32 .user false 1 {}).2

private def added : Addition :=
  { e := .simple 100 0 .float32 1, name := [120], arraySize := 1 }

/-- Nothing was added and the core has no elements yet. -/
theorem builder_agrees_empty : Held [] {} ∧ Agrees [] 200 1 {} := by
  have held : Held [] {} := ⟨fun _ none => absurd none not_mem_nil, fun _ none => absurd none not_mem_nil⟩
  exact ⟨held, (builder_agrees_iff held 200 1).mpr ⟨rfl, fun _ none => nomatch none⟩⟩

/-- A structure with one float: the core gets the address of the client's object, which is no
core element. -/
theorem builder_disagrees : Held [added] core ∧ (Builder.addAll [added]).handed.map HandedField.element = [100] ∧
      added.e.mID = 0 ∧ elementCreate2 (Builder.addAll [added]).handed core = none ∧
      ¬ Agrees [added] 200 1 core := by
  have apart : ∀ addition ∈ [added], ∀ e ∈ core.mElements, addition.e.address ≠ e.address := by
    intro addition isAdded e mem
    cases mem_singleton.mp isAdded
    cases mem_singleton.mp mem
    decide
  have live : ∀ addition ∈ [added], ∃ e ∈ core.mElements, addition.e.mID = e.address := by
    intro addition isAdded
    cases mem_singleton.mp isAdded
    exact ⟨_, .head _, rfl⟩
  refine ⟨⟨apart, live⟩, rfl, rfl, rfl, fun agrees => ?_⟩
  have eq := agrees.handed
  exact absurd eq (by decide +kernel)

end RenderScript.Client
