import RenderScript.Allocation.PackedData
import RenderScript.Element.ElementLayout

/-!
# Uniforms of a shader

The table of uniform names that `RsdShader::init` of driver/rsdShader.cpp builds, the indices
under which `setupUserConstants` uploads the constants, and the floats that GL takes.
-/

namespace RenderScript.Uniforms
open ByteMemory Elements List

/-- `mHal.state.fields` -/
def visibleFields (e : Element) : List (FieldLabel × Element) := e.mFields.filter fun field => !field.1.isPadding

def fieldsCount (e : Element) : Nat := (visibleFields e).length

/-- "UNI_" -/
def RS_SHADER_UNI : List UInt8 := [85, 78, 73, 95]

mutual

/-- The names and array sizes that are added to the table. -/
def initAddUserElement : Element → List (List UInt8 × UInt32)
  | .mk _ _ mFields => initAddFields mFields

def initAddFields : List (FieldLabel × Element) → List (List UInt8 × UInt32)
  | [] => []
  | (label, ce) :: rest =>
    (if label.isPadding then []
      else if fieldsCount ce ≠ 0 then initAddUserElement ce
      else [(RS_SHADER_UNI ++ label.name.bytes, label.arraySize)]) ++ initAddFields rest

end

/-- The element of `constantTypes[ct]`, and the data of `constants[ct]` if there is an allocation. -/
abbrev Slot := Element × Option Memory

/-- The loop over the constants in `init`. -/
def uniformTable (slots : List Slot) : List (List UInt8 × UInt32) :=
  slots.flatMap fun slot => initAddUserElement slot.1

/-- The index at which `init` enters a field of a constant. Structures have no entry of their own. -/
def uniformIndex (slots : List Slot) (c f : Nat) : Option Nat := do
  let slot ← slots[c]?
  let field ← (visibleFields slot.1)[f]?
  if fieldsCount field.2 = 0 then
    some ((uniformTable (slots.take c)).length + (initAddFields ((visibleFields slot.1).take f)).length)
  else none

structure Upload where
  uidx : Nat
  ct : Nat
  field : Nat

def setupUserConstants : List Slot → Nat → Nat → List Upload
  | [], _, _ => []
  | (_, none) :: rest, ct, uidx => setupUserConstants rest (ct + 1) uidx
  | (e, some _) :: rest, ct, uidx =>
    (List.range (fieldsCount e)).map (fun field => ⟨uidx + field, ct, field⟩) ++
      setupUserConstants rest (ct + 1) (uidx + fieldsCount e)

def visibleBefore (slots : List Slot) (c : Nat) : Nat := ((slots.take c).map fun slot => fieldsCount slot.1).sum

/-- Each visible field of a constant that is bound goes to the uniform at its index in the table. -/
def Agrees (slots : List Slot) : Prop :=
  ∀ c e data f, slots[c]? = some (e, some data) → f < fieldsCount e →
    ⟨f + visibleBefore slots c, c, f⟩ ∈ setupUserConstants slots 0 0 ∧
      uniformIndex slots c f = some (f + visibleBefore slots c)

mutual

def leafCount : Element → Nat
  | .mk _ _ mFields => if (mFields.filter fun field => !field.1.isPadding).length = 0 then 1 else leafCounts mFields

def leafCounts : List (FieldLabel × Element) → Nat
  | [] => 0
  | (label, e) :: rest => (if label.isPadding then 0 else leafCount e) + leafCounts rest

end

/-- Before a bound constant there are no structures with several leaves and no unbound constants with
fields, and its own fields are no structures. -/
def Indexed (slots : List Slot) : Prop :=
  ∀ c e data, slots[c]? = some (e, some data) → fieldsCount e ≠ 0 →
    (∀ slot ∈ slots.take c, leafCounts slot.1.mFields = fieldsCount slot.1 ∧ (slot.2 = none → fieldsCount slot.1 = 0)) ∧
    ∀ field ∈ visibleFields e, fieldsCount field.2 = 0

mutual

theorem length_initAddUserElement : ∀ e : Element, (initAddUserElement e).length = leafCounts e.mFields
  | .mk _ _ mFields => length_initAddFields mFields

theorem length_initAddFields : ∀ fields : List (FieldLabel × Element), (initAddFields fields).length = leafCounts fields
  | [] => rfl
  | (label, .mk address component mFields) :: rest => by
    have inner := length_initAddUserElement (.mk address component mFields)
    rw [initAddFields, leafCounts, leafCount, length_append, length_initAddFields rest, fieldsCount,
      visibleFields, Element.mFields]
    cases label.isPadding with
    | true => rfl
    | false =>
      rw [if_neg Bool.false_ne_true, if_neg Bool.false_ne_true]
      split
      case isTrue => rw [inner, Element.mFields]
      case isFalse none => rw [if_pos (not_not.mp none), length_singleton]

end

mutual

theorem leafCount_pos : ∀ e : Element, 0 < leafCount e
  | .mk _ _ mFields => by
    have enough := length_filter_le_leafCounts mFields
    rw [leafCount]
    split
    case isTrue => exact Nat.one_pos
    case isFalse some => omega

theorem length_filter_le_leafCounts : ∀ fields : List (FieldLabel × Element),
    (fields.filter fun field => !field.1.isPadding).length ≤ leafCounts fields
  | [] => Nat.le_refl 0
  | (label, e) :: rest => by
    have here := leafCount_pos e
    have later := length_filter_le_leafCounts rest
    rw [filter_cons, leafCounts]
    cases label.isPadding with
    | true => simpa using later
    | false =>
      rw [Bool.not_false, if_pos rfl, if_neg Bool.false_ne_true, length_cons]
      omega

end

theorem leafCounts_of_leaves {fields : List (FieldLabel × Element)}
    (leaves : ∀ field ∈ fields, field.1.isPadding = false ∧ fieldsCount field.2 = 0) :
    leafCounts fields = fields.length := by
  induction fields with
  | nil => rfl
  | cons first rest ih =>
    obtain ⟨label, ⟨addr, component, mFields⟩⟩ := first
    obtain ⟨⟨shown, leaf⟩, later⟩ := forall_mem_cons.mp leaves
    rw [fieldsCount, visibleFields, Element.mFields] at leaf
    rw [leafCounts, shown, if_neg Bool.false_ne_true, leafCount, if_pos leaf, ih later, length_cons, add_comm]

section

variable {slots : List Slot} {c f : Nat} {e : Element} {data : Memory}

/-- The counter of `setupUserConstants` counts the fields of the bound constants only. -/
def boundBefore (slots : List Slot) (c : Nat) : Nat :=
  ((slots.take c).map fun slot => if slot.2.isSome then fieldsCount slot.1 else 0).sum

theorem uidx_of_mem {ct uidx : Nat} {u : Upload} (uploaded : u ∈ setupUserConstants slots ct uidx) :
    ∃ k, u.ct = ct + k ∧ u.uidx = uidx + boundBefore slots k + u.field := by
  induction slots generalizing ct uidx with
  | nil => exact absurd uploaded not_mem_nil
  | cons slot rest ih =>
    obtain ⟨e, _ | data⟩ := slot
    · obtain ⟨k, slot, i⟩ := ih uploaded
      refine ⟨k + 1, by omega, ?_⟩
      simp [i, boundBefore]
    · rcases mem_append.mp uploaded with here | later
      · obtain ⟨field, -, rfl⟩ := mem_map.mp here
        exact ⟨0, rfl, rfl⟩
      · obtain ⟨k, slot, i⟩ := ih later
        refine ⟨k + 1, by omega, ?_⟩
        simp [i, boundBefore, add_assoc]

theorem mem_setupUserConstants {ct uidx : Nat} (found : slots[c]? = some (e, some data)) (inside : f < fieldsCount e) :
    ⟨uidx + boundBefore slots c + f, ct + c, f⟩ ∈ setupUserConstants slots ct uidx := by
  induction slots generalizing c ct uidx with
  | nil => simp at found
  | cons slot rest ih =>
    cases c with
    | zero =>
      cases found
      exact mem_append_left _ (mem_map.mpr ⟨f, mem_range.mpr inside, rfl⟩)
    | succ c =>
      have later (start : Nat) := @ih c (ct + 1) start found
      rw [boundBefore, take_succ_cons, map_cons, sum_cons, ← boundBefore, ← add_assoc, add_comm c, ← add_assoc]
      obtain ⟨other, _ | data⟩ := slot
      · exact later uidx
      · exact mem_append_right _ (later (uidx + fieldsCount other))

theorem bound_iff : boundBefore slots c = visibleBefore slots c ↔
    ∀ slot ∈ slots.take c, slot.2 = none → fieldsCount slot.1 = 0 := by
  rw [boundBefore, visibleBefore, sum_map_eq_iff fun slot _ => by split <;> omega]
  refine forall₂_congr fun slot _ => ?_
  obtain ⟨e, _ | data⟩ := slot
  · simp [eq_comm]
  · simp

theorem length_uniformTable : (uniformTable (slots.take c)).length = visibleBefore slots c ↔
    ∀ slot ∈ slots.take c, leafCounts slot.1.mFields = fieldsCount slot.1 := by
  have length : (uniformTable (slots.take c)).length = ((slots.take c).map fun slot => leafCounts slot.1.mFields).sum := by
    simp [uniformTable, length_initAddUserElement]
  have le (slot : Slot) : fieldsCount slot.1 ≤ leafCounts slot.1.mFields := length_filter_le_leafCounts slot.1.mFields
  rw [length, visibleBefore, eq_comm, sum_map_eq_iff fun slot _ => le slot]
  exact forall₂_congr fun slot _ => eq_comm

theorem uniformIndex_eq_some_iff {index : Nat} {field : FieldLabel × Element}
    (found : slots[c]? = some (e, some data)) (isField : (visibleFields e)[f]? = some field) :
    uniformIndex slots c f = some index ↔ fieldsCount field.2 = 0 ∧
      (uniformTable (slots.take c)).length + leafCounts ((visibleFields e).take f) = index := by
  rw [uniformIndex, found]
  simp [isField, length_initAddFields]

theorem uniform_index_iff (slots : List Slot) : Agrees slots ↔ Indexed slots := by
  constructor
  · intro agrees c e data found some
    have i (f : Nat) (inside : f < fieldsCount e) := (uniformIndex_eq_some_iff found
      (List.getElem?_eq_getElem inside)).mp (agrees c e data f found inside).2
    obtain ⟨k, slot, uidx⟩ := uidx_of_mem (agrees c e data 0 found (pos_of_ne_zero some)).1
    dsimp only at slot uidx
    obtain rfl : c = k := by omega
    have first := (i 0 (pos_of_ne_zero some)).2
    rw [take_zero, leafCounts, add_zero, zero_add] at first
    have before := length_uniformTable.mp first
    have bound := bound_iff.mp (by omega : boundBefore slots c = visibleBefore slots c)
    refine ⟨fun slot mem => ⟨before slot mem, bound slot mem⟩, fun field mem => ?_⟩
    obtain ⟨f, inside, rfl⟩ := getElem_of_mem mem
    exact (i f inside).1
  · intro indexed c e data f found inside
    obtain ⟨before, leaves⟩ := indexed c e data found (ne_zero_of_lt inside)
    constructor
    · have uploaded := @mem_setupUserConstants _ c f e data 0 0 found inside
      rwa [bound_iff.mpr fun slot mem => (before slot mem).2, zero_add, zero_add, add_comm] at uploaded
    · have own : leafCounts ((visibleFields e).take f) = f := by
        rw [leafCounts_of_leaves, length_take_of_le (le_of_lt inside)]
        intro field mem
        have visible := mem_of_mem_take mem
        exact ⟨by simpa using (mem_filter.mp visible).2, leaves field visible⟩
      rw [uniformIndex_eq_some_iff found (List.getElem?_eq_getElem inside), own,
        length_uniformTable.mpr fun slot mem => (before slot mem).1]
      exact ⟨leaves _ (getElem_mem inside), add_comm _ _⟩

end

/-- A constant of one float. -/
def oneFloat : Element :=
  .mk 1 .initial [(⟨CString.ofBuffer [97], 1⟩, .mk 0 (.set .float32 .user false 1) [])]

theorem not_uniform_index : ¬ Agrees [(oneFloat, none), (oneFloat, some fun _ => 0)] := by
  intro agrees
  obtain ⟨k, slot, i⟩ := uidx_of_mem (agrees 1 oneFloat _ 0 rfl (by decide)).1
  obtain rfl : 1 = k := by simpa using slot
  exact absurd i (by decide)

def float (data : Memory) (address : Nat) : List UInt8 := (List.range 4).map fun byte => data (address + byte)

/-- Floats for each entry in the call of GL that `setUniform` makes, if it makes one. -/
def floatsPerEntry (field : Element) : Option Nat :=
  match field.mComponent.mType with
  | .matrix4x4 => some 16
  | .matrix3x3 => some 9
  | .matrix2x2 => some 4
  | _ =>
    let vectorSize := field.mComponent.mVectorSize
    if 1 ≤ vectorSize ∧ vectorSize ≤ 4 then some vectorSize.toNat else none

/-- The entries of the uniform; GL takes the floats of all entries one behind another. -/
def setUniform (field : Element) (data : Memory) (fd : Nat) (arraySize : UInt32) :
    Option (List (List (List UInt8))) :=
  (floatsPerEntry field).map fun n =>
    (List.range arraySize.toNat).map fun i => (List.range n).map fun j => float data (fd + 4 * (i * n + j))

/-- Each entry is the vector at its place in the array. -/
def Uploads (field : Element) (fd : Nat) (arraySize : UInt32) : Prop :=
  ∀ data : Memory, setUniform field data fd arraySize = some ((List.range arraySize.toNat).map fun i =>
    (List.range field.mComponent.mVectorSize.toNat).map fun j => float data (fd + i * field.getSizeBytes + 4 * j))

theorem getSizeBytes_float (address : Nat) (dk : RsDataKind) (norm : Bool) {vecSize : UInt32}
    (known : vecSize = 1 ∨ vecSize = 2 ∨ vecSize = 3 ∨ vecSize = 4) :
    (Element.mk address (.set .float32 dk norm vecSize) []).getSizeBytes = 4 * if vecSize = 3 then 4 else vecSize.toNat := by
  change ((32 * rsHigherPow2 vecSize).toNat + 7) >>> 3 = _
  rcases known with rfl | rfl | rfl | rfl <;> decide

theorem array_upload_iff (address : Nat) (dk : RsDataKind) (norm : Bool) (vecSize : UInt32) (fd : Nat) (arraySize : UInt32) :
    Uploads (.mk address (.set .float32 dk norm vecSize) []) fd arraySize ↔
      (1 ≤ vecSize ∧ vecSize ≤ 4) ∧ (vecSize ≠ 3 ∨ arraySize ≤ 1) := by
  have perEntry : floatsPerEntry (.mk address (.set .float32 dk norm vecSize) []) =
      if 1 ≤ vecSize ∧ vecSize ≤ 4 then some vecSize.toNat else none := rfl
  have width : (Element.mk address (.set .float32 dk norm vecSize) []).mComponent.mVectorSize = vecSize := rfl
  rw [Uploads, width]
  simp only [setUniform, perEntry]
  by_cases known : 1 ≤ vecSize ∧ vecSize ≤ 4
  · have size := @getSizeBytes_float address dk norm vecSize (by grind)
    rw [if_pos known]
    simp only [size, Option.map_some, Option.some.injEq, known, and_self, true_and]
    constructor
    · intro uploads
      by_contra! three
      obtain ⟨rfl, several⟩ := three
      -- the second vector starts one float behind the place where GL takes it
      have second := congrArg (·[1]?) (uploads fun address => if address = fd + 16 then 1 else 0)
      have more : 1 < arraySize.toNat := UInt32.lt_iff_toNat_lt.mp (UInt32.not_le.mp several)
      simp [more, float] at second
      exact absurd (second 0 (by decide) 0 (by decide)) (by simp)
    · rintro plain data
      refine map_congr_left fun i inside => map_congr_left fun j _ => congrArg _ ?_
      rcases plain with other | few
      · rw [if_neg other]
        ring
      · have few : arraySize.toNat ≤ 1 := few
        rw [mem_range] at inside
        obtain rfl : i = 0 := by omega
        omega
  · simp [known]

theorem not_array_upload : ¬ Uploads (.mk 0 (.set .float32 .user false 3) []) 0 2 := by
  intro uploads
  exact absurd (uploads fun addr => addr.toUInt8) (by decide)

end RenderScript.Uniforms
