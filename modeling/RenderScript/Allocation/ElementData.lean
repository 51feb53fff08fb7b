import RenderScript.Element.ElementLayout
import RenderScript.Allocation.Uploads

/-!
# Fields of cells

`Allocation::elementData` of rsAllocation.cpp with `rsdAllocationElementData1D` and
`rsdAllocationElementData2D` of driver/rsdAllocation.cpp. The bytes of all entries of an array are
copied, but only the handles of the first one are counted.
-/

namespace RenderScript.Elements
open List

def Element.getFieldOffsetBytes (e : Element) (cIdx : Nat) : Nat :=
  (((offsetBits e.mFields 0)[cIdx]?.getD 0) >>> 3).toNat

def Element.fieldSize (e : Element) (cIdx : Nat) : Nat :=
  match e.mFields[cIdx]? with
  | none => 0
  | some (label, field) => field.getSizeBytes * label.arraySize.toNat

def entryReferences (e : Element) (bits : Nat) (entries : List Nat) : List Nat :=
  entries.flatMap fun ct => e.references.map ((UInt32.ofNat bits >>> 3).toNat + ct * e.getSizeBytes + ·)

def otherReferences : List (FieldLabel × Element) → Nat → Nat → List Nat
  | [], _, _ => []
  | (label, e) :: rest, bits, 0 =>
    entryReferences e bits (List.range label.arraySize.toNat).tail ++
      referencesIn rest (bits + e.getSizeBits * label.arraySize.toNat)
  | (label, e) :: rest, bits, cIdx + 1 =>
    entryReferences e bits (List.range label.arraySize.toNat) ++
      otherReferences rest (bits + e.getSizeBits * label.arraySize.toNat) cIdx

theorem Element.references_eq {e : Element} (some : e.mFields ≠ []) : e.references = referencesIn e.mFields 0 := by
  obtain ⟨addr, mComponent, mFields⟩ := e
  cases mFields with
  | nil => exact absurd rfl some
  | cons field rest => rw [Element.references, Element.mFields]

theorem Element.mHasReference_eq {e : Element} (some : e.mFields ≠ []) : e.mHasReference = hasReferenceIn e.mFields := by
  obtain ⟨addr, mComponent, mFields⟩ := e
  cases mFields with
  | nil => exact absurd rfl some
  | cons field rest => rw [Element.mHasReference, Element.mFields]

section

variable {fields : List (FieldLabel × Element)} {cIdx : Nat} {label : FieldLabel} {e : Element}
  (field : fields[cIdx]? = some (label, e))

include field

theorem references_perm (entries : label.arraySize.toNat ≠ 0 ∨ e.references = []) (bits : Nat) :
    (referencesIn fields bits).Perm (e.references.map ((((offsetBits fields bits)[cIdx]?.getD 0) >>> 3).toNat + ·) ++
        otherReferences fields bits cIdx) := by
  induction fields generalizing cIdx bits with
  | nil => cases field
  | cons first rest ih =>
    obtain ⟨firstLabel, firstElement⟩ := first
    cases cIdx with
    | zero =>
      cases field
      rw [referencesIn, otherReferences, offsetBits, entryReferences]
      rcases entries with some | nowhere
      · obtain ⟨more, count⟩ := Nat.exists_eq_succ_of_ne_zero some
        have range : List.range (more + 1) = 0 :: (List.range (more + 1)).tail := by
          rw [range_succ_eq_map]
          rfl
        rw [count, range, flatMap_cons, tail_cons, append_assoc]
        simp
      · have none (l : List Nat) : l.flatMap (fun _ => ([] : List Nat)) = [] := flatMap_eq_nil_iff.mpr fun _ _ => rfl
        simp [nowhere, none]
    | succ cIdx =>
      have later := ih field (bits + firstElement.getSizeBits * firstLabel.arraySize.toNat)
      rw [referencesIn, otherReferences, offsetBits, List.getElem?_cons_succ]
      refine (later.append_left _).trans ?_
      rw [← append_assoc, ← append_assoc]
      exact perm_append_comm.append_right _

theorem mHasReference_of_field (none : hasReferenceIn fields = false) : e.mHasReference = false := by
  induction fields generalizing cIdx with
  | nil => cases field
  | cons first rest ih =>
    rw [hasReferenceIn, Bool.or_eq_false_iff] at none
    cases cIdx with
    | zero =>
      cases field
      exact none.1
    | succ cIdx => exact ih field none.2

end

end RenderScript.Elements

namespace RenderScript.Copies
open ByteMemory Elements RenderScript.Types Allocations

/-- A call of `elementData`, without `y` in its form for one dimension. -/
structure ElementCall where
  x : UInt32
  y : Option UInt32
  cIdx : UInt32
  sizeBytes : Nat

namespace Alloc

variable (a : Alloc)

def elementDataAt (x y : UInt32) (data : Memory) (cIdx : UInt32) (sizeBytes : Nat) : Option Alloc :=
  match a.type.mElement.mFields[cIdx.toNat]? with
  | none => none
  | some (_, e) =>
    let ptr := a.getOffsetPtr x y 0 0 0 + a.type.mElement.getFieldOffsetBytes cIdx.toNat
    let a :=
      if a.hasReferences then
        { a with refs := e.visitRefs (adjustRef a.block (-1)) ptr (e.visitRefs (adjustRef data 1) 0 a.refs) }
      else a
    a.store ptr sizeBytes data

def rsdAllocationElementData1D (x : UInt32) (data : Memory) (cIdx : UInt32) (sizeBytes : Nat) : Option Alloc :=
  a.elementDataAt x 0 data cIdx sizeBytes

def rsdAllocationElementData2D (x y : UInt32) (data : Memory) (cIdx : UInt32) (sizeBytes : Nat) :
    Option Alloc :=
  a.elementDataAt x y data cIdx sizeBytes

def elementData1D (x : UInt32) (data : Memory) (cIdx : UInt32) (sizeBytes : Nat) :
    Option (Except String Alloc) :=
  if a.type.mElement.getFieldCount ≤ cIdx.toNat then
    some (.error "subElementData component out of range.")
  else if (a.table.lod 0).dimX ≤ x then some (.error "subElementData X offset out of range.")
  else if sizeBytes ≠ a.type.mElement.fieldSize cIdx.toNat then some (.error "subElementData bad size.")
  else (a.rsdAllocationElementData1D x data cIdx sizeBytes).map .ok

/-- The error of `y` has the text of that of `x`. -/
def elementData2D (x y : UInt32) (data : Memory) (cIdx : UInt32) (sizeBytes : Nat) :
    Option (Except String Alloc) :=
  if (a.table.lod 0).dimX ≤ x then some (.error "subElementData X offset out of range.")
  else if (a.table.lod 0).dimY ≤ y then some (.error "subElementData X offset out of range.")
  else if a.type.mElement.getFieldCount ≤ cIdx.toNat then
    some (.error "subElementData component out of range.")
  else if sizeBytes ≠ a.type.mElement.fieldSize cIdx.toNat then some (.error "subElementData bad size.")
  else (a.rsdAllocationElementData2D x y data cIdx sizeBytes).map .ok

def elementData (call : ElementCall) (data : Memory) : Option (Except String Alloc) :=
  match call.y with
  | none => a.elementData1D call.x data call.cIdx call.sizeBytes
  | some y => a.elementData2D call.x y data call.cIdx call.sizeBytes

end Alloc

structure ElementCall.Accepted (t : RsType) (call : ElementCall) : Prop where
  field : call.cIdx.toNat < t.mElement.getFieldCount
  x : call.x < t.dimX
  y : ∀ y ∈ call.y, y < t.dimY
  size : call.sizeBytes = t.mElement.fieldSize call.cIdx.toNat

namespace ElementCall

variable (t : RsType) (call : ElementCall)

def cell : Cell := { x := call.x.toNat, y := (call.y.getD 0).toNat, z := 0, lod := 0, face := 0 }

def region : Region :=
  ⟨call.cell.offset t + t.mElement.getFieldOffsetBytes call.cIdx.toNat, call.sizeBytes⟩

/-- All handles of the allocation besides those of the first entry of the field. -/
def otherHandles : Multiset Nat :=
  ((otherReferences t.mElement.mFields 0 call.cIdx.toNat).map (call.cell.offset t + ·) : List Nat) +
    ((cells t).erase call.cell).val.bind fun c => (c.handles t : Multiset Nat)

structure OwnBytes : Prop where
  inside : (call.region t).start + call.sizeBytes ≤ (allocationBuildPointerTable t).allocSize
  first : ∀ field ∈ t.mElement.mFields[call.cIdx.toNat]?, ∀ r ∈ field.2.references, r + 4 ≤ call.sizeBytes
  others : ∀ p ∈ call.otherHandles t, ∀ i < 4, ¬ (call.region t).Holds (p + i)

end ElementCall

end RenderScript.Copies

namespace RenderScript.Uploads
open ByteMemory Elements RenderScript.Types Allocations Copies List

/-- A type as `getTypeRef` makes it. -/
def Made (t : RsType) : Prop := t = RsType.create t.address t.mElement t.toTypeKey

section

variable {t : RsType} {call : ElementCall} {label : FieldLabel} {e : Element}
  (field : t.mElement.mFields[call.cIdx.toNat]? = some (label, e))

theorem accepted_cell (made : Made t) (accepted : call.Accepted t) : call.cell ∈ cells t := by
  have level : t.mLodDim 0 = firstLevel t := by
    rw [made]
    simp [RsType.create, TypeKey.lodDim, firstLevel]
  have levels : 0 < t.mLodCount.toNat := by
    rw [made]
    have count := TypeKey.toNat_lodCount t.toTypeKey
    change 0 < t.toTypeKey.lodCount.toNat
    rw [count]
    split
    · exact Nat.succ_pos _
    · exact one_pos
  refine mem_cells.mpr ⟨levels, faceTotal_pos, ?_, ?_, ?_⟩
  · change call.x.toNat < (t.mLodDim 0).x.toNat
    rw [level]
    exact UInt32.lt_iff_toNat_lt.mp accepted.x
  · change (call.y.getD 0).toNat < max (t.mLodDim 0).y.toNat 1
    rw [level]
    cases line : call.y with
    | none => exact lt_max_of_lt_right zero_lt_one
    | some y => exact lt_max_of_lt_left (UInt32.lt_iff_toNat_lt.mp (accepted.y y line))
  · exact lt_max_of_lt_right zero_lt_one

include field

/-- The handles of the first entry are released, those of the data acquired, and the bytes stored. -/
theorem elementData_eq (accepted : call.Accepted t) {a : Alloc} (of : a.Of t) (data : Memory) : ∃ refs, a.elementData call data =
        (({ a with refs := refs } : Alloc).store (call.region t).start call.sizeBytes data).map .ok ∧
      ∀ ob, ob ≠ 0 → refs ob = a.refs ob + tally data e.references ob -
        tally a.block (e.references.map ((call.region t).start + ·)) ob := by
  have entry := of.type ▸ field
  have place : a.getOffsetPtr call.x (call.y.getD 0) 0 0 0 +
      a.type.mElement.getFieldOffsetBytes call.cIdx.toNat = (call.region t).start := by
    rw [of.getOffsetPtr, of.type]
    rfl
  have width : (a.table.lod 0).dimX = t.dimX := by
    rw [of.table, table_first]
    rfl
  have height : (a.table.lod 0).dimY = t.dimY := by
    rw [of.table, table_first]
    rfl
  have known := of.type ▸ not_le.mpr accepted.field
  have inRow := width ▸ UInt32.not_le.mpr accepted.x
  have size := not_not.mpr (of.type ▸ accepted.size)
  have both : a.elementData call data = (a.elementDataAt call.x (call.y.getD 0) data call.cIdx call.sizeBytes).map .ok := by
    unfold Alloc.elementData
    cases line : call.y with
    | none => exact (if_neg known).trans ((if_neg inRow).trans (if_neg size))
    | some y =>
      have inPlane := height ▸ UInt32.not_le.mpr (accepted.y y line)
      exact (if_neg inRow).trans ((if_neg inPlane).trans ((if_neg known).trans (if_neg size)))
  rw [both]
  unfold Alloc.elementDataAt
  rw [entry]
  rw [place]
  cases has : a.hasReferences with
  | false =>
    have nowhere : e.references = [] := by
      apply references_of_not_mHasReference
      apply mHasReference_of_field field
      rw [← Element.mHasReference_eq (ne_nil_of_mem (mem_of_getElem? field)), ← of.type]
      exact has
    refine ⟨a.refs, rfl, fun ob _ => ?_⟩
    rw [nowhere]
    simp [tally]
  | true =>
    refine ⟨_, rfl, fun ob some => ?_⟩
    rw [visitRefs_eq, visitRefs_eq, foldl_adjustRef _ _ _ _ some, foldl_adjustRef _ _ _ _ some]
    simp only [zero_add, map_id']
    ring

theorem handlePlaces_eq (isIn : call.cell ∈ cells t) (entries : label.arraySize.toNat ≠ 0 ∨ e.references = []) :
    handlePlaces t = (e.references.map ((call.region t).start + ·) : List Nat) + call.otherHandles t := by
  have ne := ne_nil_of_mem (mem_of_getElem? field)
  have split : (call.cell.handles t : Multiset Nat) = (e.references.map ((call.region t).start + ·) : List Nat) +
        ((otherReferences t.mElement.mFields 0 call.cIdx.toNat).map (call.cell.offset t + ·) : List Nat) := by
    rw [Multiset.coe_add, Multiset.coe_eq_coe, Cell.handles, Element.references_eq ne]
    have places := (references_perm field entries 0).map (call.cell.offset t + ·)
    rw [map_append, map_map] at places
    simp only [ElementCall.region, Element.getFieldOffsetBytes, add_assoc]
    exact places
  rw [handlePlaces, ElementCall.otherHandles, ← Multiset.cons_erase (Finset.mem_val.mpr isIn),
    Multiset.cons_bind, split, add_assoc, ← Finset.erase_val]

theorem entries_of_first (accepted : call.Accepted t) (first : ∀ r ∈ e.references, r + 4 ≤ call.sizeBytes) :
    label.arraySize.toNat ≠ 0 ∨ e.references = [] := by
  by_cases none : label.arraySize.toNat = 0
  · right
    have size := accepted.size
    rw [Element.fieldSize, field] at size
    dsimp only at size
    rw [none, Nat.mul_zero] at size
    apply eq_nil_iff_forall_not_mem.mpr
    intro r mem
    have inside := first r mem
    omega
  · exact .inl none

theorem count_written (isIn : call.cell ∈ cells t) (accepted : call.Accepted t)
    (first : ∀ r ∈ e.references, r + 4 ≤ call.sizeBytes) (memory data : Memory) (ob : Nat) :
    handleCount t (write memory (call.region t) data) ob = tally data e.references ob +
      ((call.otherHandles t).map (handleAt (write memory (call.region t) data))).count ob := by
  have written : (e.references.map ((call.region t).start + ·)).map (handleAt (write memory (call.region t) data)) =
      e.references.map (handleAt data) := by
    rw [map_map]
    apply map_congr_left
    intro r mem
    exact handleAt_write_inside (first r mem)
  rw [handleCount_eq_count, handlePlaces_eq field isIn (entries_of_first field accepted first), Multiset.map_add,
    Multiset.count_add, Multiset.map_coe, written, Multiset.coe_count]
  rfl

theorem OwnBytes.counts (isIn : call.cell ∈ cells t) (accepted : call.Accepted t) (own : call.OwnBytes t)
    (memory data : Memory) (ob : Nat) :
    handleCount t (write memory (call.region t) data) ob + tally memory (e.references.map ((call.region t).start + ·)) ob =
      handleCount t memory ob + tally data e.references ob := by
  have first := own.first (label, e) field
  have kept : (call.otherHandles t).map (handleAt (write memory (call.region t) data)) =
      (call.otherHandles t).map (handleAt memory) := by
    apply Multiset.map_congr rfl
    intro p mem
    apply handleAt_congr
    intro i inHandle
    exact if_neg (own.others p mem i inHandle)
  rw [count_written field isIn accepted first, kept, handleCount_eq_count t memory,
    handlePlaces_eq field isIn (entries_of_first field accepted first), Multiset.map_add, Multiset.count_add,
    Multiset.map_coe, Multiset.coe_count]
  change _ + _ + tally _ _ _ = tally _ _ _ + _ + _
  omega

section

variable (isIn : call.cell ∈ cells t) (accepted : call.Accepted t)
  (always : ∀ a : Alloc, a.Of t → Counted a → ∀ data, ∃ a', a.elementData call data = some (.ok a') ∧ Counted a')

include accepted always

theorem counts_of_always (data : Memory) : (call.region t).start + call.sizeBytes ≤ (allocationBuildPointerTable t).allocSize ∧
      ∀ ob, ob ≠ 0 → tally data e.references ob = handleCount t (write (fun _ => 0) (call.region t) data) ob := by
  obtain ⟨a', done, counted⟩ := always (start t).1 ⟨rfl, rfl⟩ (Kept.start t).counted data
  obtain ⟨refs, result, counts⟩ := elementData_eq field accepted (⟨rfl, rfl⟩ : (start t).1.Of t) data
  rw [result] at done
  obtain ⟨after, stored, eq⟩ := Option.map_eq_some_iff.mp done
  cases eq
  have inside := Alloc.inside_of_store stored
  rw [Alloc.store_eq inside] at stored
  cases stored
  refine ⟨inside, fun ob some => ?_⟩
  have null : tally (start t).1.block (e.references.map ((call.region t).start + ·)) ob = 0 :=
    tally_of_null some fun p _ => handleAt_zero p
  have released := counts ob some
  have held : refs ob = handleCount t (write (fun _ => 0) (call.region t) data) ob := counted ob some
  have zero : (start t).1.refs ob = 0 := rfl
  omega

theorem first_of_always : ∀ r ∈ e.references, r + 4 ≤ call.sizeBytes := by
  intro r mem
  by_contra outside
  have counts := (counts_of_always field accepted always fun i => if i < call.sizeBytes then 0 else 1).2
  have zero : write (fun _ => 0) (call.region t) (fun i => if i < call.sizeBytes then 0 else 1) = fun _ => 0 := by
    funext location
    unfold write
    split
    · rename_i held
      exact if_pos (Nat.sub_lt_left_of_lt_add held.1 held.2)
    · rfl
  have last : (if r + 3 < call.sizeBytes then (0 : UInt8) else 1) = 1 := if_neg (by omega)
  have some : handleAt (fun i => if i < call.sizeBytes then 0 else 1) r ≠ 0 := by
    rw [handleAt_eq, last]
    have one : (1 : UInt8).toNat = 1 := rfl
    omega
  have found := @one_le_tally (fun i => if i < call.sizeBytes then 0 else 1) e.references _ r mem rfl
  rw [counts _ some, zero, handleCount_zero some] at found
  omega

include isIn

theorem others_of_always : ∀ p ∈ call.otherHandles t, ∀ i < 4, ¬ (call.region t).Holds (p + i) := by
  intro p mem i inHandle held
  have first := first_of_always field accepted always
  have counts := (counts_of_always field accepted always fun _ => 1).2
  have grown : (write (fun _ => 0) (call.region t) (fun _ => 1) (p + i)).toNat = 1 := by
    rw [write, if_pos held]
    rfl
  obtain ⟨ob, some, ne⟩ := @exists_count_ne (fun _ => 0) (write (fun _ => 0) (call.region t) fun _ => 1) p
    (call.otherHandles t) (fun loc => Nat.zero_le _) mem i inHandle (grown ▸ zero_lt_one)
  apply ne
  have split := count_written field isIn accepted first (fun _ => 0) (fun _ => 1) ob
  rw [← counts ob some] at split
  have none : ((call.otherHandles t).map (handleAt fun _ => 0)).count ob = 0 := by
    rw [Multiset.count_eq_zero]
    intro found
    obtain ⟨q, -, zero⟩ := Multiset.mem_map.mp found
    exact some (zero.symm.trans (handleAt_zero q))
  omega

end

end

/-- A field can be written, whatever its data and the cells are, exactly if the call writes the handles of
its first entry and no others. -/
theorem element_data_counted_iff {t : RsType} (made : Made t) {call : ElementCall} (accepted : call.Accepted t) :
    (∀ a : Alloc, a.Of t → Counted a → ∀ data, ∃ a', a.elementData call data = some (.ok a') ∧ Counted a') ↔ call.OwnBytes t := by
  have isIn := accepted_cell made accepted
  obtain ⟨⟨label, e⟩, field⟩ : ∃ entry, t.mElement.mFields[call.cIdx.toNat]? = some entry :=
    ⟨_, List.getElem?_eq_getElem accepted.field⟩
  constructor
  · intro always
    refine ⟨(counts_of_always field accepted always fun _ => 0).1, ?_, others_of_always field isIn accepted always⟩
    intro entry found
    cases found.symm.trans field
    exact first_of_always field accepted always
  · intro own a of counted data
    obtain ⟨refs, result, counts⟩ := elementData_eq field accepted of data
    have inside : (call.region t).start + call.sizeBytes ≤ ({ a with refs := refs } : Alloc).table.allocSize :=
      own.inside.trans_eq (congrArg DrvState.allocSize of.table.symm)
    rw [result, Alloc.store_eq inside]
    refine ⟨_, rfl, fun ob some => ?_⟩
    have written := OwnBytes.counts field isIn accepted own a.block data ob
    have before := counted ob some
    rw [of.laid] at before
    change refs ob = (handleCount a.laid (write a.block (call.region t) data) ob : Int)
    rw [of.laid, counts ob some, before]
    omega

private def arrayOf (arraySize : UInt32) : Element :=
  .mk 1 .initial [({ name := .ofBuffer [], arraySize := arraySize }, .mk 0 (.set .allocation .user false 1) [])]

private def arrays (arraySize dimX : UInt32) : RsType :=
  .create 0 (arrayOf arraySize)
    { dimX := dimX, dimY := 0, dimZ := 0, mDimLOD := false, faces := false, dimYuv := 0 }

theorem element_data_counted_iff_single : Made (arrays 1 1) ∧ ∀ a : Alloc, a.Of (arrays 1 1) → Counted a → ∀ data,
      ∃ a', a.elementData ⟨0, none, 0, 4⟩ data = some (.ok a') ∧ Counted a' := by
  have accepted : ElementCall.Accepted (arrays 1 1) ⟨0, none, 0, 4⟩ := by
    refine ⟨by decide, by decide, fun y none => ?_, by decide⟩
    cases none
  have made : Made (arrays 1 1) := rfl
  refine ⟨made, (element_data_counted_iff made accepted).mpr ⟨by decide, ?_, ?_⟩⟩
  · decide
  · decide

/-- An array of two handles gets one in its second entry. -/
theorem element_data_not_counted : Counted (start (arrays 2 1)).1 ∧
      ∃ a', (start (arrays 2 1)).1.elementData ⟨0, none, 0, 8⟩ (fun i => if i = 4 then 7 else 0) =
        some (.ok a') ∧ a'.refs 7 = 0 ∧ handleCount a'.laid a'.block 7 = 1 := by
  refine ⟨(Kept.start _).counted, _, rfl, rfl, ?_⟩
  decide

end RenderScript.Uploads
