import RenderScript.Client.ClientType

/-!
# Range copies of the client

The copies of `Allocation` of cpp/Allocation.cpp. Each entry point checks its
arguments in its own way, throws an error that is only remembered, and hands a
request to the core unless an error is pending. `size_t` has 64 bits.
-/

namespace RenderScript.Client
open RenderScript.Types

inductive RSError where
  | success
  | invalidParameter
  | runtimeError
  | invalidElement
  deriving DecidableEq

structure RS where
  mCurrentError : RSError := .success
  log : List String := []

def RS.throwError (error : RSError) (errMsg : String) : StateM RS Unit :=
  modify fun rs =>
    if rs.mCurrentError = .success then
      { mCurrentError := error, log := rs.log ++ ["RS CPP error: " ++ errMsg] }
    else
      { rs with log := rs.log ++ ["RS CPP error (masked by previous error): " ++ errMsg] }

/-- `elementBytes` is `mType->getElement()->getSizeBytes()`. Whether there is an adapted
allocation is all that is read of it. -/
structure ClientAllocation where
  elementBytes : Nat
  mAdaptedAllocation : Bool := false
  mSelectedLOD : UInt32 := 0
  mSelectedFace : UInt32 := 0
  mCurrentDimX : UInt32 := 0
  mCurrentDimY : UInt32 := 0
  mCurrentDimZ : UInt32 := 0
  mCurrentCount : UInt32 := 0

def ClientAllocation.updateCacheInfo (a : ClientAllocation) (t : ClientType) : ClientAllocation :=
  let count := t.mDimX
  let count := if t.mDimY > 1 then count * t.mDimY else count
  let count := if t.mDimZ > 1 then count * t.mDimZ else count
  { a with mCurrentDimX := t.mDimX, mCurrentDimY := t.mDimY, mCurrentDimZ := t.mDimZ, mCurrentCount := count }

/-- The constructor; `createTyped` always passes a type. -/
def ClientAllocation.create (t : ClientType) (elementBytes : Nat) : ClientAllocation :=
  ClientAllocation.updateCacheInfo { elementBytes := elementBytes } t

/-- What is handed to the core, without the pointers to the client's memory. -/
inductive Request where
  | allocation1DData (off lod count : UInt32) (sizeBytes : Nat)
  | allocation1DRead (off lod count : UInt32) (sizeBytes : Nat)
  | allocation2DData (xoff yoff lod face w h : UInt32) (sizeBytes stride : Nat)
  | allocation2DRead (xoff yoff lod face w h : UInt32) (sizeBytes stride : Nat)
  | allocation3DData (xoff yoff zoff lod w h d : UInt32) (sizeBytes stride : Nat)
  | allocationCopy2DRange (xoff yoff lod face w h : UInt32) (data : ClientAllocation)
      (dataXoff dataYoff dataLod dataFace : UInt32)
  | allocationCopy3DRange (xoff yoff zoff lod w h d : UInt32) (data : ClientAllocation)
      (dataXoff dataYoff dataZoff dataLod : UInt32)

def tryDispatch (request : Request) : StateM RS (Option Request) := do
  let rs ← get
  return if rs.mCurrentError = .success then some request else none

def sizeT (n : Nat) : Nat := n % 2 ^ 64

section

variable (a : ClientAllocation)

/-- The checks of `copy1DRangeFrom` and `copy1DRangeTo` for memory. `off + count` is computed
in `size_t`. -/
def check1D (off count : UInt32) (request : Request) : StateM RS (Option Request) :=
  if count < 1 then do
    RS.throwError .invalidParameter "Count must be >= 1."
    return none
  else if sizeT (off.toNat + count.toNat) > a.mCurrentCount.toNat then do
    RS.throwError .invalidParameter "Invalid copy specified"
    return none
  else tryDispatch request

def copy1DRangeFrom (off count : UInt32) : StateM RS (Option Request) :=
  check1D a off count
    (.allocation1DData off a.mSelectedLOD count (sizeT (count.toNat * a.elementBytes)))

def copy1DRangeTo (off count : UInt32) : StateM RS (Option Request) :=
  check1D a off count
    (.allocation1DRead off a.mSelectedLOD count (sizeT (count.toNat * a.elementBytes)))

def copy1DRangeFromAllocation (off count : UInt32) (data : ClientAllocation) (dataOff : UInt32) :
    StateM RS (Option Request) :=
  tryDispatch (.allocationCopy2DRange off 0 a.mSelectedLOD a.mSelectedFace count 1 data dataOff 0
    data.mSelectedLOD data.mSelectedFace)

/-- What `validate2DRange` lets pass; the sums have 32 bits. -/
def accepts2D (xoff yoff w h : UInt32) : Prop :=
  a.mAdaptedAllocation = true ∨
    ¬ (xoff + w > a.mCurrentDimX ∨ yoff + h > a.mCurrentDimY)

instance (xoff yoff w h : UInt32) : Decidable (accepts2D a xoff yoff w h) :=
  inferInstanceAs (Decidable (_ ∨ _))

def validate2DRange (xoff yoff w h : UInt32) : StateM RS Unit :=
  if accepts2D a xoff yoff w h then pure ()
  else RS.throwError .invalidParameter "Updated region larger than allocation."

/-- `w * h` is a product of 32 bits. -/
def planeBytes (w h : UInt32) : Nat := sizeT ((w * h).toNat * a.elementBytes)

def copy2DStridedFrom (xoff yoff w h : UInt32) (stride : Nat) : StateM RS (Option Request) := do
  validate2DRange a xoff yoff w h
  tryDispatch (.allocation2DData xoff yoff a.mSelectedLOD a.mSelectedFace w h (planeBytes a w h) stride)

def copy2DStridedTo (xoff yoff w h : UInt32) (stride : Nat) : StateM RS (Option Request) := do
  validate2DRange a xoff yoff w h
  tryDispatch (.allocation2DRead xoff yoff a.mSelectedLOD a.mSelectedFace w h (planeBytes a w h) stride)

def copy2DRangeFrom (xoff yoff w h : UInt32) : StateM RS (Option Request) :=
  copy2DStridedFrom a xoff yoff w h (sizeT (w.toNat * a.elementBytes))

def copy2DRangeTo (xoff yoff w h : UInt32) : StateM RS (Option Request) :=
  copy2DStridedTo a xoff yoff w h (sizeT (w.toNat * a.elementBytes))

def copy2DRangeFromAllocation (xoff yoff w h : UInt32) (data : ClientAllocation)
    (dataXoff dataYoff : UInt32) : StateM RS (Option Request) := do
  validate2DRange a xoff yoff w h
  tryDispatch (.allocationCopy2DRange xoff yoff a.mSelectedLOD a.mSelectedFace w h data dataXoff
    dataYoff data.mSelectedLOD data.mSelectedFace)

def accepts3D (xoff yoff zoff w h d : UInt32) : Prop :=
  a.mAdaptedAllocation = true ∨
    ¬ (xoff + w > a.mCurrentDimX ∨ yoff + h > a.mCurrentDimY ∨ zoff + d > a.mCurrentDimZ)

instance (xoff yoff zoff w h d : UInt32) : Decidable (accepts3D a xoff yoff zoff w h d) :=
  inferInstanceAs (Decidable (_ ∨ _))

def validate3DRange (xoff yoff zoff w h d : UInt32) : StateM RS Unit :=
  if accepts3D a xoff yoff zoff w h d then pure ()
  else RS.throwError .invalidParameter "Updated region larger than allocation."

def copy3DRangeFrom (xoff yoff zoff w h d : UInt32) : StateM RS (Option Request) := do
  validate3DRange a xoff yoff zoff w h d
  tryDispatch (.allocation3DData xoff yoff zoff a.mSelectedLOD w h d
    (sizeT ((w * h * d).toNat * a.elementBytes)) (sizeT (w.toNat * a.elementBytes)))

def copy3DRangeFromAllocation (xoff yoff zoff w h d : UInt32) (data : ClientAllocation)
    (dataXoff dataYoff dataZoff : UInt32) : StateM RS (Option Request) := do
  validate3DRange a xoff yoff zoff dataXoff dataYoff dataZoff
  tryDispatch (.allocationCopy3DRange xoff yoff zoff a.mSelectedLOD w h d data dataXoff dataYoff dataZoff data.mSelectedLOD)

end

/-- The calls of the entry points; copies of everything are calls with the current sizes. -/
inductive RangeCopy where
  | copy1DRangeFrom (off count : UInt32)
  | copy1DRangeTo (off count : UInt32)
  | copy1DRangeFromAllocation (off count : UInt32) (data : ClientAllocation) (dataOff : UInt32)
  | copy2DRangeFrom (xoff yoff w h : UInt32)
  | copy2DRangeTo (xoff yoff w h : UInt32)
  | copy2DStridedFrom (xoff yoff w h : UInt32) (stride : Nat)
  | copy2DStridedTo (xoff yoff w h : UInt32) (stride : Nat)
  | copy2DRangeFromAllocation (xoff yoff w h : UInt32) (data : ClientAllocation)
      (dataXoff dataYoff : UInt32)
  | copy3DRangeFrom (xoff yoff zoff w h d : UInt32)
  | copy3DRangeFromAllocation (xoff yoff zoff w h d : UInt32) (data : ClientAllocation)
      (dataXoff dataYoff dataZoff : UInt32)

def RangeCopy.run (a : ClientAllocation) : RangeCopy → StateM RS (Option Request)
  | .copy1DRangeFrom off count => Client.copy1DRangeFrom a off count
  | .copy1DRangeTo off count => Client.copy1DRangeTo a off count
  | .copy1DRangeFromAllocation off count data dataOff =>
    Client.copy1DRangeFromAllocation a off count data dataOff
  | .copy2DRangeFrom xoff yoff w h => Client.copy2DRangeFrom a xoff yoff w h
  | .copy2DRangeTo xoff yoff w h => Client.copy2DRangeTo a xoff yoff w h
  | .copy2DStridedFrom xoff yoff w h stride => Client.copy2DStridedFrom a xoff yoff w h stride
  | .copy2DStridedTo xoff yoff w h stride => Client.copy2DStridedTo a xoff yoff w h stride
  | .copy2DRangeFromAllocation xoff yoff w h data dataXoff dataYoff =>
    Client.copy2DRangeFromAllocation a xoff yoff w h data dataXoff dataYoff
  | .copy3DRangeFrom xoff yoff zoff w h d => Client.copy3DRangeFrom a xoff yoff zoff w h d
  | .copy3DRangeFromAllocation xoff yoff zoff w h d data dataXoff dataYoff dataZoff =>
    Client.copy3DRangeFromAllocation a xoff yoff zoff w h d data dataXoff dataYoff dataZoff

def ClientAllocation.level (a : ClientAllocation) : Level :=
  { x := a.mCurrentDimX, y := a.mCurrentDimY, z := a.mCurrentDimZ }

/-- All cells of the box are cells of the allocation; a missing dimension counts as one. -/
def BoxInside (a : ClientAllocation) (xoff yoff zoff w h d : Nat) : Prop :=
  ∀ x y z, xoff ≤ x → x < xoff + w → yoff ≤ y → y < yoff + h → zoff ≤ z → z < zoff + d →
    x < a.mCurrentDimX.toNat ∧ y < max a.mCurrentDimY.toNat 1 ∧ z < max a.mCurrentDimZ.toNat 1

/-- All cells of a run of cells, counted through all rows, are cells of the allocation. -/
def RunInside (a : ClientAllocation) (off count : Nat) : Prop :=
  ∀ index, off ≤ index → index < off + count → index < cellsOf a.level

/-- The region a request addresses in its allocation, and in the other allocation it reads. -/
def Request.Inside (a : ClientAllocation) : Request → Prop
  | .allocation1DData off _ count _ => RunInside a off.toNat count.toNat
  | .allocation1DRead off _ count _ => RunInside a off.toNat count.toNat
  | .allocation2DData xoff yoff _ _ w h _ _ => BoxInside a xoff.toNat yoff.toNat 0 w.toNat h.toNat 1
  | .allocation2DRead xoff yoff _ _ w h _ _ => BoxInside a xoff.toNat yoff.toNat 0 w.toNat h.toNat 1
  | .allocation3DData xoff yoff zoff _ w h d _ _ =>
    BoxInside a xoff.toNat yoff.toNat zoff.toNat w.toNat h.toNat d.toNat
  | .allocationCopy2DRange xoff yoff _ _ w h data dataXoff dataYoff _ _ =>
    BoxInside a xoff.toNat yoff.toNat 0 w.toNat h.toNat 1 ∧
      BoxInside data dataXoff.toNat dataYoff.toNat 0 w.toNat h.toNat 1
  | .allocationCopy3DRange xoff yoff zoff _ w h d data dataXoff dataYoff dataZoff _ =>
    BoxInside a xoff.toNat yoff.toNat zoff.toNat w.toNat h.toNat d.toNat ∧
      BoxInside data dataXoff.toNat dataYoff.toNat dataZoff.toNat w.toNat h.toNat d.toNat

def BoxEnds (a : ClientAllocation) (xoff yoff zoff w h d : Nat) : Prop :=
  xoff + w ≤ a.mCurrentDimX.toNat ∧ yoff + h ≤ max a.mCurrentDimY.toNat 1 ∧
    zoff + d ≤ max a.mCurrentDimZ.toNat 1

theorem boxInside_iff {a : ClientAllocation} {xoff yoff zoff w h d : Nat} :
    BoxInside a xoff yoff zoff w h d ↔ w = 0 ∨ h = 0 ∨ d = 0 ∨ BoxEnds a xoff yoff zoff w h d := by
  constructor
  · intro inside
    by_contra outside
    simp only [not_or] at outside
    obtain ⟨wide, high, deep, beyond⟩ := outside
    have last := inside (xoff + w - 1) (yoff + h - 1) (zoff + d - 1) (by omega) (by omega)
      (by omega) (by omega) (by omega) (by omega)
    apply beyond
    rw [BoxEnds]
    omega
  · intro ends x y z fromX toX fromY toY fromZ toZ
    rw [BoxEnds] at ends
    omega

section

variable {a : ClientAllocation} {rs : RS} {request handed : Request}

theorem tryDispatch_iff : ((tryDispatch request).run rs).1 = some handed ↔ rs.mCurrentError = .success ∧ request = handed := by
  change (if rs.mCurrentError = .success then some request else none) = some handed ↔ _
  simp

theorem throwError_pending (rs : RS) (errMsg : String) :
    ((RS.throwError .invalidParameter errMsg).run rs).2.mCurrentError ≠ .success := by
  change (if rs.mCurrentError = .success then _ else _ : RS).mCurrentError ≠ .success
  split
  · exact RSError.noConfusion
  · assumption

theorem checked_iff (accepted : Prop) [Decidable accepted] (errMsg : String) :
    (((if accepted then pure () else RS.throwError .invalidParameter errMsg : StateM RS Unit) >>=
        fun _ => tryDispatch request).run rs).1 = some handed ↔
      rs.mCurrentError = .success ∧ accepted ∧ request = handed := by
  by_cases accepts : accepted
  · rw [if_pos accepts, and_iff_right accepts]
    exact tryDispatch_iff
  · have pending := throwError_pending rs errMsg
    rw [if_neg accepts]
    constructor
    · intro dispatched
      exact absurd (tryDispatch_iff.mp dispatched).1 pending
    · intro all
      exact absurd all.2.1 accepts

theorem check1D_iff (off count : UInt32) : ((check1D a off count request).run rs).1 = some handed ↔
      rs.mCurrentError = .success ∧ (1 ≤ count.toNat ∧ off.toNat + count.toNat ≤ a.mCurrentCount.toNat) ∧ request = handed := by
  have small := count.toNat_lt
  have begins := off.toNat_lt
  have sum : sizeT (off.toNat + count.toNat) = off.toNat + count.toNat := Nat.mod_eq_of_lt (by omega)
  unfold check1D
  split
  · rename_i none
    have zero : count.toNat < 1 := UInt32.lt_iff_toNat_lt.mp none
    constructor
    · intro dispatched
      cases dispatched
    · omega
  · rename_i some
    have pos : 1 ≤ count.toNat := not_lt.mp fun none => some (UInt32.lt_iff_toNat_lt.mpr none)
    rw [sum]
    split
    · constructor
      · intro dispatched
        cases dispatched
      · omega
    · rename_i fits
      rw [tryDispatch_iff, and_iff_right (show _ ∧ _ from ⟨pos, not_lt.mp fits⟩)]

end

section

variable {t : ClientType} {elementBytes : Nat}

theorem mCurrentCount_le (t : ClientType) (elementBytes : Nat) : (ClientAllocation.create t elementBytes).mCurrentCount.toNat ≤
      cellsOf (ClientAllocation.create t elementBytes).level := by
  have product (count d : UInt32) : (if d > 1 then count * d else count).toNat ≤ count.toNat * max d.toNat 1 := by
    split
    · exact (Nat.mod_le _ _).trans (Nat.mul_le_mul_left _ (le_max_left _ _))
    · exact Nat.le_mul_of_pos_right _ (lt_of_lt_of_le one_pos (le_max_right _ _))
  have plane := product t.mDimX t.mDimY
  have space := product (if t.mDimY > 1 then t.mDimX * t.mDimY else t.mDimX) t.mDimZ
  refine space.trans ?_
  rw [cellsOf, rowsOf, ← mul_assoc]
  exact Nat.mul_le_mul_right _ plane

theorem add_le_iff {off size dim : UInt32} (accepted : ¬ off + size > dim) :
    off.toNat + size.toNat ≤ dim.toNat ↔ off.toNat + size.toNat < 2 ^ 32 := by
  have bound := dim.toNat_lt
  have wrapped := not_lt.mp fun more =>
    accepted (UInt32.lt_iff_toNat_lt.mpr more)
  rw [UInt32.toNat_add] at wrapped
  constructor
  · omega
  · intro small
    rwa [Nat.mod_eq_of_lt small] at wrapped

theorem add_le_max_iff {off size dim : UInt32} (accepted : ¬ off + size > dim) :
    off.toNat + size.toNat ≤ max dim.toNat 1 ↔ off.toNat + size.toNat < 2 ^ 32 := by
  have eq := add_le_iff accepted
  constructor
  · omega
  · intro small
    exact (eq.mpr small).trans (le_max_left _ _)

theorem planeEnds_iff {xoff yoff w h : UInt32} (accepted : accepts2D (ClientAllocation.create t elementBytes) xoff yoff w h) :
    BoxEnds (ClientAllocation.create t elementBytes) xoff.toNat yoff.toNat 0 w.toNat h.toNat 1 ↔
      xoff.toNat + w.toNat < 2 ^ 32 ∧ yoff.toNat + h.toNat < 2 ^ 32 := by
  rcases accepted with adapted | fits
  · cases adapted
  · obtain ⟨x, y⟩ := not_or.mp fits
    rw [BoxEnds, add_le_iff x, add_le_max_iff y, and_iff_left (show 0 + 1 ≤ max _ 1 from le_max_right _ _)]

theorem boxEnds_iff {xoff yoff zoff w h d : UInt32}
    (accepted : accepts3D (ClientAllocation.create t elementBytes) xoff yoff zoff w h d) :
    BoxEnds (ClientAllocation.create t elementBytes) xoff.toNat yoff.toNat zoff.toNat w.toNat h.toNat d.toNat ↔
      xoff.toNat + w.toNat < 2 ^ 32 ∧ yoff.toNat + h.toNat < 2 ^ 32 ∧ zoff.toNat + d.toNat < 2 ^ 32 := by
  rcases accepted with adapted | fits
  · cases adapted
  · obtain ⟨x, rest⟩ := not_or.mp fits
    obtain ⟨y, z⟩ := not_or.mp rest
    rw [BoxEnds, add_le_iff x, add_le_max_iff y, add_le_max_iff z]

end

/-- No sum of the destination wraps around, and where nothing is checked the caller has made
sure that the boxes end inside. -/
def RangeCopy.Sound (a : ClientAllocation) : RangeCopy → Prop
  | .copy1DRangeFrom _ _ => True
  | .copy1DRangeTo _ _ => True
  | .copy1DRangeFromAllocation off count data dataOff =>
    count = 0 ∨ off.toNat + count.toNat ≤ a.mCurrentDimX.toNat ∧
      dataOff.toNat + count.toNat ≤ data.mCurrentDimX.toNat
  | .copy2DRangeFrom xoff yoff w h | .copy2DRangeTo xoff yoff w h
  | .copy2DStridedFrom xoff yoff w h _ | .copy2DStridedTo xoff yoff w h _ =>
    accepts2D a xoff yoff w h → w = 0 ∨ h = 0 ∨
      xoff.toNat + w.toNat < 2 ^ 32 ∧ yoff.toNat + h.toNat < 2 ^ 32
  | .copy2DRangeFromAllocation xoff yoff w h data dataXoff dataYoff =>
    accepts2D a xoff yoff w h → w = 0 ∨ h = 0 ∨
      (xoff.toNat + w.toNat < 2 ^ 32 ∧ yoff.toNat + h.toNat < 2 ^ 32) ∧
        BoxEnds data dataXoff.toNat dataYoff.toNat 0 w.toNat h.toNat 1
  | .copy3DRangeFrom xoff yoff zoff w h d =>
    accepts3D a xoff yoff zoff w h d → w = 0 ∨ h = 0 ∨ d = 0 ∨
      xoff.toNat + w.toNat < 2 ^ 32 ∧ yoff.toNat + h.toNat < 2 ^ 32 ∧
        zoff.toNat + d.toNat < 2 ^ 32
  | .copy3DRangeFromAllocation xoff yoff zoff w h d data dataXoff dataYoff dataZoff =>
    accepts3D a xoff yoff zoff dataXoff dataYoff dataZoff → w = 0 ∨ h = 0 ∨ d = 0 ∨
      BoxEnds a xoff.toNat yoff.toNat zoff.toNat w.toNat h.toNat d.toNat ∧
        BoxEnds data dataXoff.toNat dataYoff.toNat dataZoff.toNat w.toNat h.toNat d.toNat

section

variable {t : ClientType} {elementBytes : Nat} {rs : RS}

theorem toNat_eq_zero_iff (n : UInt32) : n.toNat = 0 ↔ n = 0 := by
  simp [← UInt32.toNat_inj]

theorem safe_iff {accepted : Prop} {request : Request} {outcome : Option Request} {a : ClientAllocation}
    (dispatched : ∀ handed, outcome = some handed ↔ rs.mCurrentError = .success ∧ accepted ∧ request = handed) :
    (∀ handed, outcome = some handed → handed.Inside a) ↔ rs.mCurrentError ≠ .success ∨ (accepted → request.Inside a) := by
  constructor
  · intro safe
    by_cases pending : rs.mCurrentError = .success
    · exact .inr fun accepts => safe request ((dispatched request).mpr ⟨pending, accepts, rfl⟩)
    · exact .inl pending
  · rintro sound handed given
    obtain ⟨fine, accepts, rfl⟩ := (dispatched handed).mp given
    rcases sound with pending | inside
    · exact absurd fine pending
    · exact inside accepts

theorem planeInside_iff {a : ClientAllocation} {xoff yoff : Nat} {w h : UInt32} :
    BoxInside a xoff yoff 0 w.toNat h.toNat 1 ↔ w = 0 ∨ h = 0 ∨ BoxEnds a xoff yoff 0 w.toNat h.toNat 1 := by
  rw [boxInside_iff, toNat_eq_zero_iff, toNat_eq_zero_iff, or_iff_right one_ne_zero]

theorem spaceInside_iff {a : ClientAllocation} {xoff yoff zoff : Nat} {w h d : UInt32} :
    BoxInside a xoff yoff zoff w.toNat h.toNat d.toNat ↔
      w = 0 ∨ h = 0 ∨ d = 0 ∨ BoxEnds a xoff yoff zoff w.toNat h.toNat d.toNat := by
  rw [boxInside_iff, toNat_eq_zero_iff, toNat_eq_zero_iff, toNat_eq_zero_iff]

theorem rowInside_iff {a : ClientAllocation} {off : Nat} {count : UInt32} :
    BoxInside a off 0 0 count.toNat 1 1 ↔ count = 0 ∨ off + count.toNat ≤ a.mCurrentDimX.toNat := by
  rw [boxInside_iff, toNat_eq_zero_iff, or_iff_right one_ne_zero, or_iff_right one_ne_zero,
    BoxEnds, and_iff_left ⟨le_max_right _ _, le_max_right _ _⟩]

theorem run_sound {off count : UInt32} (accepted : 1 ≤ count.toNat ∧
      off.toNat + count.toNat ≤ (ClientAllocation.create t elementBytes).mCurrentCount.toNat) :
    RunInside (ClientAllocation.create t elementBytes) off.toNat count.toNat := by
  have few := mCurrentCount_le t elementBytes
  intro i _ lt
  omega

theorem plane_sound_iff {xoff yoff w h : UInt32} : (accepts2D (ClientAllocation.create t elementBytes) xoff yoff w h →
        BoxInside (ClientAllocation.create t elementBytes) xoff.toNat yoff.toNat 0 w.toNat h.toNat 1) ↔
      (accepts2D (ClientAllocation.create t elementBytes) xoff yoff w h → w = 0 ∨ h = 0 ∨
        xoff.toNat + w.toNat < 2 ^ 32 ∧ yoff.toNat + h.toNat < 2 ^ 32) := by
  refine forall_congr' fun accepted => ?_
  rw [planeInside_iff, planeEnds_iff accepted]

/-- A copy that reaches the core stays inside the allocation, and inside the allocation it
reads, exactly when it is sound. -/
theorem dispatched_inside (copy : RangeCopy) :
    (∀ request, ((copy.run (ClientAllocation.create t elementBytes)).run rs).1 = some request →
        request.Inside (ClientAllocation.create t elementBytes)) ↔
      rs.mCurrentError ≠ .success ∨ copy.Sound (ClientAllocation.create t elementBytes) := by
  cases copy with
  | copy1DRangeFrom off count | copy1DRangeTo off count =>
    refine (safe_iff fun _ => check1D_iff off count).trans (or_congr_right ?_)
    exact iff_of_true run_sound trivial
  | copy1DRangeFromAllocation off count data dataOff =>
    refine (safe_iff fun _ => tryDispatch_iff.trans (and_congr_right fun _ =>
      (iff_of_eq (true_and _)).symm)).trans (or_congr_right ?_)
    rw [forall_true_left]
    change BoxInside _ _ 0 0 _ 1 1 ∧ BoxInside _ _ 0 0 _ 1 1 ↔ _
    rw [rowInside_iff, rowInside_iff, ← or_and_left]
    rfl
  | copy2DRangeFrom xoff yoff w h | copy2DRangeTo xoff yoff w h
  | copy2DStridedFrom xoff yoff w h stride | copy2DStridedTo xoff yoff w h stride =>
    exact (safe_iff fun _ => checked_iff (accepts2D _ xoff yoff w h) _).trans (or_congr_right plane_sound_iff)
  | copy2DRangeFromAllocation xoff yoff w h data dataXoff dataYoff =>
    refine (safe_iff fun _ => checked_iff (accepts2D _ xoff yoff w h) _).trans
      (or_congr_right (forall_congr' fun accepted => ?_))
    change BoxInside _ _ _ _ _ _ _ ∧ BoxInside _ _ _ _ _ _ _ ↔ _
    rw [planeInside_iff, planeInside_iff, planeEnds_iff accepted, ← or_and_left, ← or_and_left]
  | copy3DRangeFrom xoff yoff zoff w h d =>
    refine (safe_iff fun _ => checked_iff (accepts3D _ xoff yoff zoff w h d) _).trans
      (or_congr_right (forall_congr' fun accepted => ?_))
    change BoxInside _ _ _ _ _ _ _ ↔ _
    rw [spaceInside_iff, boxEnds_iff accepted]
  | copy3DRangeFromAllocation xoff yoff zoff w h d data dataXoff dataYoff dataZoff =>
    refine (safe_iff fun _ => checked_iff (accepts3D _ xoff yoff zoff dataXoff dataYoff dataZoff) _).trans
      (or_congr_right (forall_congr' fun accepted => ?_))
    change BoxInside _ _ _ _ _ _ _ ∧ BoxInside _ _ _ _ _ _ _ ↔ _
    rw [spaceInside_iff, spaceInside_iff, ← or_and_left, ← or_and_left, ← or_and_left]

end

private def square : ClientAllocation := .create (.create 4 4 0 false false) 4

private def block : ClientAllocation := .create (.create 4 4 4 false false) 4

/-- Each of these calls is handed to the core although it leaves the allocation: a width that
wraps around, a run from another allocation that is too long for both, a box that is too wide
while the offsets in its source are small, and a source that is too small. -/
theorem dispatched_outside : (∃ request, (((RangeCopy.copy2DRangeFrom 1 0 0xffffffff 1).run square).run {}).1 =
        some request ∧ ¬ request.Inside square) ∧
    (∃ request, (((RangeCopy.copy1DRangeFromAllocation 0 100 square 0).run square).run {}).1 =
        some request ∧ ¬ request.Inside square) ∧
    (∃ request, (((RangeCopy.copy3DRangeFromAllocation 0 0 0 100 1 1 block 0 0 0).run block).run
        {}).1 = some request ∧ ¬ request.Inside block) ∧
    (∃ request, (((RangeCopy.copy2DRangeFromAllocation 0 0 1 1 square 4 0).run square).run
        {}).1 = some request ∧ ¬ request.Inside square) := by
  refine ⟨⟨_, rfl, ?_⟩, ⟨_, rfl, ?_⟩, ⟨_, rfl, ?_⟩, ⟨_, rfl, ?_⟩⟩
  · refine fun inside => absurd (inside 4 0 0 ?_ ?_ ?_ ?_ ?_ ?_).1 ?_ <;> decide
  · refine fun inside => absurd (inside.1 4 0 0 ?_ ?_ ?_ ?_ ?_ ?_).1 ?_ <;> decide
  · refine fun inside => absurd (inside.1 4 0 0 ?_ ?_ ?_ ?_ ?_ ?_).1 ?_ <;> decide
  · refine fun inside => absurd (inside.2 4 0 0 ?_ ?_ ?_ ?_ ?_ ?_).1 ?_ <;> decide

end RenderScript.Client
