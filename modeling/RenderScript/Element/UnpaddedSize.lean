import RenderScript.Element.ElementInterning
import RenderScript.Element.ElementLayout
import RenderScript.Element.ElementReferences

/-!
# Sizes without padding

`getSizeBitsUnpadded` against the sizes of the leaves, for everything that the memory of the components may have
held before `Component::set`.
-/

namespace RenderScript.Elements
open List

def Component.isPacked (c : Component) : Bool :=
  c.mType matches .unsigned565 | .unsigned5551 | .unsigned4444

/-- The types for which `set` returns before it writes `mBitsUnpadded`. -/
def Component.returnsEarly (c : Component) : Bool := c.isPacked || c.isReference || c.mType == .none

/-- The unpadded size that a leaf has of its own. -/
def Component.ownBits (c : Component) : Nat :=
  if c.isPacked then 16 else if c.isReference then 32 else c.mTypeBits.toNat * c.mVectorSize.toNat

mutual

def Element.ownBits : Element → Nat
  | .mk _ mComponent [] => mComponent.ownBits
  | .mk _ _ (field :: rest) => ownBitsIn (field :: rest)

def ownBitsIn : List (FieldLabel × Element) → Nat
  | [] => 0
  | (label, e) :: rest => e.ownBits * label.arraySize.toNat + ownBitsIn rest

end

namespace Element

variable {e : Element} {field : FieldLabel × Element}

def owned (field : FieldLabel × Element) : Nat := field.2.ownBits * field.1.arraySize.toNat

/-- `mBitsUnpadded`, with what the memory of the component at an address held before. -/
def bitsUnpadded (held : Nat → UInt32) (e : Element) : UInt32 := e.mBitsUnpadded.getD (held e.address)

def share (held : Nat → UInt32) (field : FieldLabel × Element) : Nat :=
  (field.2.bitsUnpadded held * field.1.arraySize).toNat

def sizeBitsUnpadded (held : Nat → UInt32) (e : Element) : Nat :=
  if e.mFields = [] then (e.bitsUnpadded held).toNat else (e.mFields.map (share held)).sum

/-- Leaves come from `set` within its assertions. -/
def Set (e : Element) : Prop :=
  e.mFields = [] → ∃ dt dk norm vecSize, Component.Asserts dt dk norm vecSize ∧ e.mComponent = .set dt dk norm vecSize

/-- A field that is no array of no entries is a leaf with a size that was written and that 32 bits can
say, or a structure without bits. -/
def Weighs (field : FieldLabel × Element) : Prop :=
  field.1.arraySize = 0 ∨
    if field.2.mFields = [] then field.2.mComponent.returnsEarly = false ∧ owned field < 2 ^ 32 else field.2.ownBits = 0

def padded (field : FieldLabel × Element) : Nat := field.2.mBits.toNat * field.1.arraySize.toNat

/-- What 32 bits lose of a padded size. -/
def lost (field : FieldLabel × Element) : Nat := 2 ^ 32 * (padded field / 2 ^ 32)

/-- What padding adds to the fields makes up for what is lost. -/
def Sized (e : Element) : Prop :=
  if e.mFields = [] then e.mComponent.returnsEarly = false
  else (∀ field ∈ e.mFields, Weighs field) ∧
    (e.mFields.map owned).sum + (e.mFields.map lost).sum ≤ (e.mFields.map padded).sum

theorem sum_padded (fields : List (FieldLabel × Element)) : (fields.map padded).sum =
    (fields.map fun field => (field.2.mBits * field.1.arraySize).toNat).sum + (fields.map lost).sum := by
  rw [← sum_map_add]
  simp only [UInt32.toNat_mul, lost, padded, Nat.mod_add_div]
  rfl

theorem ownBits_leaf (leaf : e.mFields = []) : e.ownBits = e.mComponent.ownBits := by
  obtain ⟨addr, mComponent, mFields⟩ := e
  obtain rfl : mFields = [] := leaf
  rfl

theorem ownBits_fields (some : e.mFields ≠ []) : e.ownBits = (e.mFields.map owned).sum := by
  have sums (fields : List (FieldLabel × Element)) : ownBitsIn fields = (fields.map owned).sum := by
    induction fields with
    | nil => rfl
    | cons field rest ih =>
      simp [ownBitsIn, ih, owned]
  obtain ⟨addr, mComponent, _ | ⟨field, rest⟩⟩ := e
  · exact absurd rfl some
  · rw [ownBits, sums, mFields]

theorem padded_le {typeBits vecSize : UInt32} (narrow : vecSize ≤ 4) (small : typeBits ≤ 512) :
    (typeBits * vecSize).toNat = typeBits.toNat * vecSize.toNat ∧ typeBits * vecSize ≤ typeBits * rsHigherPow2 vecSize := by
  have vecSizes : vecSize = 0 ∨ vecSize = 1 ∨ vecSize = 2 ∨ vecSize = 3 ∨ vecSize = 4 := by grind
  have powers : vecSize.toNat ≤ (rsHigherPow2 vecSize).toNat ∧ (rsHigherPow2 vecSize).toNat ≤ 4 := by
    rcases vecSizes with rfl | rfl | rfl | rfl | rfl <;> decide
  have fits {count : Nat} (few : count ≤ 4) : typeBits.toNat * count < 2 ^ 32 :=
    (Nat.mul_le_mul (show typeBits.toNat ≤ 512 from small) few).trans_lt (by decide)
  rw [UInt32.le_iff_toNat_le, UInt32.toNat_mul, UInt32.toNat_mul, Nat.mod_eq_of_lt (fits powers.2),
    Nat.mod_eq_of_lt (fits (powers.1.trans powers.2))]
  exact ⟨rfl, Nat.mul_le_mul_left _ powers.1⟩

/-- What `set` leaves in `mBitsUnpadded`. -/
theorem Set.leaf (set : e.Set) (leaf : e.mFields = []) : e.mComponent.returnsEarly = true ∧ e.mBitsUnpadded = none ∨
    e.mComponent.returnsEarly = false ∧ ∃ bits, e.mBitsUnpadded = some bits ∧ bits.toNat = e.ownBits ∧ bits ≤ e.mBits := by
  obtain ⟨dt, dk, norm, vecSize, ⟨narrow, -, asserted⟩, made⟩ := set leaf
  rw [ownBits_leaf leaf, mBits, if_pos leaf, mBitsUnpadded, if_pos leaf, made]
  cases dt with
  | invalid => exact asserted.elim
  | unnamed code nameless => exact asserted.elim
  | none | unsigned565 | unsigned5551 | unsigned4444 | element | type | allocation | sampler | script | mesh
  | programFragment | programVertex | programRaster | programStore | font => exact .inl ⟨rfl, rfl⟩
  | _ => exact .inr ⟨rfl, _, rfl, padded_le narrow (by decide)⟩

theorem share_cases (set : field.2.Set) : field.2.mFields ≠ [] ∧ (∀ held, share held field = 0) ∨
    field.2.mFields = [] ∧ field.2.mComponent.returnsEarly = true ∧
      (∀ held, share held field = (held field.2.address).toNat * field.1.arraySize.toNat % 2 ^ 32) ∨
    field.2.mFields = [] ∧ field.2.mComponent.returnsEarly = false ∧ ∀ held, share held field = owned field % 2 ^ 32 := by
  simp only [share, bitsUnpadded, UInt32.toNat_mul]
  by_cases leaf : field.2.mFields = []
  · rcases set.leaf leaf with ⟨early, unwritten⟩ | ⟨written, bits, isBits, own, -⟩
    · exact .inr (.inl ⟨leaf, early, fun held => by simp [unwritten]⟩)
    · exact .inr (.inr ⟨leaf, written, fun held => by simp [isBits, own, owned]⟩)
  · refine .inl ⟨leaf, fun held => ?_⟩
    simp [mBitsUnpadded, leaf]

/-- With memory of zeros no share is too large, and none grows. -/
theorem share_zero_le (set : field.2.Set) :
    share (fun _ => 0) field ≤ owned field ∧ share (fun _ => 0) field ≤ share (fun _ => 1) field := by
  rcases share_cases set with ⟨-, shares⟩ | ⟨-, -, shares⟩ | ⟨-, -, shares⟩
  · simp [shares]
  · simp [shares]
  · rw [shares, shares]
    exact ⟨Nat.mod_le _ _, le_refl _⟩

theorem weighs_iff (set : field.2.Set) : Weighs field ↔
    share (fun _ => 0) field = owned field ∧ share (fun _ => 0) field = share (fun _ => 1) field := by
  have none : field.1.arraySize = 0 ↔ field.1.arraySize.toNat = 0 := UInt32.toNat_inj.symm
  have small := field.1.arraySize.toNat_lt
  rw [Weighs, none]
  rcases share_cases set with ⟨nested, shares⟩ | ⟨leaf, early, shares⟩ | ⟨leaf, written, shares⟩
  · rw [if_neg nested, shares, shares, owned, eq_comm (a := 0), mul_eq_zero]
    grind
  · rw [if_pos leaf, shares, shares, early]
    simp [Nat.mod_eq_of_lt small, eq_comm, owned]
    grind
  · rw [if_pos leaf, shares, shares, written, Nat.mod_eq_iff_lt (Nat.two_pow_pos 32).ne']
    constructor
    · rintro (empty | ⟨-, less⟩)
      · exact ⟨by rw [owned, empty]; exact Nat.two_pow_pos 32, rfl⟩
      · exact ⟨less, rfl⟩
    · exact fun less => .inr ⟨rfl, less.1⟩

theorem share_of_weighs (set : field.2.Set) (weighs : Weighs field) (held : Nat → UInt32) : share held field = owned field := by
  obtain ⟨own, eq⟩ := (weighs_iff set).mp weighs
  rcases share_cases set with ⟨-, shares⟩ | ⟨-, -, shares⟩ | ⟨-, -, shares⟩
  · exact (shares held).trans ((shares _).symm.trans own)
  · have empty : field.1.arraySize.toNat = 0 := by
      simpa [shares, Nat.mod_eq_of_lt field.1.arraySize.toNat_lt] using eq.symm
    simp [shares, owned, empty]
  · exact (shares held).trans ((shares _).symm.trans own)

/-- Whatever was in memory, the size is that of the leaves and no larger than the padded size. -/
theorem unpadded_size_iff (e : Element) (set : e.Set) (fields : ∀ field ∈ e.mFields, field.2.Set) :
    (∀ held, e.sizeBitsUnpadded held = e.ownBits ∧ e.sizeBitsUnpadded held ≤ e.getSizeBits) ↔ e.Sized := by
  by_cases leaf : e.mFields = []
  · simp only [sizeBitsUnpadded, bitsUnpadded, Sized, if_pos leaf, getSizeBits_leaf leaf]
    rcases set.leaf leaf with ⟨early, unwritten⟩ | ⟨written, bits, isBits, own, less⟩
    · rw [unwritten, early]
      refine iff_of_false (fun sizes => ?_) Bool.false_ne_true.symm
      exact absurd ((sizes fun _ => 0).1.trans (sizes fun _ => 1).1.symm) (by decide)
    · rw [isBits, written]
      exact iff_of_true (fun _ => ⟨own, less⟩) rfl
  · simp only [sizeBitsUnpadded, Sized, if_neg leaf, ownBits_fields leaf, getSizeBits_fields leaf, sum_padded,
      add_le_add_iff_right]
    constructor
    · intro sizes
      obtain ⟨zero, less⟩ := sizes fun _ => 0
      have own := (sum_map_eq_iff fun field mem => (share_zero_le (fields field mem)).1).mp zero
      have eq := (sum_map_eq_iff fun field mem => (share_zero_le (fields field mem)).2).mp
        (zero.trans (sizes fun _ => 1).1.symm)
      refine ⟨fun field mem => ?_, zero ▸ less⟩
      exact (weighs_iff (fields field mem)).mpr ⟨own field mem, eq field mem⟩
    · rintro ⟨weighs, less⟩ held
      have eq := congrArg List.sum (map_congr_left fun field mem =>
        share_of_weighs (fields field mem) (weighs field mem) held)
      exact ⟨eq, eq ▸ less⟩

private def leafOf (dt : RsDataType) (vecSize : UInt32) : Element := .mk 1 (.set dt .user false vecSize) []

private def twoOf (e : Element) : Element := .mk 2 .initial [(⟨.ofBuffer [], 2⟩, e)]

/-- An array of two vectors. -/
theorem unpadded_size_vectors : (twoOf (leafOf .float32 3)).Sized ∧ ∀ held,
    (twoOf (leafOf .float32 3)).sizeBitsUnpadded held = 192 ∧ (twoOf (leafOf .float32 3)).sizeBitsUnpadded held ≤ 256 := by
  have sized : (twoOf (leafOf .float32 3)).Sized := ⟨forall_mem_singleton.mpr (.inr ⟨rfl, by decide⟩), by decide⟩
  have fields : ∀ field ∈ (twoOf (leafOf .float32 3)).mFields, field.2.Set :=
    forall_mem_singleton.mpr fun _ => ⟨.float32, .user, false, 3, ⟨by decide, trivial, trivial⟩, rfl⟩
  exact ⟨sized, (unpadded_size_iff (twoOf (leafOf .float32 3)) (fun none => absurd none (cons_ne_nil _ _)) fields).mpr sized⟩

/-- The size of a handle is what was in memory. -/
theorem not_unpadded_size : (leafOf .allocation 1).Set ∧ (leafOf .allocation 1).ownBits = 32 ∧
    (leafOf .allocation 1).sizeBitsUnpadded (fun _ => 7) = 7 :=
  ⟨fun _ => ⟨.allocation, .user, false, 1, ⟨by decide, trivial, rfl, rfl, rfl⟩, rfl⟩, rfl, rfl⟩

end Element

end RenderScript.Elements
