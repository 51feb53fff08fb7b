import RenderScript.Foundation.Tiling
import RenderScript.Element.ElementCodec
import RenderScript.Element.ElementSize

/-!
# Layout of elements

The size of an element against the sizes of its leaves. `getSizeBits` adds `mBits`
of the fields, which is zero for fields that have fields, while `compute` places
fields by their `getSizeBits`.
-/

namespace RenderScript.Elements
open Tiling List

variable {last : FieldLabel × Element} {init : List (FieldLabel × Element)} {e : Element}

mutual

/-- Sizes of the leaves, each with the product of the array sizes around it. -/
def Element.leaves (enclosing : Nat) : Element → List (Nat × Nat)
  | .mk _ mComponent [] => [(mComponent.mBits.toNat, enclosing)]
  | .mk _ _ (field :: rest) => fieldLeaves enclosing (field :: rest)

def fieldLeaves (enclosing : Nat) : List (FieldLabel × Element) → List (Nat × Nat)
  | [] => []
  | (label, e) :: rest =>
    e.leaves (enclosing * label.arraySize.toNat) ++ fieldLeaves enclosing rest

end

def weigh (leaves : List (Nat × Nat)) : Nat := (leaves.map fun leaf => leaf.1 * leaf.2).sum

def Element.leafBits (e : Element) : Nat := weigh (e.leaves 1)

/-- `offsetBits` of the fields, as `compute` sets it. -/
def offsetBits : List (FieldLabel × Element) → Nat → List UInt32
  | [], _ => []
  | (label, e) :: rest, bits =>
    UInt32.ofNat bits :: offsetBits rest (bits + e.getSizeBits * label.arraySize.toNat)

def fieldBits (field : FieldLabel × Element) : Nat :=
  field.2.getSizeBits * field.1.arraySize.toNat

def Element.pieces (e : Element) : List (Nat × Nat) :=
  ((offsetBits e.mFields 0).map UInt32.toNat).zip (e.mFields.map fieldBits)

/-- The size is that of the leaves and where the last field ends, and the fields tile it. -/
structure Element.Tiled (e : Element) : Prop where
  size : e.getSizeBits = e.leafBits
  ends : ∀ last ∈ e.pieces.getLast?, last.1 + last.2 = e.getSizeBits
  tiles : e.mFields ≠ [] → Tiles e.pieces 0 e.getSizeBits

/-- No field with fields of its own has any bits, no field is larger than 32 bits can say, and
neither is the offset of the last one. -/
structure Element.Flat (e : Element) : Prop where
  nested : ∀ field ∈ e.mFields, field.2.mFields ≠ [] →
    field.2.leafBits * field.1.arraySize.toNat = 0
  small : ∀ field ∈ e.mFields, field.2.mFields = [] →
    field.2.mBits.toNat * field.1.arraySize.toNat < 2 ^ 32
  last : (e.mFields.dropLast.map fieldBits).sum < 2 ^ 32

theorem weigh_append (leaves more : List (Nat × Nat)) : weigh (leaves ++ more) = weigh leaves + weigh more := by
  rw [weigh, map_append, sum_append]
  rfl

theorem leaves_mk_cons (enclosing address : Nat) (mComponent : Component)
    {mFields : List (FieldLabel × Element)} (some : mFields ≠ []) :
    (Element.mk address mComponent mFields).leaves enclosing = fieldLeaves enclosing mFields := by
  cases mFields with
  | nil => exact absurd rfl some
  | cons field rest => rw [Element.leaves]

theorem weigh_leaves (e : Element) (enclosing : Nat) : weigh (e.leaves enclosing) = e.leafBits * enclosing := by
  induction e using Element.ind generalizing enclosing with
  | node addr mComponent mFields ih =>
    cases mFields with
    | nil => simp [Element.leafBits, Element.leaves, weigh]
    | cons first others =>
      have fields (rest : List (FieldLabel × Element)) (inside : rest ⊆ first :: others) (enclosing : Nat) :
          weigh (fieldLeaves enclosing rest) = weigh (fieldLeaves 1 rest) * enclosing := by
        induction rest with
        | nil => simp [fieldLeaves, weigh]
        | cons field rest step =>
          obtain ⟨label, e⟩ := field
          have known := ih (label, e) (inside mem_cons_self)
          rw [fieldLeaves, fieldLeaves, weigh_append, weigh_append,
            step fun _ mem => inside (mem_cons_of_mem _ mem), known, known,
            add_mul, one_mul, mul_assoc, mul_comm enclosing]
      exact fields _ (List.Subset.refl _) enclosing

theorem weigh_fieldLeaves (fields : List (FieldLabel × Element)) : weigh (fieldLeaves 1 fields) =
      (fields.map fun field => field.2.leafBits * field.1.arraySize.toNat).sum := by
  induction fields with
  | nil => rfl
  | cons field rest ih =>
    rw [fieldLeaves, weigh_append, weigh_leaves, ih, one_mul, map_cons, sum_cons]

theorem leafBits_leaf (leaf : e.mFields = []) : e.leafBits = e.mBits.toNat := by
  obtain ⟨addr, mComponent, mFields⟩ := e
  obtain rfl : mFields = [] := leaf
  simp [Element.leafBits, Element.leaves, weigh, Element.mBits, Element.mFields, Element.mComponent]

theorem leafBits_fields (some : e.mFields ≠ []) : e.leafBits =
      (e.mFields.map fun field => field.2.leafBits * field.1.arraySize.toNat).sum := by
  obtain ⟨addr, mComponent, mFields⟩ := e
  have leaves : (Element.mk addr mComponent mFields).leaves 1 = fieldLeaves 1 mFields :=
    leaves_mk_cons 1 addr mComponent some
  rw [Element.leafBits, leaves, weigh_fieldLeaves]
  rfl

theorem getSizeBits_leaf (leaf : e.mFields = []) : e.getSizeBits = e.mBits.toNat := if_pos leaf

theorem getSizeBits_fields (some : e.mFields ≠ []) :
    e.getSizeBits = (e.mFields.map fun field => (field.2.mBits * field.1.arraySize).toNat).sum :=
  if_neg some

theorem mBits_fields (some : e.mFields ≠ []) : e.mBits = 0 := if_neg some

/-- What a field adds to `getSizeBits` is at most its share of the leaves. -/
theorem share_le (field : FieldLabel × Element) :
    (field.2.mBits * field.1.arraySize).toNat ≤ field.2.leafBits * field.1.arraySize.toNat := by
  rw [UInt32.toNat_mul]
  apply (Nat.mod_le _ _).trans
  apply Nat.mul_le_mul_right
  by_cases leaf : field.2.mFields = []
  · rw [leafBits_leaf leaf]
  · rw [mBits_fields leaf]
    exact Nat.zero_le _

theorem share_eq_iff (field : FieldLabel × Element) :
    (field.2.mBits * field.1.arraySize).toNat = field.2.leafBits * field.1.arraySize.toNat ↔
      (field.2.mFields ≠ [] → field.2.leafBits * field.1.arraySize.toNat = 0) ∧
        (field.2.mFields = [] → field.2.mBits.toNat * field.1.arraySize.toNat < 2 ^ 32) := by
  rw [UInt32.toNat_mul]
  by_cases leaf : field.2.mFields = []
  · rw [leafBits_leaf leaf]
    constructor
    · intro eq
      refine ⟨fun nested => absurd leaf nested, fun _ => ?_⟩
      rw [← eq]
      exact Nat.mod_lt _ (Nat.two_pow_pos 32)
    · rintro ⟨-, small⟩
      exact Nat.mod_eq_of_lt (small leaf)
  · rw [mBits_fields leaf, UInt32.toNat_zero, Nat.zero_mul, Nat.zero_mod]
    constructor
    · intro eq
      exact ⟨fun _ => eq.symm, fun isLeaf => absurd isLeaf leaf⟩
    · rintro ⟨nested, -⟩
      exact (nested leaf).symm

theorem sum_map_eq_iff {α : Type} {items : List α} {f g : α → Nat} (le : ∀ item ∈ items, f item ≤ g item) :
    (items.map f).sum = (items.map g).sum ↔ ∀ item ∈ items, f item = g item := by
  induction items with
  | nil => simp
  | cons item rest ih =>
    have sums := sum_le_sum fun other mem => le other (mem_cons_of_mem item mem)
    have first := le item mem_cons_self
    rw [forall_mem_cons, ← ih fun other mem => le other (mem_cons_of_mem item mem),
      map_cons, map_cons, sum_cons, sum_cons]
    omega

theorem getSizeBits_le (e : Element) : e.getSizeBits ≤ e.leafBits := by
  by_cases leaf : e.mFields = []
  · rw [getSizeBits_leaf leaf, leafBits_leaf leaf]
  · rw [getSizeBits_fields leaf, leafBits_fields leaf]
    exact sum_le_sum fun field _ => share_le field

theorem getSizeBits_eq_iff (e : Element) : e.getSizeBits = e.leafBits ↔ ∀ field ∈ e.mFields,
      (field.2.mFields ≠ [] → field.2.leafBits * field.1.arraySize.toNat = 0) ∧
        (field.2.mFields = [] → field.2.mBits.toNat * field.1.arraySize.toNat < 2 ^ 32) := by
  by_cases leaf : e.mFields = []
  · rw [getSizeBits_leaf leaf, leafBits_leaf leaf, leaf]
    exact iff_of_true rfl fun _ none => absurd none not_mem_nil
  · rw [getSizeBits_fields leaf, leafBits_fields leaf, sum_map_eq_iff fun field _ => share_le field]
    exact forall₂_congr fun field _ => share_eq_iff field

theorem fieldBits_eq {field : FieldLabel × Element}
    (nested : field.2.mFields ≠ [] → field.2.leafBits * field.1.arraySize.toNat = 0) :
    fieldBits field = field.2.leafBits * field.1.arraySize.toNat := by
  by_cases leaf : field.2.mFields = []
  · rw [fieldBits, getSizeBits_leaf leaf, leafBits_leaf leaf]
  · have less := Nat.mul_le_mul_right field.1.arraySize.toNat (getSizeBits_le field.2)
    rw [nested leaf] at less ⊢
    exact Nat.le_zero.mp less

theorem offsetBits_append (init : List (FieldLabel × Element)) (last : FieldLabel × Element) (bits : Nat) :
    offsetBits (init ++ [last]) bits = offsetBits init bits ++ [UInt32.ofNat (bits + (init.map fieldBits).sum)] := by
  induction init generalizing bits with
  | nil => rfl
  | cons field rest ih =>
    rw [cons_append, offsetBits, offsetBits, ih, cons_append, map_cons, sum_cons, ← add_assoc]
    rfl

theorem length_offsetBits (fields : List (FieldLabel × Element)) (bits : Nat) :
    (offsetBits fields bits).length = fields.length := by
  induction fields generalizing bits with
  | nil => rfl
  | cons field rest ih =>
    simp [offsetBits, ih]

theorem pieces_place {fields : List (FieldLabel × Element)} {bits : Nat}
    (last : bits + (fields.dropLast.map fieldBits).sum < 2 ^ 32) :
    ((offsetBits fields bits).map UInt32.toNat).zip (fields.map fieldBits) = place (fields.map fieldBits) bits := by
  induction fields generalizing bits with
  | nil => rfl
  | cons field rest ih =>
    have first : (UInt32.ofNat bits).toNat = bits := by
      rw [UInt32.toNat_ofNat', Nat.mod_eq_of_lt (by omega)]
    rw [offsetBits, map_cons, map_cons, zip_cons_cons, place, first]
    cases rest with
    | nil => rfl
    | cons second others =>
      rw [dropLast_cons_cons, map_cons, sum_cons, ← add_assoc] at last
      exact congrArg _ (ih last)

theorem getLast?_pieces (split : e.mFields = init ++ [last]) :
    e.pieces.getLast? = some ((UInt32.ofNat (init.map fieldBits).sum).toNat, fieldBits last) := by
  have eq : ((offsetBits init 0).map UInt32.toNat).length = (init.map fieldBits).length := by
    simp [length_offsetBits]
  rw [Element.pieces, split, offsetBits_append, map_append, map_append, zip_append eq, zero_add]
  exact List.getLast?_concat

theorem sum_fieldBits (some : e.mFields ≠ [])
    (nested : ∀ field ∈ e.mFields, field.2.mFields ≠ [] → field.2.leafBits * field.1.arraySize.toNat = 0) :
    (e.mFields.map fieldBits).sum = e.leafBits := by
  have sizes := map_congr_left fun field mem => fieldBits_eq (nested field mem)
  rw [leafBits_fields some, sizes]

theorem last_ends_iff (split : e.mFields = init ++ [last]) :
    (∀ piece ∈ e.pieces.getLast?, piece.1 + piece.2 = (e.mFields.map fieldBits).sum) ↔
      (e.mFields.dropLast.map fieldBits).sum < 2 ^ 32 := by
  have word := (UInt32.ofNat (init.map fieldBits).sum).toNat_lt
  rw [getLast?_pieces split, split, dropLast_concat, map_append, sum_append, map_singleton, sum_singleton]
  constructor
  · intro ends
    have sum := ends _ rfl
    omega
  · rintro small piece found
    cases found
    rw [UInt32.toNat_ofNat', Nat.mod_eq_of_lt small]

/-- An element has the size of its leaves and is tiled by its fields exactly when it is flat. -/
theorem tiled_iff_flat (e : Element) : e.Tiled ↔ e.Flat := by
  rcases e.mFields.eq_nil_or_concat' with leaf | ⟨init, last, split⟩
  · refine iff_of_true ⟨?_, ?_, fun some => absurd leaf some⟩ ⟨?_, ?_, ?_⟩
    · rw [getSizeBits_leaf leaf, leafBits_leaf leaf]
    · rw [Element.pieces, leaf]
      intro _ none
      cases none
    · rw [leaf]
      exact fun _ none => absurd none not_mem_nil
    · rw [leaf]
      exact fun _ none => absurd none not_mem_nil
    · rw [leaf]
      exact Nat.two_pow_pos 32
  · have some : e.mFields ≠ [] := by
      rw [split]
      exact append_ne_nil_of_right_ne_nil _ (cons_ne_nil _ _)
    constructor
    · intro tiled
      have exact := (getSizeBits_eq_iff e).mp tiled.size
      have nested := fun field mem => (exact field mem).1
      refine ⟨nested, fun field mem => (exact field mem).2, (last_ends_iff split).mp ?_⟩
      rw [sum_fieldBits some nested, ← tiled.size]
      exact tiled.ends
    · intro flat
      have size := (getSizeBits_eq_iff e).mpr fun field mem =>
        ⟨flat.nested field mem, flat.small field mem⟩
      have total := (sum_fieldBits some flat.nested).trans size.symm
      have pieces : e.pieces = place (e.mFields.map fieldBits) 0 := by
        apply pieces_place
        rw [zero_add]
        exact flat.last
      refine ⟨size, ?_, fun _ => ?_⟩
      · rw [← total]
        exact (last_ends_iff split).mpr flat.last
      · rw [pieces, ← total, ← zero_add (List.sum _)]
        exact tiles_place _ 0

private def float : Element := .mk 0 (.set .float32 .user false 1) []

private def named (letter : UInt8) (arraySize : UInt32) (some : letter ≠ 0) : FieldLabel where
  name := ⟨[letter], by simpa using some.symm⟩
  arraySize := arraySize

private def wrapped : Element := .mk 1 .initial [(named 120 1 (by decide), float)]

/-- A structure in a structure has no size. -/
theorem nested_not_tiled : (Element.mk 2 .initial [(named 120 1 (by decide), wrapped)]).getSizeBits = 0 ∧
    (Element.mk 2 .initial [(named 120 1 (by decide), wrapped)]).leafBits = 32 ∧
    ¬ (Element.mk 2 .initial [(named 120 1 (by decide), wrapped)]).Tiled := by
  have size : (Element.mk 2 .initial [(named 120 1 (by decide), wrapped)]).getSizeBits = 0 := rfl
  have leaves : (Element.mk 2 .initial [(named 120 1 (by decide), wrapped)]).leafBits = 32 := by
    decide +kernel
  refine ⟨size, leaves, fun tiled => ?_⟩
  have eq := tiled.size
  cases eq

end RenderScript.Elements
