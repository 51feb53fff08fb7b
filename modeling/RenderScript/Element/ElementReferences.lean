import RenderScript.Element.ElementCodec
import RenderScript.Element.ElementSize

/-!
# Handles in elements

`incRefs` and `decRefs` of rsElement.cpp make the same walk over the fields of an element and
the entries of arrays. `references` says where an element has handles.
-/

namespace RenderScript.Elements
open List

def RS_TYPE_ELEMENT : UInt32 := 1000

def Component.isReference (c : Component) : Bool := RS_TYPE_ELEMENT ≤ c.mType.code

mutual

def Element.mHasReference : Element → Bool
  | .mk _ mComponent [] => mComponent.isReference
  | .mk _ _ (field :: rest) => hasReferenceIn (field :: rest)

def hasReferenceIn : List (FieldLabel × Element) → Bool
  | [] => false
  | (_, e) :: rest => e.mHasReference || hasReferenceIn rest

end

mutual

def Element.visitRefs {σ : Type} (visit : σ → Nat → σ) : Element → Nat → σ → σ
  | .mk _ mComponent [], ptr, s => if mComponent.isReference then visit s ptr else s
  | .mk _ _ (field :: rest), ptr, s => visitFields visit (field :: rest) 0 ptr s

/-- The loop over the fields; `bits` becomes `offsetBits` of the next one. -/
def visitFields {σ : Type} (visit : σ → Nat → σ) :
    List (FieldLabel × Element) → Nat → Nat → σ → σ
  | [], _, _, s => s
  | (label, e) :: rest, bits, ptr, s =>
    let p2 := ptr + (UInt32.ofNat bits >>> 3).toNat
    let s :=
      if e.mHasReference then
        (List.range label.arraySize.toNat).foldl
          (fun s ct => e.visitRefs visit (p2 + ct * e.getSizeBytes) s) s
      else s
    visitFields visit rest (bits + e.getSizeBits * label.arraySize.toNat) ptr s

end

mutual

/-- Where the handles of an element are, by the offsets of its fields and the strides of arrays. -/
def Element.references : Element → List Nat
  | .mk _ mComponent [] => if mComponent.isReference then [0] else []
  | .mk _ _ (field :: rest) => referencesIn (field :: rest) 0

def referencesIn : List (FieldLabel × Element) → Nat → List Nat
  | [], _ => []
  | (label, e) :: rest, bits =>
    ((List.range label.arraySize.toNat).flatMap fun ct =>
        e.references.map ((UInt32.ofNat bits >>> 3).toNat + ct * e.getSizeBytes + ·)) ++
      referencesIn rest (bits + e.getSizeBits * label.arraySize.toNat)

end

theorem references_of_not_mHasReference (e : Element) (none : e.mHasReference = false) : e.references = [] := by
  induction e using Element.ind with
  | node addr mComponent mFields ih =>
    cases mFields with
    | nil =>
      rw [Element.mHasReference] at none
      rw [Element.references, none]
      rfl
    | cons first others =>
      have fields (rest : List (FieldLabel × Element)) (inside : rest ⊆ first :: others)
          (none : hasReferenceIn rest = false) (bits : Nat) : referencesIn rest bits = [] := by
        induction rest generalizing bits with
        | nil => rw [referencesIn]
        | cons field rest step =>
          obtain ⟨label, e⟩ := field
          obtain ⟨inField, inRest⟩ := cons_subset.mp inside
          rw [hasReferenceIn, Bool.or_eq_false_iff] at none
          have nowhere : e.references = [] := ih (label, e) inField none.1
          rw [referencesIn, step inRest none.2, nowhere]
          simp
      exact fields _ (List.Subset.refl _) none 0

theorem visitRefs_eq {σ : Type} (visit : σ → Nat → σ) (e : Element) (ptr : Nat) (s : σ) :
    e.visitRefs visit ptr s = (e.references.map (ptr + ·)).foldl visit s := by
  induction e using Element.ind generalizing ptr s with
  | node addr mComponent mFields ih =>
    cases mFields with
    | nil =>
      rw [Element.visitRefs, Element.references]
      split
      · rfl
      · rfl
    | cons first others =>
      have fields (rest : List (FieldLabel × Element)) (inside : rest ⊆ first :: others)
          (bits : Nat) (s : σ) : visitFields visit rest bits ptr s =
            ((referencesIn rest bits).map (ptr + ·)).foldl visit s := by
        induction rest generalizing bits s with
        | nil =>
          rfl
        | cons field rest step =>
          obtain ⟨label, e⟩ := field
          obtain ⟨inField, inRest⟩ := cons_subset.mp inside
          have known := ih (label, e) inField
          rw [visitFields, referencesIn, step inRest, map_append, foldl_append]
          apply congrArg fun s => List.foldl visit s _
          cases has : e.mHasReference with
          | false =>
            have nowhere : e.references = [] := references_of_not_mHasReference e has
            have entries : ((List.range label.arraySize.toNat).flatMap fun _ =>
                ([] : List Nat)) = [] := by simp
            simp [nowhere, entries]
          | true =>
            simp only [if_true, known, map_flatMap, foldl_flatMap, map_map, Function.comp_def, add_assoc]
      exact fields _ (List.Subset.refl _) 0 s

end RenderScript.Elements
