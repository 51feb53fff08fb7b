import RenderScript.Foundation.ByteMemory
import RenderScript.Element.ElementReferences

/-!
# Cells with handles

The walks of `Type::incRefs` and `Type::decRefs` over cells that lie one behind the other, and
the handles they meet. A handle is an address of four bytes.
-/

namespace RenderScript.Allocations
open AlignedBytes ByteMemory Elements List

def handleAt (memory : Memory) (ptr : Nat) : Nat := decode (read memory ⟨ptr, 4⟩)

theorem handleAt_congr {memory other : Memory} {ptr : Nat}
    (same : ∀ i < 4, memory (ptr + i) = other (ptr + i)) : handleAt memory ptr = handleAt other ptr := by
  apply congrArg decode
  apply read_congr
  rintro loc ⟨above, lt⟩
  obtain ⟨i, rfl⟩ := Nat.exists_eq_add_of_le above
  exact same i (Nat.add_lt_add_iff_left.mp lt)

theorem handleAt_write_inside {memory bytes : Memory} {dst size ptr : Nat} (inside : ptr + 4 ≤ size) :
    handleAt (write memory ⟨dst, size⟩ bytes) (dst + ptr) = handleAt bytes ptr := by
  apply congrArg decode
  apply map_congr_left
  intro i mem
  have small := mem_range.mp mem
  have held : Region.Holds ⟨dst, size⟩ (dst + ptr + i) := by
    constructor
    · dsimp only
      omega
    · dsimp only at small ⊢
      omega
  rw [write, if_pos held]
  apply congrArg bytes
  dsimp only
  omega

/-- The walk of `Type::incRefs` and `Type::decRefs`. The stride has 32 bits. -/
def visitCells {σ : Type} (visit : σ → Nat → σ) (e : Element) (ptr ct startOff : Nat) (s : σ) : σ :=
  let stride := (UInt32.ofNat e.getSizeBytes).toNat
  (List.range ct).foldl (fun s i => e.visitRefs visit (ptr + stride * startOff + i * stride) s) s

/-- The handles of `ct` cells from `ptr` on. -/
def cellRefs (e : Element) (ptr ct : Nat) : List Nat :=
  (List.range ct).flatMap fun i => e.references.map (ptr + i * e.getSizeBytes + ·)

theorem visitCells_eq {σ : Type} (visit : σ → Nat → σ) {e : Element} {ct : Nat}
    (small : ct ≠ 0 → e.getSizeBytes < 2 ^ 32) (ptr startOff : Nat) (s : σ) :
    visitCells visit e ptr ct startOff s = (cellRefs e (ptr + e.getSizeBytes * startOff) ct).foldl visit s := by
  cases ct with
  | zero => rfl
  | succ ct =>
    have stride : (UInt32.ofNat e.getSizeBytes).toNat = e.getSizeBytes := by
      rw [UInt32.toNat_ofNat', Nat.mod_eq_of_lt (small (Nat.succ_ne_zero ct))]
    simp [visitCells, cellRefs, stride, visitRefs_eq, foldl_flatMap]

theorem cellRefs_add (e : Element) (ptr ct more : Nat) :
    cellRefs e ptr (ct + more) = cellRefs e ptr ct ++ cellRefs e (ptr + ct * e.getSizeBytes) more := by
  rw [cellRefs, cellRefs, cellRefs, range_add, flatMap_append, flatMap_map]
  simp only [add_mul, add_assoc]

theorem cellRefs_nil {e : Element} (none : e.references = []) (ptr ct : Nat) : cellRefs e ptr ct = [] := by
  simp [cellRefs, none]

theorem mem_cellRefs {e : Element} {ptr ct p : Nat} :
    p ∈ cellRefs e ptr ct ↔ ∃ i < ct, ∃ r ∈ e.references, ptr + i * e.getSizeBytes + r = p := by
  simp [cellRefs]

theorem cellRefs_shift (e : Element) (ptr ct : Nat) : cellRefs e ptr ct = (cellRefs e 0 ct).map (ptr + ·) := by
  simp only [cellRefs, map_flatMap, map_map, Function.comp_def, zero_add, add_assoc]

def RefsInside (e : Element) : Prop := ∀ r ∈ e.references, r + 4 ≤ e.getSizeBytes

instance (e : Element) : Decidable (RefsInside e) := inferInstanceAs (Decidable (∀ r ∈ _, _))

theorem RefsInside.mem_cellRefs {e : Element} (inside : RefsInside e) {ptr ct p : Nat}
    (mem : p ∈ cellRefs e ptr ct) : ptr ≤ p ∧ p + 4 ≤ ptr + ct * e.getSizeBytes := by
  obtain ⟨i, before, r, known, rfl⟩ := Allocations.mem_cellRefs.mp mem
  have fits := inside r known
  have next : (i + 1) * e.getSizeBytes ≤ ct * e.getSizeBytes := Nat.mul_le_mul_right _ before
  rw [Nat.succ_mul] at next
  omega

end RenderScript.Allocations
