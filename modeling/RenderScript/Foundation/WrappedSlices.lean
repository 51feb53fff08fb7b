import RenderScript.Foundation.TicketPool

/-!
# Slices of an interval, computed with wrapping arithmetic

The interval `[start, stop)` is cut into slices of `size` indices, and the bounds
of each slice are computed modulo a word size. Without wrap-around the slices
tile the interval. When a slice that the workers draw wraps, some index is taken
twice, is missed, or lies outside the interval.
-/

namespace WrappedSlices
open List

variable {slice workers drawn : Nat}

variable (modulus start stop size : Nat)

def first (slice : Nat) : Nat := (start + slice * size) % modulus

def last (slice : Nat) : Nat := min ((first modulus start size slice + size) % modulus) stop

def isEmpty (slice : Nat) : Bool :=
  decide (last modulus start stop size slice ≤ first modulus start size slice)

def indices (slice : Nat) : List Nat :=
  List.range' (first modulus start size slice)
    (last modulus start stop size slice - first modulus start size slice)

/-- Slices needed to cover the interval. -/
def needed : Nat := (stop - start + size - 1) / size

variable {modulus start stop size}

theorem needed_mul_ge (pos : 0 < size) : stop - start ≤ needed start stop size * size := by
  have divided := Nat.div_add_mod (stop - start + size - 1) size
  have remainder := Nat.mod_lt (stop - start + size - 1) pos
  rw [mul_comm] at divided
  unfold needed
  omega

theorem start_add_lt_stop (pos : 0 < size) (inside : slice < needed start stop size) : start + slice * size < stop := by
  have bounded : (slice + 1) * size ≤ stop - start + size - 1 := by
    calc (slice + 1) * size ≤ needed start stop size * size := Nat.mul_le_mul_right size inside
      _ ≤ stop - start + size - 1 := Nat.div_mul_le_self _ _
  rw [Nat.succ_mul] at bounded
  omega

theorem needed_pos (pos : 0 < size) (ne : start < stop) : 0 < needed start stop size := by
  have covers := @needed_mul_ge start stop _ pos
  by_contra none
  have zero : needed start stop size = 0 := by omega
  rw [zero] at covers
  omega

theorem first_of_lt (small : start + slice * size < modulus) : first modulus start size slice = start + slice * size :=
  Nat.mod_eq_of_lt small

theorem last_of_lt (small : start + (slice + 1) * size < modulus) :
    last modulus start stop size slice = min (start + (slice + 1) * size) stop := by
  have smaller : start + slice * size < modulus := by
    rw [Nat.succ_mul] at small
    omega
  rw [last, first_of_lt smaller, add_assoc, ← Nat.succ_mul, Nat.mod_eq_of_lt small]

theorem isEmpty_eq_false (pos : 0 < size)
    (small : start + (slice + 1) * size < modulus) (inside : start + slice * size < stop) :
    isEmpty modulus start stop size slice = false := by
  have grows : start + slice * size < start + (slice + 1) * size := by
    rw [Nat.succ_mul]
    omega
  simp only [isEmpty, decide_eq_false_iff_not, not_le]
  rw [first_of_lt (by omega), last_of_lt small]
  omega

theorem isEmpty_of_ge (small : start + slice * size < modulus)
    (out : stop ≤ start + slice * size) : isEmpty modulus start stop size slice = true := by
  simp only [isEmpty, decide_eq_true_eq, first_of_lt small]
  exact (min_le_right _ _).trans out

theorem indices_of_lt (small : start + (slice + 1) * size < modulus) : indices modulus start stop size slice =
      List.range' (start + slice * size) (min size (stop - (start + slice * size))) := by
  have smaller : start + slice * size < modulus := by
    rw [Nat.succ_mul] at small
    omega
  rw [indices, first_of_lt smaller, last_of_lt small, Nat.succ_mul]
  congr 1
  omega

/-- The first slices of an interval tile its beginning. -/
theorem flatMap_indices (count : Nat) (small : start + count * size < modulus) :
    (List.range count).flatMap (indices modulus start stop size) = List.range' start (min (count * size) (stop - start)) := by
  induction count with
  | zero => simp
  | succ count ih =>
    have smaller : start + count * size < modulus := by
      rw [Nat.succ_mul] at small
      omega
    rw [range_succ, flatMap_append, ih smaller]
    simp only [flatMap_cons, flatMap_nil, append_nil, indices_of_lt small]
    by_cases covered : stop - start ≤ count * size
    · have finished : stop - (start + count * size) = 0 := by omega
      rw [finished, min_eq_right covered, Nat.succ_mul]
      simp only [min_zero, range'_zero, append_nil]
      congr 1
      omega
    · rw [min_eq_left (by omega : count * size ≤ stop - start), range'_append_1]
      congr 1
      rw [Nat.succ_mul]
      omega

/-- All needed slices together are the interval, in order. -/
theorem flatMap_indices_needed (pos : 0 < size) (small : start + needed start stop size * size < modulus) :
    (List.range (needed start stop size)).flatMap (indices modulus start stop size) = List.range' start (stop - start) := by
  rw [flatMap_indices _ small, min_eq_right (needed_mul_ge pos)]

theorem isEmpty_of_lt_needed (pos : 0 < size) (small : start + needed start stop size * size < modulus)
    (inside : slice < needed start stop size) :
    isEmpty modulus start stop size slice = false := by
  have bounded : (slice + 1) * size ≤ needed start stop size * size := Nat.mul_le_mul_right size inside
  exact isEmpty_eq_false pos (by omega) (start_add_lt_stop pos inside)

theorem isEmpty_of_needed_le (pos : 0 < size) (small : start + slice * size < modulus)
    (out : needed start stop size ≤ slice) :
    isEmpty modulus start stop size slice = true := by
  have covers := @needed_mul_ge start stop _ pos
  have bounded := Nat.mul_le_mul_right size out
  exact isEmpty_of_ge small (by omega)

theorem mem_indices_iff {index : Nat} : index ∈ indices modulus start stop size slice ↔
      first modulus start size slice ≤ index ∧ index < last modulus start stop size slice := by
  rw [indices, mem_range'_1]
  omega

theorem exists_first_wrapping (bound : Nat) (wraps : modulus ≤ start + bound * size) :
    ∃ slice, slice ≤ bound ∧ modulus ≤ start + slice * size ∧ ∀ earlier, earlier < slice → start + earlier * size < modulus := by
  have escapes : ∃ slice, modulus ≤ start + slice * size := ⟨bound, wraps⟩
  refine ⟨Nat.find escapes, Nat.find_min' escapes wraps, Nat.find_spec escapes, ?_⟩
  intro earlier before
  exact Nat.lt_of_not_le (Nat.find_min escapes before)

/-- Every lap around the word meets an empty slice, so workers can always leave. -/
theorem exists_isEmpty_ge (pos : 0 < size) (small : size < modulus) (slice : Nat) :
    ∃ later, slice ≤ later ∧ isEmpty modulus start stop size later = true := by
  -- The last slice that begins before the next multiple of the word wraps its end.
  obtain ⟨lap, lapEq⟩ : ∃ lap, lap = (start + slice * size) / modulus + 1 := ⟨_, rfl⟩
  have lapPos : 0 < lap := by
    rw [lapEq]
    exact Nat.succ_pos _
  have lt : start + slice * size < lap * modulus := by
    have divided := Nat.div_add_mod (start + slice * size) modulus
    have remainder := Nat.mod_lt (start + slice * size) (by omega : 0 < modulus)
    rw [lapEq, Nat.succ_mul]
    rw [mul_comm] at divided
    omega
  have reached : lap * modulus ≤ start + (slice + lap * modulus) * size := by
    have grows : lap * modulus ≤ lap * modulus * size := Nat.le_mul_of_pos_right _ pos
    rw [add_mul]
    omega
  obtain ⟨wrapping, _, beyond, before⟩ := exists_first_wrapping _ reached
  have later : slice < wrapping := by
    by_contra early
    have bounded : wrapping * size ≤ slice * size := Nat.mul_le_mul_right size (by omega)
    omega
  refine ⟨wrapping - 1, by omega, ?_⟩
  have inside := before (wrapping - 1) (by omega)
  have split : wrapping * size = (wrapping - 1) * size + size := by
    rw [← Nat.succ_mul]
    congr 1
    omega
  have lower : (lap - 1) * modulus ≤ start + (wrapping - 1) * size := by
    have divided := Nat.div_mul_le_self (start + slice * size) modulus
    have bounded : slice * size ≤ (wrapping - 1) * size := Nat.mul_le_mul_right size (by omega)
    rw [lapEq, Nat.add_sub_cancel]
    omega
  have lapSplit : lap * modulus = (lap - 1) * modulus + modulus := by
    rw [← Nat.succ_mul]
    congr 1
    omega
  have begins : first modulus start size (wrapping - 1) = start + (wrapping - 1) * size - (lap - 1) * modulus := by
    rw [first, ← Nat.sub_mul_mod (k := lap - 1) (by rwa [mul_comm]), mul_comm modulus]
    exact Nat.mod_eq_of_lt (by omega)
  have ends : (first modulus start size (wrapping - 1) + size) % modulus =
      first modulus start size (wrapping - 1) + size - modulus := by
    rw [Nat.mod_eq_sub_mod (by omega)]
    exact Nat.mod_eq_of_lt (by omega)
  simp only [isEmpty, decide_eq_true_eq, last, ends]
  omega

private theorem countP_range_le {p : Nat → Bool} {count bound : Nat}
    (early : ∀ slice, slice < count → p slice = false) (inside : count ≤ bound) :
    (List.range bound).countP p ≤ bound - count := by
  obtain ⟨rest, rfl⟩ := Nat.exists_eq_add_of_le inside
  have none : (List.range count).countP p = 0 := by
    rw [countP_eq_zero]
    intro slice mem
    simp [early slice (mem_range.mp mem)]
  rw [range_add, countP_append, none]
  have all := countP_le_length (p := p) (l := (List.range rest).map (count + ·))
  simp only [length_map, length_range] at all
  omega

variable (modulus start stop size) in
/-- The needed slices hold indices, and as many slices after them as there are
workers are empty, so that every worker leaves. -/
def InOrder (workers : Nat) : Prop :=
  ∀ slice, slice < needed start stop size + workers →
    isEmpty modulus start stop size slice = decide (needed start stop size ≤ slice)

theorem inOrder_of_lt (pos : 0 < size) (small : start + (needed start stop size + workers) * size < modulus) :
    InOrder modulus start stop size workers := by
  have grows : needed start stop size * size ≤ (needed start stop size + workers) * size := Nat.mul_le_mul_right size (by omega)
  intro slice drawn
  by_cases out : needed start stop size ≤ slice
  · have bounded : slice * size ≤ (needed start stop size + workers) * size := Nat.mul_le_mul_right size (by omega)
    have room : start + slice * size < modulus := by omega
    rw [isEmpty_of_needed_le pos room out, decide_eq_true out]
  · have room : start + needed start stop size * size < modulus := by omega
    have early : slice < needed start stop size := by omega
    rw [isEmpty_of_lt_needed pos room early, decide_eq_false out]

theorem indices_of_isEmpty (empty : isEmpty modulus start stop size slice = true) :
    indices modulus start stop size slice = [] := by
  rw [isEmpty, decide_eq_true_eq] at empty
  simp [indices, Nat.sub_eq_zero_of_le empty]

/-- A slice with an index in it has not wrapped its end. -/
theorem bounds_of_mem (small : size < modulus) {index : Nat} (mem : index ∈ indices modulus start stop size slice) :
    first modulus start size slice ≤ index ∧ index < first modulus start size slice + size ∧
      index < stop ∧ first modulus start size slice + size < modulus := by
  rw [mem_indices_iff, last] at mem
  have begins : first modulus start size slice < modulus := Nat.mod_lt _ (by omega)
  by_cases wraps : modulus ≤ first modulus start size slice + size
  · rw [Nat.mod_eq_sub_mod wraps, Nat.mod_eq_of_lt (by omega)] at mem
    omega
  · rw [Nat.mod_eq_of_lt (by omega)] at mem
    omega

theorem InOrder.room (pos : 0 < size) (ne : start < stop) (inside : stop < modulus) (small : size < modulus)
    (ordered : InOrder modulus start stop size workers) :
    start + needed start stop size * size < modulus := by
  have some := needed_pos pos ne
  have begun := start_add_lt_stop pos (by omega : needed start stop size - 1 < needed start stop size)
  have working := ordered (needed start stop size - 1) (by omega)
  rw [decide_eq_false (by omega), isEmpty, decide_eq_false_iff_not, not_le] at working
  have mem := bounds_of_mem small (mem_indices_iff.mpr ⟨le_refl _, working⟩)
  rw [first_of_lt (by omega), add_assoc, ← Nat.succ_mul] at mem
  have eq : (needed start stop size - 1).succ = needed start stop size := by omega
  rw [eq] at mem
  exact mem.2.2.2

variable (modulus start stop size) in
/-- The needed slices end below the word size, and none of the slices drawn after
them begins inside the interval again. -/
def Unwrapped (workers : Nat) : Prop :=
  start + needed start stop size * size < modulus ∧
    ∀ extra, extra < workers →
      stop ≤ first modulus start size (needed start stop size + extra) ∨
        modulus ≤ first modulus start size (needed start stop size + extra) + size

instance (workers : Nat) : Decidable (Unwrapped modulus start stop size workers) :=
  inferInstanceAs (Decidable (_ ∧ ∀ _, _ → _))

theorem isEmpty_iff (pos : 0 < size) (small : size < modulus) : isEmpty modulus start stop size slice = true ↔
      stop ≤ first modulus start size slice ∨ modulus ≤ first modulus start size slice + size := by
  have begins : first modulus start size slice < modulus := Nat.mod_lt _ (by omega)
  rw [isEmpty, decide_eq_true_iff, last]
  by_cases wraps : modulus ≤ first modulus start size slice + size
  · rw [Nat.mod_eq_sub_mod wraps, Nat.mod_eq_of_lt (by omega)]
    omega
  · rw [Nat.mod_eq_of_lt (by omega)]
    omega

theorem inOrder_iff_unwrapped (pos : 0 < size) (ne : start < stop) (inside : stop < modulus) (small : size < modulus) :
    InOrder modulus start stop size workers ↔ Unwrapped modulus start stop size workers := by
  constructor
  · intro ordered
    refine ⟨ordered.room pos ne inside small, fun extra drawn => ?_⟩
    rw [← isEmpty_iff pos small, ordered _ (by omega), decide_eq_true_iff]
    omega
  · rintro ⟨room, beyond⟩ slice drawn
    by_cases out : needed start stop size ≤ slice
    · obtain ⟨extra, rfl⟩ := Nat.exists_eq_add_of_le out
      rw [(isEmpty_iff pos small).mpr (beyond extra (by omega)), decide_eq_true out]
    · rw [isEmpty_of_lt_needed pos room (by omega), decide_eq_false out]

theorem disjoint_of_perm {count other : Nat} {interval : List Nat} (unique : interval.Nodup)
    (same : (List.range count).flatMap (indices modulus start stop size) ~ interval)
    (drawn : slice < count) (alsoDrawn : other < count) (ne : slice ≠ other) :
    (indices modulus start stop size slice).Disjoint (indices modulus start stop size other) := by
  have symmetric : Std.Symm (Function.onFun List.Disjoint (indices modulus start stop size)) :=
    ⟨fun _ _ disjoint => List.Disjoint.symm disjoint⟩
  exact (nodup_flatMap.mp (same.nodup_iff.mpr unique)).2.forall (mem_range.mpr drawn) (mem_range.mpr alsoDrawn) ne

/-- The last needed slice wraps its end, and no other slice can stand in for it. -/
private theorem not_perm_of_wrapped_end (pos : 0 < size) (nonempty : start < stop)
    (inside : stop < modulus) (small : size < modulus) (wraps : modulus ≤ start + needed start stop size * size)
    (later : needed start stop size - 1 < drawn) :
    ¬ ((List.range drawn).flatMap (indices modulus start stop size) ~ List.range' start (stop - start)) := by
  intro eq
  have some := needed_pos pos nonempty
  obtain ⟨before, beforeEq⟩ : ∃ before, before + 1 = needed start stop size := ⟨needed start stop size - 1, by omega⟩
  obtain ⟨i, indexEq⟩ : ∃ i, i = start + before * size := ⟨_, rfl⟩
  have begun := start_add_lt_stop pos (by omega : before < needed start stop size)
  rw [← beforeEq, Nat.succ_mul] at wraps
  have wanted : i ∈ List.range' start (stop - start) := by
    rw [mem_range'_1]
    omega
  obtain ⟨slice, mem, found⟩ := mem_flatMap.mp (eq.mem_iff.mpr wanted)
  have bounds := bounds_of_mem small found
  -- The slice begins earlier, so it also takes the index just before.
  have previous : i - 1 ∈ indices modulus start stop size slice := by
    rw [mem_indices_iff] at found ⊢
    omega
  have interval := mem_range'_1.mp (eq.mem_iff.mp (mem_flatMap.mpr ⟨slice, mem, previous⟩))
  cases before with
  | zero => omega
  | succ other =>
    rw [Nat.succ_mul] at indexEq begun
    have ends : first modulus start size other = start + other * size := first_of_lt (by omega)
    have out : i ∉ indices modulus start stop size other := by
      intro inner
      have innerBounds := bounds_of_mem small inner
      omega
    have twice : i - 1 ∈ indices modulus start stop size other := by
      rw [mem_indices_iff, ends, last_of_lt (by rw [Nat.succ_mul]; omega), Nat.succ_mul]
      omega
    have ne : slice ≠ other := by
      rintro rfl
      exact out found
    exact disjoint_of_perm nodup_range' eq (mem_range.mp mem) (by omega) ne previous twice

/-- When the slices are out of order, one that is surely drawn keeps the drawn
indices from being the interval. -/
theorem exists_not_perm (pos : 0 < size) (ne : start < stop)
    (inside : stop < modulus) (small : size < modulus) (some : 0 < workers)
    (disordered : ¬ InOrder modulus start stop size workers) :
    ∃ slice, (List.range slice).countP (isEmpty modulus start stop size) < workers ∧ ∀ drawn, slice < drawn →
        ¬ ((List.range drawn).flatMap (indices modulus start stop size) ~ List.range' start (stop - start)) := by
  by_cases room : start + needed start stop size * size < modulus
  · have working : ∀ slice, slice < needed start stop size → isEmpty modulus start stop size slice = false :=
      fun slice early => isEmpty_of_lt_needed pos room early
    simp only [InOrder, not_forall] at disordered
    obtain ⟨slice, surely, wrong⟩ := disordered
    have late : needed start stop size ≤ slice := by
      by_contra early
      simp [working slice (by omega), early] at wrong
    have busy : isEmpty modulus start stop size slice = false := by
      simpa [late] using wrong
    refine ⟨slice, ?_, ?_⟩
    · have few := countP_range_le working late
      omega
    · intro drawn later eq
      rw [isEmpty, decide_eq_false_iff_not, not_le] at busy
      have taken := mem_indices_iff.mpr ⟨le_refl _, busy⟩
      have interval := eq.mem_iff.mp (mem_flatMap.mpr ⟨slice, mem_range.mpr later, taken⟩)
      rw [← flatMap_indices_needed pos room] at interval
      obtain ⟨other, mem, twice⟩ := mem_flatMap.mp interval
      have early := mem_range.mp mem
      exact disjoint_of_perm nodup_range' eq later (by omega) (by omega) taken twice
  · have few : (List.range (needed start stop size - 1)).countP (isEmpty modulus start stop size) ≤ 0 := by
      have working : ∀ slice, slice < needed start stop size - 1 → isEmpty modulus start stop size slice = false := by
        intro slice early
        have next := start_add_lt_stop pos (by omega : slice + 1 < needed start stop size)
        have begun : start + slice * size < stop := by
          rw [Nat.succ_mul] at next
          omega
        exact isEmpty_eq_false pos (by omega) begun
      have counted := countP_range_le working (le_refl _)
      omega
    exact ⟨needed start stop size - 1, by omega, fun drawn later =>
      not_perm_of_wrapped_end pos ne inside small (by omega) later⟩

section

universe u

variable {α : Type u}

/-- Each ticket of the job is a slice; `index` reads the slice's indices back
from the steps done for it. -/
structure Slicing (modulus start stop size : Nat) (index : α → Option Nat)
    (job : TicketPool.Job α) : Prop where
  stops : ∀ ticket, job.stop ticket = isEmpty modulus start stop size ticket
  uniform : ∀ worker ticket, job.work worker ticket = job.work 0 ticket
  reads : ∀ ticket, (job.work 0 ticket).filterMap index = indices modulus start stop size ticket

variable {index : α → Option Nat} {job : TicketPool.Job α} {workers : Nat} {trace : List α}

/-- Ordered slices: whatever the interleaving, the steps done are those of the
needed slices. -/
theorem Slicing.perm_of_inOrder (slicing : Slicing modulus start stop size index job)
    (some : 0 < workers) (ordered : InOrder modulus start stop size workers)
    (completes : TicketPool.Completes job workers trace) :
    trace ~ (List.range (needed start stop size)).flatMap (job.work 0) := by
  refine completes.perm_range some slicing.uniform ?_ ?_
  · intro ticket early
    rw [slicing.stops, ordered ticket (by omega), decide_eq_false (by omega)]
  · intro ticket late drawn
    rw [slicing.stops, ordered ticket (by omega), decide_eq_true late]

theorem Slicing.not_perm_of_not_inOrder (slicing : Slicing modulus start stop size index job)
    (pos : 0 < size) (ne : start < stop) (inside : stop < modulus) (small : size < modulus) (some : 0 < workers)
    (disordered : ¬ InOrder modulus start stop size workers) (completes : TicketPool.Completes job workers trace) :
    ¬ (trace.filterMap index ~ List.range' start (stop - start)) := by
  obtain ⟨slice, few, wrong⟩ := exists_not_perm pos ne inside small some disordered
  have stops := funext slicing.stops
  rw [← stops] at few
  obtain ⟨drawn, later, eq⟩ := completes.exists_perm_range slicing.uniform few
  have reads : ((List.range drawn).flatMap (job.items 0)).filterMap index =
      (List.range drawn).flatMap (indices modulus start stop size) := by
    rw [filterMap_flatMap]
    congr 1
    funext ticket
    by_cases empty : job.stop ticket = true
    · simp [TicketPool.Job.items, empty, indices_of_isEmpty (by rwa [← slicing.stops])]
    · simp [TicketPool.Job.items, empty, slicing.reads]
  intro perm
  refine wrong drawn later ?_
  rw [← reads]
  exact (eq.filterMap index).symm.trans perm

end

end WrappedSlices
