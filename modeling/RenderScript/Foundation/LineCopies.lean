import RenderScript.Foundation.ByteMemory

/-!
# Copies line by line

A number of lines of the same length is copied from one memory to another, or within one memory.
Each line has a place of its own in both memories, given by functions of its number.
-/

namespace LineCopies
open ByteMemory

variable {memory src buffer : Memory} {from? : Option Memory} {n lines i j location dst : Nat} {target source back : Nat → Nat}

/-- Lines of `n` bytes, the first one first. -/
def copy (src : Memory) (n : Nat) : Nat → (Nat → Nat) → (Nat → Nat) → Memory → Memory
  | 0, _, _, memory => memory
  | lines + 1, target, source, memory =>
    copy src n lines (fun i => target (i + 1)) (fun i => source (i + 1))
      (write memory ⟨target 0, n⟩ fun k => src (source 0 + k))

/-- A location that is in none of the lines. -/
def Outside (n lines : Nat) (target : Nat → Nat) (location : Nat) : Prop :=
  ∀ i < lines, location < target i ∨ target i + n ≤ location

/-- No line reaches into a later one. -/
def Apart (n lines : Nat) (target : Nat → Nat) : Prop :=
  ∀ i j, i < j → j < lines → target i + n ≤ target j ∨ target j + n ≤ target i

theorem write_at (memory bytes : Memory) (inside : j < n) : write memory ⟨dst, n⟩ bytes (dst + j) = bytes j := by
  have held : Region.Holds ⟨dst, n⟩ (dst + j) := ⟨Nat.le_add_right _ _, Nat.add_lt_add_left inside _⟩
  rw [write, if_pos held]
  exact congrArg bytes (Nat.add_sub_cancel_left _ _)

theorem write_outside (memory bytes : Memory) (out : location < dst ∨ dst + n ≤ location) :
    write memory ⟨dst, n⟩ bytes location = memory location := by
  apply if_neg
  rintro ⟨above, lt⟩
  rcases out with before | behind
  · exact lt_irrefl _ (above.trans_lt before)
  · exact lt_irrefl _ (lt.trans_le behind)

/-- Lines of `n` bytes from `src`, or from the memory itself where there is no `src`. -/
def transfer (src : Option Memory) (n : Nat) : Nat → (Nat → Nat) → (Nat → Nat) → Memory → Memory
  | 0, _, _, memory => memory
  | lines + 1, target, source, memory =>
    transfer src n lines (fun i => target (i + 1)) (fun i => source (i + 1))
      (write memory ⟨target 0, n⟩ fun k => src.getD memory (source 0 + k))

theorem transfer_outside (out : Outside n lines target location) :
    transfer from? n lines target source memory location = memory location := by
  induction lines generalizing target source memory with
  | zero => rfl
  | succ lines ih =>
    rw [transfer, ih, write_outside memory _ (out 0 (Nat.succ_pos _))]
    exact fun i lt => out (i + 1) (Nat.succ_lt_succ lt)

theorem transfer_add (first second : Nat) : transfer from? n (first + second) target source memory =
      transfer from? n second (fun i => target (first + i)) (fun i => source (first + i))
        (transfer from? n first target source memory) := by
  induction first generalizing target source memory with
  | zero => simp only [zero_add, transfer]
  | succ first ih =>
    rw [Nat.succ_add, transfer, transfer, ih]
    simp [Nat.succ_add]

theorem copy_eq_transfer : copy src n lines target source memory = transfer (some src) n lines target source memory := by
  induction lines generalizing target source memory with
  | zero => rfl
  | succ lines ih => exact ih

theorem copy_outside (out : Outside n lines target location) :
    copy src n lines target source memory location = memory location := by
  rw [copy_eq_transfer, transfer_outside out]

theorem copy_at (apart : Apart n lines target) (inLines : i < lines) (inside : j < n) :
    copy src n lines target source memory (target i + j) = src (source i + j) := by
  induction lines generalizing target source memory i with
  | zero => exact absurd inLines (Nat.not_lt_zero _)
  | succ lines ih =>
    cases i with
    | zero =>
      rw [copy, copy_outside, write_at memory _ inside]
      intro k lt
      rcases apart 0 (k + 1) (Nat.succ_pos _) (Nat.succ_lt_succ lt) with before | behind
      · exact .inl ((Nat.add_lt_add_left inside _).trans_le before)
      · exact .inr (behind.trans (Nat.le_add_right _ _))
    | succ i =>
      have later : Apart n lines fun i => target (i + 1) := fun k l before lt =>
        apart (k + 1) (l + 1) (Nat.succ_lt_succ before) (Nat.succ_lt_succ lt)
      exact ih later (Nat.lt_of_succ_lt_succ inLines)

/-- What all bytes that are copied and all bytes that were there have in common. -/
theorem copy_forall {p : UInt8 → Prop} (kept : ∀ location, p (memory location))
    (taken : ∀ i < lines, ∀ j < n, p (src (source i + j))) (location : Nat) :
    p (copy src n lines target source memory location) := by
  induction lines generalizing target source memory with
  | zero => exact kept location
  | succ lines ih =>
    apply ih
    · intro location
      unfold write
      split
      · rename_i held
        exact taken 0 (Nat.succ_pos _) _ (Nat.sub_lt_left_of_lt_add held.1 held.2)
      · exact kept location
    · exact fun i lt => taken (i + 1) (Nat.succ_lt_succ lt)

theorem copy_add (first second : Nat) : copy src n (first + second) target source memory =
      copy src n second (fun i => target (first + i)) (fun i => source (first + i)) (copy src n first target source memory) := by
  simp only [copy_eq_transfer, transfer_add]

theorem copy_congr {target' source' : Nat → Nat} (targets : ∀ i < lines, target i = target' i)
    (sources : ∀ i < lines, source i = source' i) :
    copy src n lines target source memory = copy src n lines target' source' memory := by
  induction lines generalizing target source target' source' memory with
  | zero => rfl
  | succ lines ih =>
    rw [copy, copy, targets 0 (Nat.succ_pos _), sources 0 (Nat.succ_pos _)]
    apply ih
    · exact fun i lt => targets (i + 1) (Nat.succ_lt_succ lt)
    · exact fun i lt => sources (i + 1) (Nat.succ_lt_succ lt)

/-- Lines that are copied to another memory come back when they are copied from there. -/
theorem copy_copy (apart : Apart n lines target) (backApart : Apart n lines back) (inLines : i < lines) (inside : j < n) :
    copy (copy src n lines target source memory) n lines back target buffer (back i + j) = src (source i + j) := by
  rw [copy_at backApart inLines inside, copy_at apart inLines inside]

/-- The first of the lines and the others, at a fixed distance. -/
theorem forall_lines_succ {stride limit : Nat} : (∀ i < lines + 1, dst + i * stride + n ≤ limit) ↔
      dst + n ≤ limit ∧ ∀ i < lines, dst + stride + i * stride + n ≤ limit := by
  rw [Nat.forall_lt_succ_left, Nat.zero_mul, add_zero]
  simp only [Nat.succ_mul, add_assoc, add_comm stride]

/-- Lines at a fixed distance. -/
theorem apart_mul {stride : Nat} (wide : n ≤ stride) : Apart n lines (· * stride) := by
  intro i j before _
  refine .inl ?_
  calc i * stride + n ≤ i * stride + stride := Nat.add_le_add_left wide _
    _ = (i + 1) * stride := (Nat.succ_mul i stride).symm
    _ ≤ j * stride := Nat.mul_le_mul_right stride before

/-- A value that is read at a location, if it is at all locations in `held`. -/
def Feeds (src : Option Memory) (held : Nat → Prop) (v : UInt8) (location : Nat) : Prop :=
  match src with
  | none => held location
  | some bytes => bytes location = v

section

variable {held : Nat → Prop} {v : UInt8}

/-- Lines that are copied onto themselves. -/
theorem transfer_self (same : ∀ i < lines, target i = source i) : transfer none n lines target source memory = memory := by
  induction lines generalizing target source memory with
  | zero => rfl
  | succ lines ih =>
    have first : write memory ⟨target 0, n⟩ (fun k => memory (source 0 + k)) = memory := by
      funext location
      unfold write
      split
      case isTrue held =>
        rw [← same 0 (Nat.succ_pos _)]
        exact congrArg memory (Nat.add_sub_cancel' held.1)
      case isFalse => rfl
    rw [transfer, Option.getD_none, first]
    exact ih fun i lt => same (i + 1) (Nat.succ_lt_succ lt)

theorem Feeds.read (feeds : Feeds from? held v location) (there : ∀ l, held l → memory l = v) :
    from?.getD memory location = v := by
  cases from? with
  | none => exact there location feeds
  | some bytes => exact feeds

/-- A line that is written with a value from elsewhere. -/
theorem write_keeps {bytes : Memory} (there : ∀ l, held l → memory l = v) (fed : ∀ j < n, held (dst + j) → bytes j = v) :
    ∀ l, held l → write memory ⟨dst, n⟩ bytes l = v := by
  intro l isHeld
  unfold write
  split
  case isTrue inside =>
    obtain ⟨j, rfl⟩ := Nat.exists_eq_add_of_le inside.1
    rw [Nat.add_sub_cancel_left]
    exact fed j (lt_of_add_lt_add_left inside.2) isHeld
  case isFalse => exact there l isHeld

/-- A value stays at locations that get it only from each other. -/
theorem transfer_keeps (there : ∀ l, held l → memory l = v)
    (fed : ∀ i < lines, ∀ j < n, held (target i + j) → Feeds from? held v (source i + j)) :
    ∀ l, held l → transfer from? n lines target source memory l = v := by
  induction lines generalizing target source memory with
  | zero => exact there
  | succ lines ih =>
    apply ih
    · apply write_keeps there
      exact fun j inside isHeld => (fed 0 (Nat.succ_pos _) j inside isHeld).read there
    · exact fun i lt => fed (i + 1) (Nat.succ_lt_succ lt)

/-- A value gets from such locations to one that is written. -/
theorem transfer_reaches (there : ∀ l, held l → memory l = v)
    (fed : ∀ i < lines, ∀ j < n, held (target i + j) ∨ target i + j = location → Feeds from? held v (source i + j))
    (written : ¬ Outside n lines target location) :
    transfer from? n lines target source memory location = v := by
  induction lines generalizing target source memory with
  | zero => exact absurd (fun i lt => absurd lt (Nat.not_lt_zero i)) written
  | succ lines ih =>
    have kept : ∀ l, held l → write memory ⟨target 0, n⟩ (fun k => from?.getD memory (source 0 + k)) l = v := by
      apply write_keeps there
      exact fun j inside isHeld => (fed 0 (Nat.succ_pos _) j inside (.inl isHeld)).read there
    by_cases later : Outside n lines (fun i => target (i + 1)) location
    · -- the first line is the only one that writes there
      have inside : Region.Holds ⟨target 0, n⟩ location := by
        by_contra outside
        apply written
        intro i lt
        cases i with
        | zero =>
          by_contra neither
          rw [not_or, not_lt, not_le] at neither
          exact outside neither
        | succ i => exact later i (Nat.lt_of_succ_lt_succ lt)
      obtain ⟨j, rfl⟩ := Nat.exists_eq_add_of_le inside.1
      have small : j < n := lt_of_add_lt_add_left inside.2
      rw [transfer, transfer_outside later, write_at memory _ small]
      exact (fed 0 (Nat.succ_pos _) j small (.inr rfl)).read there
    · exact ih kept (fun i lt => fed (i + 1) (Nat.succ_lt_succ lt)) later

end

end LineCopies
