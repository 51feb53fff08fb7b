import Mathlib.Data.BitVec
import Mathlib.Data.Rat.Floor
import Mathlib.Algebra.BigOperators.Fin
import Mathlib.Algebra.Order.BigOperators.Group.List
import Mathlib.Tactic.IntervalCases

/-!
# The histogram intrinsic

Every worker counts into a table of its own; `postLaunch` adds the tables up.
-/

namespace RenderScript.Intrinsics
open List

abbrev Cell := Fin 4 → UInt8

/-- `mSums`, with its 32-bit counters. -/
abbrev Sums := Nat → BitVec 32

def Sums.increment (sums : Sums) (i : Nat) : Sums := Function.update sums i (sums i + 1)

theorem Sums.increment_apply (sums : Sums) (i j : Nat) : sums.increment i j = sums j + if j = i then 1 else 0 := by
  by_cases eq : j = i <;> simp [increment, eq]

/-- One cell in a kernel that counts `channels` with the bins of a value `stride` counters apart. -/
def kernelP1U (stride : Nat) (channels : List (Fin 4)) (lid : Nat) (sums : Sums) (cell : Cell) : Sums :=
  channels.foldl (fun sums c => sums.increment (256 * stride * lid + ((cell c).toNat * stride + c))) sums

def kernelP1U1 := kernelP1U 1 [0]
def kernelP1U2 := kernelP1U 2 [0, 1]
def kernelP1U3 := kernelP1U 4 [0, 1, 2]
def kernelP1U4 := kernelP1U 4 [0, 1, 2, 3]

/-- The kernel `preLaunch` picks for slot 0, and the vector size it clears the tables for. -/
def rootPtr : Nat → Nat × (Nat → Sums → Cell → Sums)
  | 1 => (1, kernelP1U1)
  | 2 => (2, kernelP1U2)
  | 3 => (4, kernelP1U3)
  | vSize => (vSize, kernelP1U4)

/-- Three channels are stored as four. -/
def padded (vSize : Nat) : Nat := if vSize = 3 then 4 else vSize

def preLaunch (vSize threads : Nat) (mSums : Sums) : Sums :=
  fun i => if i < 256 * threads * (rootPtr vSize).1 then 0 else mSums i

def postLaunch (vSize threads : Nat) (mSums : Sums) (ct : Nat) : BitVec 32 :=
  (List.range' 1 (threads - 1)).foldl (fun o t => o + mSums (ct + 256 * padded vSize * t)) (mSums ct)

/-- The cells of an image in the order they are counted, each with the worker that takes it. -/
def launch (vSize threads : Nat) (cells : List (Fin threads × Cell)) (mSums : Sums) : Nat → BitVec 32 :=
  postLaunch vSize threads
    (cells.foldl (fun sums cell => (rootPtr vSize).2 cell.1 sums cell.2) (preLaunch vSize threads mSums))

/-- The counters of one bin in all the tables together. -/
def Sums.total (sums : Sums) (stride threads ct : Nat) : BitVec 32 :=
  ∑ t ∈ Finset.range threads, sums (ct + 256 * stride * t)

theorem postLaunch_eq {vSize threads : Nat} (some : 0 < threads) (mSums : Sums) (ct : Nat) :
    postLaunch vSize threads mSums ct = mSums.total (padded vSize) threads ct := by
  obtain ⟨n, rfl⟩ := Nat.exists_eq_succ_of_ne_zero some.ne'
  simp only [postLaunch, Sums.total, Nat.succ_eq_add_one, Nat.add_sub_cancel]
  induction n with
  | zero => simp
  | succ n ih =>
      rw [range'_1_concat, foldl_append, ih n.succ_pos, Finset.sum_range_succ _ (n + 1), add_comm 1 n]
      rfl

section
variable {stride threads lid v w : Nat} {c d : Fin 4}

theorem Sums.total_increment (inTable : lid < threads) (first : c < stride) (second : d < stride) (v8 : v < 256)
    (w8 : w < 256) (sums : Sums) :
    (sums.increment (256 * stride * lid + (w * stride + d))).total stride threads (v * stride + c) =
      sums.total stride threads (v * stride + c) + if d = c ∧ w = v then 1 else 0 := by
  have bin : ∀ t, v * stride + c + 256 * stride * t = 256 * stride * lid + (w * stride + d) ↔ t = lid ∧ d = c ∧ w = v := by
    intro t
    constructor
    · intro eq
      have split : stride * (v + 256 * t) + c = stride * (w + 256 * lid) + d := by linarith
      have rem := congrArg (· % stride) split
      have quot := congrArg (· / stride) split
      simp only [Nat.mul_add_mod, Nat.mod_eq_of_lt first, Nat.mod_eq_of_lt second] at rem
      simp only [Nat.mul_add_div (Nat.zero_lt_of_lt first), Nat.div_eq_of_lt first, Nat.div_eq_of_lt second] at quot
      exact ⟨by omega, Fin.ext rem.symm, by omega⟩
    · rintro ⟨rfl, rfl, rfl⟩
      omega
  simp only [total, increment_apply, bin, Finset.sum_add_distrib]
  by_cases hit : d = c ∧ w = v
  · simp only [hit, and_true, if_true, Finset.sum_ite_eq', Finset.mem_range, inTable]
  · simp [hit]

theorem Sums.total_kernelP1U (inTable : lid < threads) (first : c < stride) (v8 : v < 256) (sums : Sums) (cell : Cell)
    {channels : List (Fin 4)} (nodup : channels.Nodup) (inside : ∀ d ∈ channels, d < stride) :
    (kernelP1U stride channels lid sums cell).total stride threads (v * stride + c) =
      sums.total stride threads (v * stride + c) + if c ∈ channels ∧ (cell c).toNat = v then 1 else 0 := by
  induction channels generalizing sums with
  | nil => simp [kernelP1U]
  | cons d rest ih =>
      obtain ⟨fresh, nodup⟩ := nodup_cons.mp nodup
      obtain ⟨second, inside⟩ := forall_mem_cons.mp inside
      rw [kernelP1U, foldl_cons, ← kernelP1U, ih _ nodup inside, total_increment inTable first second v8 (cell d).toNat_lt]
      by_cases eq : d = c
      · subst eq
        simp [fresh]
      · simp [eq, Ne.symm eq]

end

theorem rootPtr_eq {vSize : Nat} (sizes : 1 ≤ vSize ∧ vSize ≤ 4) :
    ∃ stride channels, rootPtr vSize = (stride, kernelP1U stride channels) ∧
      padded vSize = stride ∧ channels.Nodup ∧ (∀ d ∈ channels, d < stride) ∧
      ∀ c : Fin 4, c < vSize → c ∈ channels := by
  obtain ⟨low, high⟩ := sizes
  interval_cases vSize <;> exact ⟨_, _, rfl, rfl, by decide⟩

theorem launch_counts {vSize threads : Nat} (sizes : 1 ≤ vSize ∧ vSize ≤ 4) (some : 0 < threads)
    (cells : List (Fin threads × Cell)) (mSums : Sums) (v : UInt8) (c : Fin 4) (counted : c < vSize)
    (few : cells.countP (fun cell => cell.2 c = v) < 2 ^ 31) :
    (launch vSize threads cells mSums (v.toNat * padded vSize + c)).toNat = cells.countP (fun cell => cell.2 c = v) := by
  obtain ⟨stride, channels, root, wide, nodup, inside, all⟩ := rootPtr_eq sizes
  have mem := all c counted
  have v8 := v.toNat_lt
  have run : ∀ sums : Sums,
      (cells.foldl (fun sums cell => kernelP1U stride channels cell.1 sums cell.2) sums).total stride threads
        (v.toNat * stride + c) =
      sums.total stride threads (v.toNat * stride + c) + (cells.countP (fun cell => cell.2 c = v) : BitVec 32) := by
    clear few
    induction cells with
    | nil => simp
    | cons cell rest ih =>
        intro sums
        rw [foldl_cons, ih, Sums.total_kernelP1U cell.1.isLt (inside c mem) v8 sums cell.2 nodup inside]
        rw [countP_cons, Nat.cast_add, add_assoc, add_comm (Nat.cast _)]
        by_cases hit : cell.2 c = v
        · simp [hit, mem]
        · simp [hit, mem, UInt8.toNat_inj]
  have clear : (preLaunch vSize threads mSums).total stride threads (v.toNat * stride + c) = 0 := by
    refine Finset.sum_eq_zero fun t lt => if_pos ?_
    have inRow := inside c mem
    have last := Finset.mem_range.mp lt
    rw [root]
    nlinarith
  rw [launch, postLaunch_eq some, root, wide, run, clear, zero_add, BitVec.natCast_eq_ofNat, BitVec.toNat_ofNat]
  exact Nat.mod_eq_of_lt (few.trans (by norm_num))

theorem launch_counts_two : (launch 3 2 [(0, fun _ => 7), (1, fun _ => 7)] (fun _ => 9) (7 * 4 + 2)).toNat = 2 :=
  launch_counts (by decide) (by decide) [(0, fun _ => 7), (1, fun _ => 7)] (fun _ => 9) 7 2 (by decide) (by decide)

/-- One rounded coefficient of `mDotI`. -/
def mDotI (dot : ℚ) : Int := ⌊dot * 256 + 1 / 2⌋

/-- The bin of a cell in a dot kernel over the given channels. -/
def luminance (channels : List (Fin 4)) (mDot : Fin 4 → ℚ) (cell : Cell) : Int :=
  ((channels.map fun k => mDotI (mDot k) * (cell k).toNat).sum + 0x7f) / 2 ^ 8

def kernelP1L1 := luminance [0]
def kernelP1L2 := luminance [0, 1]
def kernelP1L3 := luminance [0, 1, 2]
def kernelP1L4 := luminance [0, 1, 2, 3]

end RenderScript.Intrinsics
