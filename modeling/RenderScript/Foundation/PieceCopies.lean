import RenderScript.Foundation.LineCopies

/-!
# Copies piece by piece

Items of one size are copied to items of another size, each as a list of pieces. Pieces may overlap;
the later one wins.
-/

namespace PieceCopies
open ByteMemory LineCopies List Option

/-- A piece of an item, with its offset in the item that is read and in the one that is written. -/
structure Piece where
  source : Nat
  target : Nat
  size : Nat

namespace Piece

/-- Bytes of the item that is read. -/
def Reads (p : Piece) (b : Nat) : Prop := p.source ≤ b ∧ b < p.source + p.size

/-- Bytes of the item that is written. -/
def Writes (p : Piece) (b : Nat) : Prop := p.target ≤ b ∧ b < p.target + p.size

instance (p : Piece) (b : Nat) : Decidable (p.Writes b) := inferInstanceAs (Decidable (_ ∧ _))

/-- The same piece, copied back. -/
def flip (p : Piece) : Piece := ⟨p.target, p.source, p.size⟩

end Piece

def copyPieces (src : Memory) (srcAt dstAt : Nat) : List Piece → Memory → Memory
  | [], dst => dst
  | p :: rest, dst =>
    copyPieces src srcAt dstAt rest
      (write dst ⟨dstAt + p.target, p.size⟩ fun k => src (srcAt + p.source + k))

def copyItems (src : Memory) (srcInc dstInc : Nat) (pieces : List Piece) : Nat → Nat → Nat → Memory → Memory
  | 0, _, _, dst => dst
  | items + 1, srcAt, dstAt, dst =>
    copyItems src srcInc dstInc pieces items (srcAt + srcInc) (dstAt + dstInc)
      (copyPieces src srcAt dstAt pieces dst)

/-- The byte of the item that is read which ends up at a byte of the item that is written. -/
def originOf : List Piece → Nat → Option Nat
  | [], _ => none
  | p :: rest, b => (originOf rest b).or (if p.Writes b then some (p.source + (b - p.target)) else none)

variable {src dst : Memory} {pieces : List Piece} {srcAt dstAt srcInc dstInc items b location s : Nat}

theorem originOf_eq_none_iff : originOf pieces b = none ↔ ∀ p ∈ pieces, ¬ p.Writes b := by
  induction pieces with
  | nil => simp [originOf]
  | cons p rest ih =>
    rw [originOf, or_eq_none_iff, ih, forall_mem_cons, and_comm]
    simp

/-- The last piece that writes the byte. -/
theorem originOf_eq_some_iff : originOf pieces b = some s ↔ ∃ before p after, pieces = before ++ p :: after ∧ p.Writes b ∧
      s = p.source + (b - p.target) ∧ ∀ q ∈ after, ¬ q.Writes b := by
  induction pieces with
  | nil => simp [originOf]
  | cons first rest ih =>
    rw [originOf, or_eq_some_iff, ih, originOf_eq_none_iff]
    constructor
    · rintro (⟨before, p, after, rfl, writes, place, last⟩ | ⟨last, found⟩)
      · exact ⟨first :: before, p, after, rfl, writes, place, last⟩
      · split at found
        case isTrue writes => exact ⟨[], first, rest, rfl, writes, (Option.some.inj found).symm, last⟩
        case isFalse => cases found
    · rintro ⟨before, p, after, split, writes, place, last⟩
      cases before with
      | nil =>
        cases split
        exact .inr ⟨last, by simp [writes, place]⟩
      | cons head before =>
        cases split
        exact .inl ⟨before, p, after, rfl, writes, place, last⟩

theorem originOf_none_of_le (inside : ∀ p ∈ pieces, p.target + p.size ≤ dstInc) (out : dstInc ≤ b) :
    originOf pieces b = none :=
  originOf_eq_none_iff.mpr fun p mem writes => lt_irrefl _ (writes.2.trans_le ((inside p mem).trans out))

/-- A byte comes back from where it was copied exactly if it is in a piece, behind which no piece reads it or
writes its copy. -/
theorem originOf_flip_iff : (originOf (pieces.map Piece.flip) b).bind (originOf pieces) = some b ↔
      ∃ before p after, pieces = before ++ p :: after ∧ p.Reads b ∧
        ∀ q ∈ after, ¬ q.Reads b ∧ ¬ q.Writes (p.target + (b - p.source)) := by
  rw [bind_eq_some_iff]
  constructor
  · rintro ⟨c, back, forth⟩
    obtain ⟨flipBefore, flipped, flipAfter, split, reads, place, lastRead⟩ := originOf_eq_some_iff.mp back
    obtain ⟨before, others, rfl, rfl, behind⟩ := map_eq_append_iff.mp split
    obtain ⟨p, after, rfl, rfl, rfl⟩ := map_eq_cons_iff.mp behind
    have lastReads : ∀ q ∈ after, ¬ q.Reads b := fun q mem => lastRead q.flip (List.mem_map_of_mem mem)
    refine ⟨before, p, after, rfl, reads, fun q mem => ⟨lastReads q mem, ?_⟩⟩
    obtain ⟨before', p', after', split', writes, place', lastWrite⟩ := originOf_eq_some_iff.mp forth
    change c = p.target + (b - p.source) at place
    change p.source ≤ b ∧ b < p.source + p.size at reads
    have reads' : p'.Reads b := by
      obtain ⟨low, high⟩ := writes
      constructor
      · omega
      · omega
    -- both are the last piece with the byte
    rcases append_eq_append_iff.mp split' with ⟨more, rfl, rest⟩ | ⟨more, rfl, rest⟩
    · cases more with
      | nil =>
        cases rest
        rw [← place]
        exact lastWrite q mem
      | cons head more =>
        cases rest
        exact absurd reads' (lastReads p' (mem_append_right _ mem_cons_self))
    · cases more with
      | nil =>
        cases rest
        rw [← place]
        exact lastWrite q mem
      | cons head more =>
        cases rest
        have written : p.Writes c := by
          constructor
          · omega
          · omega
        exact absurd written (lastWrite p (mem_append_right _ mem_cons_self))
  · rintro ⟨before, p, after, rfl, reads, last⟩
    have low := reads.1
    have high := reads.2
    refine ⟨p.target + (b - p.source), originOf_eq_some_iff.mpr ?_, originOf_eq_some_iff.mpr ?_⟩
    · refine ⟨before.map Piece.flip, p.flip, after.map Piece.flip, by simp, reads, rfl, ?_⟩
      intro q mem
      obtain ⟨q, behind, rfl⟩ := List.mem_map.mp mem
      exact (last q behind).1
    · refine ⟨before, p, after, rfl, ⟨?_, ?_⟩, ?_, fun q mem => (last q mem).2⟩
      · omega
      · omega
      · omega

theorem copyPieces_at : copyPieces src srcAt dstAt pieces dst (dstAt + b) =
      ((originOf pieces b).map fun s => src (srcAt + s)).getD (dst (dstAt + b)) := by
  induction pieces generalizing dst with
  | nil => rfl
  | cons p rest ih =>
    rw [copyPieces, ih, originOf]
    cases originOf rest b with
    | some s => rfl
    | none =>
      rw [map_none, getD_none, none_or]
      split
      case isTrue writes =>
        obtain ⟨k, rfl⟩ := Nat.exists_eq_add_of_le writes.1
        rw [← add_assoc, write_at _ _ (lt_of_add_lt_add_left writes.2), map_some, getD_some, Nat.add_sub_cancel_left, add_assoc]
      case isFalse not =>
        rw [write_outside, map_none, getD_none]
        unfold Piece.Writes at not
        omega

theorem copyPieces_below (lt : location < dstAt) : copyPieces src srcAt dstAt pieces dst location = dst location := by
  induction pieces generalizing dst with
  | nil => rfl
  | cons p rest ih =>
    rw [copyPieces, ih, write_outside]
    exact .inl (lt.trans_le (Nat.le_add_right _ _))

theorem copyItems_below (lt : location < dstAt) :
    copyItems src srcInc dstInc pieces items srcAt dstAt dst location = dst location := by
  induction items generalizing srcAt dstAt dst with
  | zero => rfl
  | succ items ih =>
    rw [copyItems, ih (lt.trans_le (Nat.le_add_right _ _)), copyPieces_below lt]

section

variable (inside : ∀ p ∈ pieces, p.target + p.size ≤ dstInc)

include inside

theorem copyPieces_behind (behind : dstAt + dstInc ≤ location) :
    copyPieces src srcAt dstAt pieces dst location = dst location := by
  obtain ⟨b, rfl⟩ := Nat.exists_eq_add_of_le ((Nat.le_add_right _ _).trans behind)
  rw [copyPieces_at, originOf_none_of_le inside (le_of_add_le_add_left behind)]
  rfl

theorem copyItems_behind (behind : dstAt + items * dstInc ≤ location) :
    copyItems src srcInc dstInc pieces items srcAt dstAt dst location = dst location := by
  induction items generalizing srcAt dstAt dst with
  | zero => rfl
  | succ items ih =>
    rw [Nat.succ_mul] at behind
    rw [copyItems, ih (by omega), copyPieces_behind inside (by omega)]

/-- Items whose pieces are inside them do not touch each other. -/
theorem copyItems_at {i : Nat} (inItems : i < items) (inItem : b < dstInc) :
    copyItems src srcInc dstInc pieces items srcAt dstAt dst (dstAt + i * dstInc + b) =
      ((originOf pieces b).map fun s => src (srcAt + i * srcInc + s)).getD (dst (dstAt + i * dstInc + b)) := by
  induction items generalizing srcAt dstAt dst i with
  | zero => exact absurd inItems (Nat.not_lt_zero i)
  | succ items ih =>
    cases i with
    | zero =>
      rw [copyItems, Nat.zero_mul, Nat.zero_mul, add_zero, add_zero,
        copyItems_below (Nat.add_lt_add_left inItem _), copyPieces_at]
    | succ i =>
      have later := @ih (copyPieces src srcAt dstAt pieces dst) (srcAt + srcInc) (dstAt + dstInc) i
        (Nat.lt_of_succ_lt_succ inItems)
      have place : dstAt + (i + 1) * dstInc + b = dstAt + dstInc + i * dstInc + b := by
        rw [Nat.succ_mul]
        omega
      have read : srcAt + (i + 1) * srcInc = srcAt + srcInc + i * srcInc := by
        rw [Nat.succ_mul]
        omega
      rw [copyItems, place, read, later, copyPieces_behind inside]
      rw [add_assoc (dstAt + dstInc)]
      exact Nat.le_add_right _ _

end

end PieceCopies
