import Mathlib

/-!
# Reading an object file

The cursor of `ArchiveReader`. Addresses have `w` bits, and the offsets and sizes come from the file.
-/

namespace RenderScript.Linkloader

variable {w : Nat}

structure ArchiveReader (w : Nat) where
  buf_begin : BitVec w
  buf_end : BitVec w
  cursor : BitVec w
  cursor_base : BitVec w := 0
  good : Bool := true

inductive ReaderCall (w : Nat) where
  | prologue
  | epilogue (size : BitVec w)
  | seek (off : Int) (from_begin : Bool)
  | readBytes (size : BitVec w)

namespace ArchiveReader

/-- The bytes that the call reads, as address and size. -/
def read (ar : ArchiveReader w) : ReaderCall w → Option (BitVec w × BitVec w)
  | .readBytes size => if ar.good && !decide (ar.cursor + size > ar.buf_end) then some (ar.cursor, size) else none
  | _ => none

def run (ar : ArchiveReader w) : ReaderCall w → ArchiveReader w
  | .prologue => { ar with cursor_base := ar.cursor }
  | .epilogue size => { ar with cursor := ar.cursor_base + size, cursor_base := 0 }
  | .seek off from_begin => { ar with cursor := (if from_begin then ar.buf_begin else ar.cursor) + .ofInt w off }
  | .readBytes size => { ar with good := ar.good && !decide (ar.cursor + size > ar.buf_end) }

def asserts (ar : ArchiveReader w) : ReaderCall w → Bool
  | .prologue => ar.cursor_base = 0
  | .epilogue size => ar.cursor_base ≠ 0 ∧ ar.cursor_base + size ≥ ar.cursor
  | _ => true

/-- A failed assertion aborts. -/
def reads : ArchiveReader w → List (ReaderCall w) → List (BitVec w × BitVec w)
  | _, [] => []
  | ar, call :: rest => if ar.asserts call then (ar.read call).toList ++ (ar.run call).reads rest else []

def Inside (ar : ArchiveReader w) (bytes : BitVec w × BitVec w) : Prop :=
  ∀ k < bytes.2.toNat, ar.buf_begin ≤ bytes.1 + .ofNat w k ∧ bytes.1 + .ofNat w k < ar.buf_end

/-- The check looks at the end of the bytes only. -/
theorem inside_iff (ar : ArchiveReader w) {bytes : BitVec w × BitVec w} (checked : bytes.1 + bytes.2 ≤ ar.buf_end) :
    ar.Inside bytes ↔ bytes.2 = 0 ∨ ar.buf_begin ≤ bytes.1 ∧ bytes.1.toNat + bytes.2.toNat < 2 ^ w := by
  obtain ⟨start, size⟩ := bytes
  have high := ar.buf_end.isLt
  have first := start.isLt
  have place {k : Nat} (lt : start.toNat + k < 2 ^ w) : (start + BitVec.ofNat w k).toNat = start.toNat + k := by
    rw [BitVec.toNat_add, BitVec.toNat_ofNat, Nat.add_mod_mod, Nat.mod_eq_of_lt lt]
  rw [BitVec.le_def, BitVec.toNat_add] at checked
  constructor
  · intro inside
    refine or_iff_not_imp_left.mpr fun some => ?_
    have pos : 0 < size.toNat := Nat.pos_of_ne_zero fun zero => some (BitVec.toNat_inj.mp zero)
    refine ⟨by simpa using (inside 0 pos).1, ?_⟩
    -- a size that wraps reaches the last address, which is not below any end
    by_contra wraps
    have last := (inside (2 ^ w - 1 - start.toNat) (by dsimp only at wraps ⊢; omega)).2
    rw [BitVec.lt_def, place (by omega)] at last
    omega
  · rintro (rfl | ⟨low, small⟩) k lt
    · cases lt
    · dsimp only at checked lt small low ⊢
      rw [Nat.mod_eq_of_lt small] at checked
      rw [BitVec.le_def] at low
      rw [BitVec.le_def, BitVec.lt_def, place (by omega)]
      omega

variable {ar : ArchiveReader w} {calls : List (ReaderCall w)}

theorem reads_of_bad (bad : ar.good = false) : ar.reads calls = [] := by
  induction calls generalizing ar with
  | nil => rfl
  | cons call rest ih =>
    have kept : (ar.run call).good = false := by cases call <;> simp [run, bad]
    cases call <;> simp [reads, read, bad, ih kept]

theorem reads_checked : ∀ bytes ∈ ar.reads calls, bytes.1 + bytes.2 ≤ ar.buf_end := by
  induction calls generalizing ar with
  | nil => exact nofun
  | cons call rest ih =>
    intro bytes mem
    rcases List.mem_append.mp (List.mem_ite_nil_right.mp mem).2 with here | later
    · cases call with
      | readBytes size =>
        obtain ⟨checked, ⟨⟩⟩ := Option.ite_none_right_eq_some.mp (Option.mem_toList.mp here)
        simpa using (Bool.and_eq_true_iff.mp checked).2
      | _ => cases here
    · have next := ih bytes later
      cases call <;> exact next

/-- A read stays in the buffer exactly if the cursor is not before its start and the end does not wrap. -/
theorem reads_inside_iff (ar : ArchiveReader w) (calls : List (ReaderCall w)) :
    ((∀ bytes ∈ ar.reads calls, ar.Inside bytes) ↔ ∀ bytes ∈ ar.reads calls, bytes.2 = 0 ∨
      ar.buf_begin ≤ bytes.1 ∧ bytes.1.toNat + bytes.2.toNat < 2 ^ w) ∧
    ∀ size, ar.read (.readBytes size) = none → (ar.run (.readBytes size)).reads calls = [] := by
  refine ⟨forall₂_congr fun bytes mem => ar.inside_iff (reads_checked bytes mem), fun size failed => reads_of_bad ?_⟩
  simpa [read, run] using failed

/-- An offset of -4 in the file. -/
theorem reads_before_begin : let ar : ArchiveReader 32 := ⟨0x1000, 0x2000, 0x1000, 0, true⟩
    ar.reads [.seek (-4) true, .readBytes 4] = [(0xFFC, 4)] ∧ ¬ ar.Inside (0xFFC, 4) := by
  refine ⟨rfl, fun inside => ?_⟩
  exact absurd (inside 0 (by decide)).1 (by decide)

theorem reads_inside_iff_past : let ar : ArchiveReader 32 := ⟨0x1000, 0x2000, 0x1000, 0, true⟩
    (ar.run (.readBytes 0x1001)).reads [.readBytes 1] = [] :=
  (reads_inside_iff _ _).2 _ rfl

end ArchiveReader
end RenderScript.Linkloader
