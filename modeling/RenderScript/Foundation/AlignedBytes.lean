import Mathlib

/-!
# Bytes laid out with alignment

Little-endian numbers, positions rounded up to a unit, and runs of chunks that are
placed one after another, each at the next multiple of its unit.
-/

namespace AlignedBytes
open List

def encode : Nat → Nat → List UInt8
  | 0, _ => []
  | count + 1, value => UInt8.ofNat value :: encode count (value / 256)

def decode : List UInt8 → Nat
  | [] => 0
  | byte :: rest => byte.toNat + 256 * decode rest

@[simp] theorem length_encode (count value : Nat) : (encode count value).length = count := by
  induction count generalizing value with
  | zero => rfl
  | succ count ih => simp [encode, ih]

theorem decode_encode_mod (count value : Nat) : decode (encode count value) = value % 256 ^ count := by
  induction count generalizing value with
  | zero => simp [encode, decode, Nat.mod_one]
  | succ count ih =>
    have low : (UInt8.ofNat value).toNat = value % 256 := UInt8.toNat_ofNat'
    rw [encode, decode, ih, low, pow_succ', Nat.mod_mul]

theorem decode_encode {count value : Nat} (small : value < 256 ^ count) : decode (encode count value) = value := by
  rw [decode_encode_mod, Nat.mod_eq_of_lt small]

theorem decode_lt (bytes : List UInt8) : decode bytes < 256 ^ bytes.length := by
  induction bytes with
  | nil => exact one_pos
  | cons byte rest ih =>
    have small := byte.toNat_lt
    rw [decode, length_cons, pow_succ]
    omega

def alignUp (unit position : Nat) : Nat := (position + (unit - 1)) / unit * unit

variable {look : Nat → Option UInt8} {start unit : Nat}

theorem le_alignUp (pos : 0 < unit) (position : Nat) : position ≤ alignUp unit position := by
  have divided := Nat.div_add_mod (position + (unit - 1)) unit
  have remainder := Nat.mod_lt (position + (unit - 1)) pos
  rw [alignUp, mul_comm]
  omega

theorem alignUp_lt (pos : 0 < unit) (position : Nat) : alignUp unit position < position + unit := by
  have rounded := Nat.div_mul_le_self (position + (unit - 1)) unit
  rw [alignUp]
  omega

@[simp] theorem alignUp_one (position : Nat) : alignUp 1 position = position := by
  simp [alignUp]

theorem dvd_alignUp (unit position : Nat) : unit ∣ alignUp unit position := dvd_mul_left _ _

/-- Masking off low bits rounds down. -/
theorem and_mask {width bits : Nat} (fits : bits ≤ width) (value : Nat) :
    value &&& (2 ^ width - 2 ^ bits) = value % 2 ^ width / 2 ^ bits * 2 ^ bits := by
  have mask : 2 ^ width - 2 ^ bits = (2 ^ (width - bits) - 1) <<< bits := by
    rw [Nat.shiftLeft_eq, Nat.sub_mul, ← pow_add, Nat.sub_add_cancel fits, one_mul]
  rw [mask, ← Nat.shiftLeft_eq, ← Nat.shiftRight_eq_div_pow]
  apply Nat.eq_of_testBit_eq
  intro bit
  by_cases above : bits ≤ bit
  · have pos : bits + (bit - bits) = bit := by omega
    have eq : bit - bits < width - bits ↔ bit < width := by omega
    simp [above, pos, eq, Bool.and_comm]
  · simp [above]

/-- The bytes stand at the position, one after another. -/
def At (look : Nat → Option UInt8) : Nat → List UInt8 → Prop
  | _, [] => True
  | start, byte :: rest => look start = some byte ∧ At look (start + 1) rest

theorem At.congr {look other : Nat → Option UInt8} {start : Nat} {bytes : List UInt8} (standing : At look start bytes)
    (same : ∀ index, start ≤ index → index < start + bytes.length → look index = other index) :
    At other start bytes := by
  induction bytes generalizing start with
  | nil => trivial
  | cons byte rest ih =>
    obtain ⟨here, later⟩ := standing
    rw [length_cons] at same
    refine ⟨?_, ih later fun index lower upper => same index (by omega) (by omega)⟩
    rw [← same start (le_refl _) (by omega)]
    exact here

/-- The next bytes, if all of them can be read. -/
def readAt (look : Nat → Option UInt8) : Nat → Nat → Option (List UInt8)
  | _, 0 => some []
  | start, count + 1 => do
      let byte ← look start
      let rest ← readAt look (start + 1) count
      return byte :: rest

theorem At.readAt_eq {bytes : List UInt8} (standing : At look start bytes) : readAt look start bytes.length = some bytes := by
  induction bytes generalizing start with
  | nil => rfl
  | cons byte rest ih =>
    obtain ⟨here, later⟩ := standing
    rw [length_cons, readAt, here, ih later]
    rfl

theorem readAt_congr {other : Nat → Option UInt8} {count : Nat}
    (same : ∀ index, start ≤ index → index < start + count → look index = other index) :
    readAt look start count = readAt other start count := by
  induction count generalizing start with
  | zero => rfl
  | succ count ih =>
    have rest := @ih (start + 1) fun index lower upper => same index (by omega) (by omega)
    rw [readAt, readAt, same start (le_refl _) (by omega), rest]

theorem readAt_map {value : Nat → UInt8} {count : Nat}
    (values : ∀ index, start ≤ index → index < start + count → look index = some (value index)) :
    readAt look start count = some ((List.range' start count).map value) := by
  induction count generalizing start with
  | zero => rfl
  | succ count ih =>
    have rest := @ih (start + 1) fun index lower upper => values index (by omega) (by omega)
    rw [readAt, values start (le_refl _) (by omega), rest]
    rfl

theorem readAt_shift (look : Nat → Option UInt8) (shift start count : Nat) :
    readAt (fun index => look (shift + index)) start count = readAt look (shift + start) count := by
  induction count generalizing start with
  | zero => rfl
  | succ count ih => rw [readAt, readAt, ih, add_assoc]

/-- Bytes that start at the next multiple of a unit. -/
structure Chunk where
  unit : Nat
  bytes : List UInt8
  positive : 0 < unit

/-- Where a run of chunks ends. -/
def finish : Nat → List Chunk → Nat
  | position, [] => position
  | position, chunk :: rest => finish (alignUp chunk.unit position + chunk.bytes.length) rest

/-- All chunks stand where they belong. -/
def Placed (look : Nat → Option UInt8) : Nat → List Chunk → Prop
  | _, [] => True
  | position, chunk :: rest => At look (alignUp chunk.unit position) chunk.bytes ∧
      Placed look (alignUp chunk.unit position + chunk.bytes.length) rest

theorem finish_append (position : Nat) (first second : List Chunk) :
    finish position (first ++ second) = finish (finish position first) second := by
  induction first generalizing position with
  | nil => rfl
  | cons chunk rest ih => exact ih _

theorem placed_append {position : Nat} {first second : List Chunk} :
    Placed look position (first ++ second) ↔ Placed look position first ∧ Placed look (finish position first) second := by
  induction first generalizing position with
  | nil => simp [Placed, finish]
  | cons chunk rest ih => simp [Placed, ih, and_assoc, finish]

/-- The bytes of all chunks together. -/
def total (chunks : List Chunk) : Nat := (chunks.map fun chunk => chunk.bytes.length).sum

@[simp] theorem total_cons (chunk : Chunk) (rest : List Chunk) : total (chunk :: rest) = chunk.bytes.length + total rest := rfl

@[simp] theorem total_append (first second : List Chunk) : total (first ++ second) = total first + total second := by
  simp [total]

theorem total_le_finish (position : Nat) (chunks : List Chunk) : position + total chunks ≤ finish position chunks := by
  induction chunks generalizing position with
  | nil => exact le_refl _
  | cons chunk rest ih =>
    have aligned := le_alignUp chunk.positive position
    have following := ih (alignUp chunk.unit position + chunk.bytes.length)
    rw [finish, total_cons]
    omega

theorem le_finish (position : Nat) (chunks : List Chunk) : position ≤ finish position chunks :=
  (Nat.le_add_right _ _).trans (total_le_finish position chunks)

theorem length_le_finish {chunk : Chunk} {chunks : List Chunk} (mem : chunk ∈ chunks)
    (position : Nat) : chunk.bytes.length ≤ finish position chunks := by
  induction chunks generalizing position with
  | nil => cases mem
  | cons head rest ih =>
    rw [finish]
    rcases mem_cons.mp mem with rfl | later
    · have further := le_finish (alignUp chunk.unit position + chunk.bytes.length) rest
      omega
    · exact ih later _

/-- Each chunk is preceded by less than its unit. -/
theorem finish_le (position : Nat) (chunks : List Chunk) :
    finish position chunks ≤ position + (chunks.map fun chunk => chunk.bytes.length + (chunk.unit - 1)).sum := by
  induction chunks generalizing position with
  | nil => exact le_refl _
  | cons chunk rest ih =>
    have aligned := alignUp_lt chunk.positive position
    have following := ih (alignUp chunk.unit position + chunk.bytes.length)
    rw [finish, map_cons, sum_cons]
    omega

theorem Placed.congr {look other : Nat → Option UInt8} {position : Nat} {chunks : List Chunk}
    (placed : Placed look position chunks) (same : ∀ index, position ≤ index → index < finish position chunks →
      look index = other index) : Placed other position chunks := by
  induction chunks generalizing position with
  | nil => trivial
  | cons chunk rest ih =>
    obtain ⟨here, later⟩ := placed
    have aligned := le_alignUp chunk.positive position
    have following := le_finish (alignUp chunk.unit position + chunk.bytes.length) rest
    rw [finish] at same
    constructor
    · exact here.congr fun index lower upper => same index (by omega) (by omega)
    · exact ih later fun index lower upper => same index (by omega) upper

end AlignedBytes
