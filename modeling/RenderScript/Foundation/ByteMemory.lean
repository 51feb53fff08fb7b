import RenderScript.Foundation.TicketPool

/-!
# Byte memory and transfers between regions

A transfer reads one region and writes another. Transfers whose regions keep
apart commute, and a list of them has the effect of all of them at once.
-/

namespace ByteMemory
open TicketPool List

abbrev Memory := Nat → UInt8

structure Region where
  start : Nat
  length : Nat
  deriving DecidableEq

variable {region other : Region}

def Region.Holds (region : Region) (location : Nat) : Prop :=
  region.start ≤ location ∧ location < region.start + region.length

instance (region : Region) (location : Nat) : Decidable (region.Holds location) :=
  inferInstanceAs (Decidable (_ ∧ _))

def Region.Apart (region other : Region) : Prop :=
  ∀ location, region.Holds location → ¬ other.Holds location

theorem Region.Apart.symm (apart : region.Apart other) : other.Apart region :=
  fun loc inOther inRegion => apart loc inRegion inOther

theorem Region.apart_of_le (ordered : region.start + region.length ≤ other.start ∨ other.start + other.length ≤ region.start) :
    region.Apart other := by
  rintro loc ⟨above, lt⟩ ⟨otherAbove, otherBelow⟩
  omega

def read (memory : Memory) (region : Region) : List UInt8 :=
  (List.range region.length).map fun offset => memory (region.start + offset)

def write (memory : Memory) (region : Region) (bytes : Nat → UInt8) : Memory := fun location =>
  if region.Holds location then bytes (location - region.start) else memory location

theorem read_congr {memory other : Memory} (same : ∀ location, region.Holds location → memory location = other location) :
    read memory region = read other region := by
  apply map_congr_left
  intro offset mem
  have inside := mem_range.mp mem
  exact same _ ⟨by omega, by omega⟩

theorem read_write_same (memory : Memory) (region : Region) (bytes : Nat → UInt8) :
    read (write memory region bytes) region = (List.range region.length).map bytes := by
  apply map_congr_left
  intro offset mem
  have inside : region.Holds (region.start + offset) := by
    have bounded := mem_range.mp mem
    exact ⟨by omega, by omega⟩
  simp [write, inside]

theorem read_write_apart (apart : region.Apart other) (memory : Memory)
    (bytes : Nat → UInt8) : read (write memory region bytes) other = read memory other := by
  apply read_congr
  intro loc inside
  rw [write, if_neg fun held => apart loc held inside]

theorem write_comm (apart : region.Apart other) (memory : Memory) (bytes otherBytes : Nat → UInt8) :
    write (write memory region bytes) other otherBytes = write (write memory other otherBytes) region bytes := by
  funext location
  by_cases first : region.Holds location
  · have second := apart location first
    simp [write, first, second]
  · simp [write, first]

structure Transfer where
  src : Region
  dst : Region
  fn : List UInt8 → Nat → UInt8

def Transfer.run (transfer : Transfer) (memory : Memory) : Memory :=
  write memory transfer.dst (transfer.fn (read memory transfer.src))

/-- The bytes a transfer leaves in its destination. -/
def Transfer.result (transfer : Transfer) (memory : Memory) : List UInt8 :=
  (List.range transfer.dst.length).map (transfer.fn (read memory transfer.src))

/-- One transfer neither feeds nor overwrites the other. -/
def Transfer.Spares (transfer other : Transfer) : Prop :=
  transfer.dst.Apart other.src ∧ transfer.dst.Apart other.dst

theorem commutes_of_spares {transfer other : Transfer} (spares : transfer.Spares other)
    (spared : other.Spares transfer) : Commutes Transfer.run transfer other := by
  intro memory
  simp only [Transfer.run]
  rw [read_write_apart spared.1, read_write_apart spares.1, write_comm spared.2]

theorem read_performs_apart {trace : List Transfer} (apart : ∀ transfer ∈ trace, transfer.dst.Apart region) (memory : Memory) :
    read (performs Transfer.run trace memory) region = read memory region := by
  induction trace generalizing memory with
  | nil => rfl
  | cons head tail ih =>
    obtain ⟨apartHead, apartTail⟩ := forall_mem_cons.mp apart
    rw [performs_cons, ih apartTail]
    exact read_write_apart apartHead _ _

section

universe u

variable {ι : Type u} {items : List ι} {transfer : ι → Transfer}

/-- Separated transfers compute from the memory before all of them. -/
theorem read_performs_separated (unique : items.Nodup) (spares : ∀ item ∈ items, ∀ other ∈ items, item ≠ other →
      (transfer item).Spares (transfer other)) (memory : Memory) {item : ι} (mem : item ∈ items) :
    read (performs Transfer.run (items.map transfer) memory) (transfer item).dst = (transfer item).result memory := by
  induction items generalizing memory with
  | nil => cases mem
  | cons head tail ih =>
    obtain ⟨fresh, uniqueTail⟩ := nodup_cons.mp unique
    have ne : ∀ item ∈ tail, head ≠ item := by
      intro item inTail eq
      exact fresh (eq ▸ inTail)
    rw [map_cons, performs_cons]
    rcases mem_cons.mp mem with eq | inTail
    · subst eq
      rw [read_performs_apart]
      · exact read_write_same _ _ _
      · intro other mem'
        obtain ⟨later, inside, rfl⟩ := mem_map.mp mem'
        exact (spares later (mem_cons_of_mem item inside) item mem_cons_self (ne later inside).symm).2
    · have untouched := (spares head mem_cons_self item mem (ne item inTail)).1
      rw [ih uniqueTail (fun item mem other mem' => spares item
        (mem_cons_of_mem head mem) other (mem_cons_of_mem head mem')) _ inTail,
        Transfer.result, Transfer.run, read_write_apart untouched]
      rfl

/-- The order of separated transfers does not show. -/
theorem performs_perm_separated {trace : List Transfer}
    (spares : ∀ item ∈ items, ∀ other ∈ items, item ≠ other → (transfer item).Spares (transfer other))
    (same : trace ~ items.map transfer) (memory : Memory) :
    performs Transfer.run trace memory = performs Transfer.run (items.map transfer) memory := by
  refine List.Perm.foldl_eq' same ?_ memory
  intro left mem right mem' state
  obtain ⟨item, inside, rfl⟩ := mem_map.mp (same.mem_iff.mp mem)
  obtain ⟨other, otherInside, rfl⟩ := mem_map.mp (same.mem_iff.mp mem')
  by_cases equal : item = other
  · rw [equal]
  · exact (commutes_of_spares (spares item inside other otherInside equal)
      (spares other otherInside item inside (Ne.symm equal)) state).symm

end

end ByteMemory
