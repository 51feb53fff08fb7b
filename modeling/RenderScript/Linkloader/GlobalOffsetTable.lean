import Mathlib

/-!
# The global offset table

`search_got` of the linkloader, with which the MIPS relocations find the entry of a symbol. The table is shared by all
objects, and a failed assertion aborts.
-/

namespace RenderScript.Linkloader

structure GotEntry where
  symbol_index : Int32
  address : BitVec 32

def NUM_OF_GOT_ENTRY : Nat := 16384

def GP_OFFSET : Int := 0x8000

/-- What the entry of an address holds: of a local symbol the high 16 bits after adding 0x8000. -/
def gotAddress (addr : BitVec 32) (isLocal : Bool) : BitVec 32 := if isLocal then (addr + 0x8000) &&& 0xFFFF0000 else addr

/-- The loop ends at an entry with the index, which for a local symbol also has the address. -/
def search_got (symbol_index : Int32) (addr : BitVec 32) (isLocal : Bool) (got : List GotEntry) : Option (Nat × List GotEntry) :=
  let addr := gotAddress addr isLocal
  match got.findIdx? fun entry => entry.symbol_index = symbol_index ∧ (isLocal → entry.address = addr) with
  | some i =>
    -- the assertion for global symbols, which a local one fulfils
    if (got[i]?).map GotEntry.address = some addr then some (i, got) else none
  | none => if got.length < NUM_OF_GOT_ENTRY then some (got.length, got ++ [⟨symbol_index, addr⟩]) else none

/-- The calls of all objects, in the order in which they come, with the indexes that they return. -/
inductive GotRun : List GotEntry → List (Nat × BitVec 32) → Prop where
  | start : GotRun [] []
  | call {symbol_index addr isLocal got after i calls} : GotRun got calls →
    search_got symbol_index addr isLocal got = some (i, after) → GotRun after ((i, gotAddress addr isLocal) :: calls)

end RenderScript.Linkloader
