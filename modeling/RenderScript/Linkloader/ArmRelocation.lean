import Mathlib

/-!
# Relocation of ARM code

How `relocateARM` of the linkloader rewrites a Thumb call or jump to a stub. `Inst_t` is `int32_t`, so that a shift
to the right copies the sign.
-/

namespace RenderScript.Linkloader

abbrev Inst := BitVec 32

/-- `SIGN_EXTEND(x, 24)`. -/
def signExtend24 (x : Inst) : Inst := (x ^^^ 0x800000) - 0x800000

/-- In memory the first halfword of a Thumb instruction is the lower one. -/
def swapHalves (inst : Inst) : Inst := inst.sshiftRight 16 &&& 0xFFFF ||| inst <<< 16

/-- "Stub is still too far". -/
def tooFar (result : Inst) : Bool := result > 0x007FFFFF && result < 0xFF800000

/-- The addend of the instruction with the halfwords exchanged. -/
def thumbAddend (inst : Inst) : Inst :=
  let s := inst.sshiftRight 26 &&& 1
  let u := inst.sshiftRight 16 &&& 0x3FF
  let l := inst &&& 0x7FF
  let j1 := inst.sshiftRight 13 &&& 1
  let j2 := inst.sshiftRight 11 &&& 1
  let i1 := ~~~(j1 ^^^ s) &&& 1
  let i2 := ~~~(j2 ^^^ s) &&& 1
  signExtend24 (s <<< 23 ||| i1 <<< 22 ||| i2 <<< 21 ||| u <<< 11 ||| l) <<< 1

def thumbWord (inst result : Inst) : Inst :=
  let s := result >>> 23 &&& 1
  let u := result >>> 11 &&& 0x3FF
  let l := result &&& 0x7FE
  let i1 := result >>> 22 &&& 1
  let i2 := result >>> 21 &&& 1
  let j1 := (~~~i1 ^^^ s) &&& 1
  let j2 := (~~~i2 ^^^ s) &&& 1
  inst &&& 0xF800C000 ||| s <<< 26 ||| u <<< 16 ||| l ||| j1 <<< 13 ||| j2 <<< 11

/-- `R_ARM_THM_CALL` and `R_ARM_THM_JUMP24`. -/
def relocateThumb (S P inst : Inst) : Option Inst :=
  let inst := swapHalves inst
  let result := (S + thumbAddend inst - (P &&& ~~~3)).sshiftRight 1
  if tooFar result then none else some (swapHalves (thumbWord inst result))

theorem swapHalves_swapHalves (inst : Inst) : swapHalves (swapHalves inst) = inst := by
  ext i inside
  simp [swapHalves, BitVec.getElem_sshiftRight]
  interval_cases i <;> simp

/-- The encoding of `B.W`, a branch without condition that does not write the link register. -/
def isBranch (word : Inst) : Bool := word >>> 27 == 0b11110 && word[15] && !word[14] && word[12]

/-- The bit that the rewriting to `BLX` clears is the one that makes a jump unconditional. -/
theorem relocateThumb_not_branch {S P inst after : Inst} (relocated : relocateThumb S P inst = some after) :
    isBranch (swapHalves after) = false := by
  rw [relocateThumb] at relocated
  obtain ⟨-, same⟩ := Option.ite_none_left_eq_some.mp relocated
  have cleared (inst result : Inst) : (thumbWord inst result)[12] = false := by simp [thumbWord]
  rw [← Option.some.inj same, swapHalves_swapHalves, isBranch, cleared, Bool.and_false]

theorem relocateThumb_not_branch_zero : isBranch (swapHalves 0xA804F000) = false :=
  relocateThumb_not_branch (show relocateThumb 0x10008 0x10000 0xB800F000 = some 0xA804F000 by decide)

/-- The jump becomes a branch if equal, whose condition is in the bits of the offset. -/
theorem relocateThumb_conditional : isBranch (swapHalves 0xB800F000) ∧
    relocateThumb 0x10008 0x10000 0xB800F000 = some 0xA804F000 ∧ isBranch (swapHalves 0xA804F000) = false := by
  decide

end RenderScript.Linkloader
