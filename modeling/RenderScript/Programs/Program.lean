import RenderScript.Foundation.Interleaving

/-!
# Programs and their constants

`Program` of rsProgram.cpp with the allocations bound to its constants, and the lists in
which allocations keep the programs to be told of changes. Programs, allocations and types
are addresses, and `none` is NULL. `new` leaves arrays of pointers as they are, and a word
behind an array can be anything.
-/

namespace RenderScript.Programs
open List Option Function

abbrev Pointer := Option Nat

/-- `RsProgramParam` without the end markers. -/
inductive RsProgramParam where
  | input
  | constant
  | textureType
  deriving DecidableEq

/-- `constants` is `mHal.state.constants`. -/
structure Program where
  mConstantTypes : List Pointer
  mConstants : List Pointer
  constants : List Pointer

def Program.constantsCount (p : Program) : Nat := p.mConstants.length

/-- A program with the lists of all allocations. `wroteOutside` says whether a slot that is not
declared was written. -/
structure Bound where
  program : Program
  mToDirtyList : Nat → List Nat
  wroteOutside : Bool

section

/-! The types of allocations, and the address of the program. -/
variable (getType : Nat → Nat) (this : Nat)

def addProgramToDirty (mToDirtyList : Nat → List Nat) : Pointer → Nat → List Nat
  | none => mToDirtyList
  | some alloc => Function.update mToDirtyList alloc (mToDirtyList alloc ++ [this])

def removeProgramToDirty (mToDirtyList : Nat → List Nat) : Pointer → Nat → List Nat
  | none => mToDirtyList
  | some alloc => Function.update mToDirtyList alloc ((mToDirtyList alloc).erase this)

def refuses (p : Program) (slot : Nat) : Pointer → Bool
  | none => false
  | some alloc => decide (slot ≥ p.constantsCount) || p.mConstantTypes[slot]? != some (some (getType alloc))

/-- `outside` is the word found behind the array. -/
def bindAllocation (outside : Pointer) (s : Bound) (alloc : Pointer) (slot : Nat) : Bound :=
  if refuses getType s.program slot alloc then s
  else
    let old := s.program.mConstants[slot]?.getD outside
    if old = alloc then s
    else
      { program := { s.program with
            mConstants := s.program.mConstants.set slot alloc
            constants := s.program.constants.set slot alloc }
        mToDirtyList := addProgramToDirty this (removeProgramToDirty this s.mToDirtyList old) alloc
        wroteOutside := s.wroteOutside || decide (slot ≥ s.program.constantsCount) }

def freeChildren (s : Bound) : Bound :=
  (List.range s.program.constantsCount).foldl (fun s ct => bindAllocation getType this none s none ct) s

/-- `fresh` is what the array of pointers holds when it is new. -/
def newProgram (params : List (RsProgramParam × Nat)) (fresh : Nat → Pointer) (mToDirtyList : Nat → List Nat)
    (wroteOutside : Bool) : Bound :=
  let constantsCount := (params.filter (·.1 == .constant)).length
  let s := freeChildren getType this
    { program := {
          mConstantTypes := List.replicate constantsCount none, mConstants := List.replicate constantsCount none
          constants := (List.range constantsCount).map fresh }
      mToDirtyList := mToDirtyList
      wroteOutside := wroteOutside }
  { s with
    program :=
      { s.program with mConstantTypes := (params.filter (·.1 == .constant)).map fun param => some param.2 } }

end

structure State where
  program : Nat → Option Program := fun _ => none
  mToDirtyList : Nat → List Nat := fun _ => []
  wroteOutside : Bool := false

inductive Act where
  | create (this : Nat) (params : List (RsProgramParam × Nat)) (fresh : Nat → Pointer)
  | bindAllocation (this : Nat) (alloc : Pointer) (slot : Nat) (outside : Pointer)
  | destroy (this : Nat)

namespace State

def bound (s : State) (p : Program) : Bound := ⟨p, s.mToDirtyList, s.wroteOutside⟩

def put (s : State) (this : Nat) (b : Bound) : State :=
  ⟨Function.update s.program this (some b.program), b.mToDirtyList, b.wroteOutside⟩

def step (getType : Nat → Nat) (s : State) : Act → Option State
  | .create this params fresh =>
    match s.program this with
    | some _ => none
    | none => some (s.put this (newProgram getType this params fresh s.mToDirtyList s.wroteOutside))
  | .bindAllocation this alloc slot outside =>
    (s.program this).map fun p => s.put this (bindAllocation getType this outside (s.bound p) alloc slot)
  | .destroy this =>
    (s.program this).map fun p =>
      let b := freeChildren getType this (s.bound p)
      ⟨Function.update s.program this none, b.mToDirtyList, b.wroteOutside⟩

structure Consistent (s : State) : Prop where
  constants : ∀ this p, s.program this = some p → p.constants = p.mConstants
  inside : s.wroteOutside = false
  listed : ∀ alloc this, (s.mToDirtyList alloc).count this =
    (s.program this).elim 0 fun p => p.mConstants.count (some alloc)

/-- The new array holds null pointers, and NULL is bound to declared slots. -/
def Clean (s : State) : Act → Prop
  | .create _ params fresh => ∀ ct < (params.filter (·.1 == .constant)).length, fresh ct = none
  | .bindAllocation this alloc slot outside =>
    alloc = none → slot < (s.program this).elim 0 Program.constantsCount ∨ outside = none
  | .destroy _ => True

instance (s : State) (act : Act) : Decidable (s.Clean act) :=
  match act with
  | .create _ params fresh =>
    inferInstanceAs (Decidable (∀ ct < (params.filter (·.1 == .constant)).length, fresh ct = none))
  | .bindAllocation this alloc slot outside =>
    inferInstanceAs (Decidable (alloc = none → slot < (s.program this).elim 0 Program.constantsCount ∨ outside = none))
  | .destroy _ => .isTrue trivial

end State

open Interleaving

section

variable {getType : Nat → Nat} {this : Nat} {s : Bound} {alloc outside : Pointer} {slot : Nat}

/-- A program whose copies agree, in the lists as often as it has bindings. -/
structure Bound.Agrees (this : Nat) (s : Bound) : Prop where
  constants : s.program.constants = s.program.mConstants
  types : s.program.mConstantTypes.length = s.program.mConstants.length
  inside : s.wroteOutside = false
  listed : ∀ a, (s.mToDirtyList a).count this = s.program.mConstants.count (some a)

theorem count_removeProgramToDirty (mToDirtyList : Nat → List Nat) (old : Pointer) (a q : Nat) :
    (removeProgramToDirty this mToDirtyList old a).count q =
      (mToDirtyList a).count q - if old = some a ∧ q = this then 1 else 0 := by
  cases old with
  | none => simp [removeProgramToDirty]
  | some b =>
    by_cases here : a = b
    · subst here
      rw [removeProgramToDirty, update_self, count_erase]
      by_cases eq : q = this
      · simp [eq]
      · simp [eq, Ne.symm eq]
    · simp [removeProgramToDirty, update_of_ne here, Ne.symm here]

theorem count_addProgramToDirty (mToDirtyList : Nat → List Nat) (alloc : Pointer) (a q : Nat) :
    (addProgramToDirty this mToDirtyList alloc a).count q =
      (mToDirtyList a).count q + if alloc = some a ∧ q = this then 1 else 0 := by
  cases alloc with
  | none => simp [addProgramToDirty]
  | some b =>
    by_cases here : a = b
    · subst here
      rw [addProgramToDirty, update_self, count_append, count_singleton]
      by_cases eq : q = this
      · simp [eq]
      · simp [eq, Ne.symm eq]
    · simp [addProgramToDirty, update_of_ne here, Ne.symm here]

theorem bindAllocation_cases (inside : alloc = none → slot < s.program.constantsCount ∨ outside = none) :
    bindAllocation getType this outside s alloc slot = s ∨ ∃ declared : slot < s.program.mConstants.length,
        bindAllocation getType this outside s alloc slot = {
            program := { s.program with
                mConstants := s.program.mConstants.set slot alloc
                constants := s.program.constants.set slot alloc }
            mToDirtyList := addProgramToDirty this (removeProgramToDirty this s.mToDirtyList s.program.mConstants[slot]) alloc
            wroteOutside := s.wroteOutside } := by
  rw [bindAllocation]
  split
  case isTrue => exact .inl rfl
  case isFalse accepted =>
    by_cases declared : slot < s.program.mConstants.length
    · have old : s.program.mConstants[slot]?.getD outside = s.program.mConstants[slot] := by
        rw [List.getElem?_eq_getElem declared]
        rfl
      have outsideNot : decide (slot ≥ s.program.constantsCount) = false := decide_eq_false (Nat.not_le_of_lt declared)
      simp only [old, outsideNot, Bool.or_false]
      split
      case isTrue => exact .inl rfl
      case isFalse => exact .inr ⟨declared, rfl⟩
    · -- only NULL comes here, and finds NULL
      cases alloc with
      | none =>
        rcases inside rfl with lt | null
        · exact absurd lt declared
        · have old : s.program.mConstants[slot]?.getD outside = none := by
            rw [List.getElem?_eq_none (Nat.le_of_not_lt declared)]
            exact null
          rw [if_pos old]
          exact .inl rfl
      | some a =>
        have refused : refuses getType s.program slot (some a) = true := by
          rw [refuses, decide_eq_true (Nat.le_of_not_lt declared : slot ≥ s.program.constantsCount)]
          rfl
        exact absurd refused accepted

theorem Bound.Agrees.bindAllocation (agrees : s.Agrees this)
    (inside : alloc = none → slot < s.program.constantsCount ∨ outside = none) :
    (bindAllocation getType this outside s alloc slot).Agrees this := by
  rcases @bindAllocation_cases getType this s alloc outside slot inside with eq | ⟨declared, bound⟩
  · rw [eq]
    exact agrees
  · rw [bound]
    constructor
    case constants => exact congrArg (·.set slot alloc) agrees.constants
    case types => exact agrees.types.trans length_set.symm
    case inside => exact agrees.inside
    case listed =>
      intro a
      have counted := agrees.listed a
      simp only [count_addProgramToDirty, count_removeProgramToDirty, and_true, counted, count_set declared, beq_iff_eq]

theorem bindAllocation_others (inside : alloc = none → slot < s.program.constantsCount ∨ outside = none)
    {q : Nat} (other : q ≠ this) (a : Nat) :
    ((bindAllocation getType this outside s alloc slot).mToDirtyList a).count q = (s.mToDirtyList a).count q := by
  rcases bindAllocation_cases inside with eq | ⟨declared, bound⟩
  · rw [eq]
  · rw [bound, count_addProgramToDirty, count_removeProgramToDirty]
    simp [other]

theorem bindAllocation_length : (bindAllocation getType this outside s alloc slot).program.mConstants.length =
    s.program.mConstants.length := by
  rw [bindAllocation]
  split
  case isTrue => rfl
  case isFalse =>
    dsimp only
    split
    case isTrue => rfl
    case isFalse => exact length_set

theorem bindAllocation_null (declared : slot < s.program.mConstants.length) :
    (bindAllocation getType this none s none slot).program.mConstants = s.program.mConstants.set slot none := by
  have old : s.program.mConstants[slot]?.getD none = s.program.mConstants[slot] := by
    rw [List.getElem?_eq_getElem declared]
    rfl
  rw [bindAllocation, refuses, if_neg Bool.false_ne_true]
  simp only [old]
  split
  case isTrue eq =>
    simp [← eq]
  case isFalse => rfl

/-- The loop of `freeChildren`, with what each binding keeps. -/
theorem freeChildren_induct {motive : Bound → Prop} (start : motive s)
    (step : ∀ (b : Bound) (ct : Nat), ct < b.program.mConstants.length → motive b →
      motive (bindAllocation getType this none b none ct)) :
    motive (freeChildren getType this s) := by
  have all : ∀ (slots : List Nat) (b : Bound), (∀ ct ∈ slots, ct < b.program.mConstants.length) → motive b →
      motive (slots.foldl (fun b ct => bindAllocation getType this none b none ct) b) := by
    intro slots
    induction slots with
    | nil => exact fun _ _ held => held
    | cons ct rest ih =>
      intro b declared held
      obtain ⟨here, others⟩ := forall_mem_cons.mp declared
      refine ih _ ?_ (step b ct here held)
      rw [bindAllocation_length]
      exact others
  exact all _ s (fun ct mem => mem_range.mp mem) start

theorem freeChildren_mConstants :
    (freeChildren getType this s).program.mConstants = List.replicate s.program.mConstants.length none := by
  have first : ∀ count ≤ s.program.mConstants.length,
      ((List.range count).foldl (fun b ct => bindAllocation getType this none b none ct) s).program.mConstants.length =
          s.program.mConstants.length ∧
        ∀ ct < count, ((List.range count).foldl (fun b ct => bindAllocation getType this none b none ct)
          s).program.mConstants[ct]? = some none := by
    intro count
    induction count with
    | zero => exact fun _ => ⟨rfl, nofun⟩
    | succ count ih =>
      intro within
      obtain ⟨length, released⟩ := ih (Nat.le_of_succ_le within)
      rw [range_succ, foldl_append, foldl_cons, foldl_nil]
      refine ⟨bindAllocation_length.trans length, ?_⟩
      intro ct lt
      rw [bindAllocation_null (by rw [length]; exact within), List.getElem?_set]
      split
      case isTrue eq => rw [if_pos (by rw [length]; exact within)]
      case isFalse ne => exact released ct (by omega)
  obtain ⟨length, released⟩ := first _ le_rfl
  apply ext_getElem?
  intro ct
  by_cases lt : ct < s.program.mConstants.length
  · rw [List.getElem?_replicate_of_lt lt]
    exact released ct lt
  · have behind := Nat.le_of_not_lt lt
    exact (List.getElem?_eq_none (length.le.trans behind)).trans (List.getElem?_eq_none (length_replicate.le.trans behind)).symm

theorem count_released (a count : Nat) : (List.replicate count (none : Pointer)).count (some a) = 0 := by
  rw [count_eq_zero]
  intro mem
  cases eq_of_mem_replicate mem

theorem freeChildren_others {q : Nat} (other : q ≠ this) (a : Nat) :
    ((freeChildren getType this s).mToDirtyList a).count q = (s.mToDirtyList a).count q := by
  refine @freeChildren_induct _ this s (fun b => (b.mToDirtyList a).count q = (s.mToDirtyList a).count q) rfl ?_
  intro b ct declared eq
  rw [bindAllocation_others (fun _ => .inl declared) other]
  exact eq

theorem Bound.Agrees.freeChildren (agrees : s.Agrees this) : (freeChildren getType this s).Agrees this :=
  freeChildren_induct agrees fun _ _ declared held => held.bindAllocation fun _ => .inl declared

theorem freeChildren_null {types constants : List Pointer} {count : Nat} {mToDirtyList : Nat → List Nat} {wroteOutside : Bool} :
    Programs.freeChildren getType this ⟨⟨types, List.replicate count none, constants⟩, mToDirtyList, wroteOutside⟩ =
      ⟨⟨types, List.replicate count none, constants⟩, mToDirtyList, wroteOutside⟩ := by
  refine @freeChildren_induct _ _ _
    (fun b => b = ⟨⟨types, List.replicate count none, constants⟩, mToDirtyList, wroteOutside⟩) rfl ?_
  intro b ct declared eq
  subst eq
  have old : (List.replicate count (none : Pointer))[ct]?.getD none = none := by
    rw [List.getElem?_eq_getElem declared, getElem_replicate]
    rfl
  exact if_pos old

end

namespace State

variable {getType : Nat → Nat} {s next : State} {act : Act}

structure Kept (s : State) : Prop extends Consistent s where
  types : ∀ this p, s.program this = some p → p.mConstantTypes.length = p.mConstants.length

theorem Kept.agrees (kept : s.Kept) {this : Nat} {p : Program} (found : s.program this = some p) : (s.bound p).Agrees this where
  constants := kept.constants this p found
  types := kept.types this p found
  inside := kept.inside
  listed := fun a => (kept.listed a this).trans (by rw [found]; rfl)

theorem put_self (s : State) (this : Nat) (b : Bound) : (s.put this b).program this = some b.program := update_self ..

theorem put_of_ne (s : State) {this q : Nat} (other : q ≠ this) (b : Bound) : (s.put this b).program q = s.program q :=
  update_of_ne other ..

theorem Kept.put (kept : s.Kept) {this : Nat} {b : Bound} (agrees : b.Agrees this)
    (others : ∀ q, q ≠ this → ∀ a, (b.mToDirtyList a).count q = (s.mToDirtyList a).count q) :
    (s.put this b).Kept := by
  have found {q : Nat} {p : Program} (there : (s.put this b).program q = some p) :
      q = this ∧ p = b.program ∨ q ≠ this ∧ s.program q = some p := by
    by_cases eq : q = this
    · rw [eq, put_self] at there
      exact .inl ⟨eq, (Option.some.inj there).symm⟩
    · rw [put_of_ne s eq] at there
      exact .inr ⟨eq, there⟩
  refine { constants := ?constants, inside := agrees.inside, listed := ?listed, types := ?types }
  case constants =>
    intro q p there
    rcases found there with ⟨-, rfl⟩ | ⟨-, before⟩
    · exact agrees.constants
    · exact kept.constants q p before
  case types =>
    intro q p there
    rcases found there with ⟨-, rfl⟩ | ⟨-, before⟩
    · exact agrees.types
    · exact kept.types q p before
  case listed =>
    intro a q
    by_cases eq : q = this
    · rw [eq, put_self]
      exact agrees.listed a
    · rw [put_of_ne s eq]
      exact (others q eq a).trans (kept.listed a q)

theorem newProgram_eq (this : Nat) (params : List (RsProgramParam × Nat)) (fresh : Nat → Pointer)
    (mToDirtyList : Nat → List Nat) (wroteOutside : Bool) :
    newProgram getType this params fresh mToDirtyList wroteOutside =
      ⟨⟨(params.filter (·.1 == .constant)).map fun param => some param.2,
        List.replicate (params.filter (·.1 == .constant)).length none,
        (List.range (params.filter (·.1 == .constant)).length).map fresh⟩, mToDirtyList, wroteOutside⟩ := by
  rw [newProgram, freeChildren_null]

theorem map_fresh_eq_iff {count : Nat} {fresh : Nat → Pointer} :
    (List.range count).map fresh = List.replicate count none ↔ ∀ ct < count, fresh ct = none := by
  rw [eq_replicate_iff]
  simp

theorem Kept.step (kept : s.Kept) (clean : s.Clean act) (moved : s.step getType act = some next) : next.Kept := by
  cases act with
  | create this params fresh =>
    cases free : s.program this with
    | some p =>
      rw [State.step, free] at moved
      cases moved
    | none =>
      rw [State.step, free] at moved
      cases moved
      rw [newProgram_eq]
      refine kept.put ?_ fun q _ a => rfl
      refine { constants := map_fresh_eq_iff.mpr clean, types := ?types, inside := kept.inside, listed := ?listed }
      case types => simp
      case listed =>
        intro a
        rw [kept.listed, free]
        exact (count_released a _).symm
  | bindAllocation this alloc slot out =>
    rw [State.step, map_eq_some_iff] at moved
    obtain ⟨p, found, rfl⟩ := moved
    have inside (null : alloc = none) : slot < (s.bound p).program.constantsCount ∨ out = none := by
      have cond := clean null
      rw [found] at cond
      exact cond
    exact kept.put ((kept.agrees found).bindAllocation inside) fun q other a =>
      bindAllocation_others inside other a
  | destroy this =>
    rw [State.step, map_eq_some_iff] at moved
    obtain ⟨p, found, rfl⟩ := moved
    have agrees := @Bound.Agrees.freeChildren getType this (s.bound p) (kept.agrees found)
    have found {q : Nat} {other : Program} (there : Function.update s.program this none q = some other) :
        s.program q = some other := by
      by_cases eq : q = this
      · rw [eq, update_self] at there
        cases there
      · rwa [update_of_ne eq] at there
    refine
      { constants := fun q other there => kept.constants q other (found there)
        inside := agrees.inside
        listed := ?listed
        types := fun q other there => kept.types q other (found there) }
    case listed =>
      intro a q
      by_cases eq : q = this
      · have none := agrees.listed a
        rw [freeChildren_mConstants] at none
        dsimp only
        rw [eq, update_self, none]
        exact count_released a _
      · dsimp only
        rw [update_of_ne eq, freeChildren_others eq]
        exact kept.listed a q

theorem clean_of_consistent (moved : s.step getType act = some next) (consistent : next.Consistent) : s.Clean act := by
  cases act with
  | create this params fresh =>
    cases free : s.program this with
    | some p =>
      rw [State.step, free] at moved
      cases moved
    | none =>
      rw [State.step, free] at moved
      cases moved
      have eq := consistent.constants this _ (put_self _ _ _)
      rw [newProgram_eq] at eq
      exact map_fresh_eq_iff.mp eq
  | bindAllocation this alloc slot out =>
    rw [State.step, map_eq_some_iff] at moved
    obtain ⟨p, found, rfl⟩ := moved
    intro null
    rw [found]
    by_contra missed
    rw [not_or, not_lt] at missed
    have behind : (s.bound p).program.mConstants[slot]? = none := List.getElem?_eq_none missed.1
    have old : (s.bound p).program.mConstants[slot]?.getD out = out := by
      rw [behind]
      rfl
    have written : (bindAllocation getType this out (s.bound p) alloc slot).wroteOutside = true := by
      rw [null, bindAllocation, refuses, if_neg Bool.false_ne_true]
      simp only [old]
      rw [if_neg missed.2]
      exact Bool.or_eq_true_iff.mpr (.inr (decide_eq_true missed.1))
    have inside : (bindAllocation getType this out (s.bound p) alloc slot).wroteOutside = false := consistent.inside
    rw [written] at inside
    cases inside
  | destroy this => trivial

end State

theorem State.Kept.start : ({} : State).Kept where
  constants := nofun
  inside := rfl
  listed := fun _ _ => rfl
  types := nofun

/-- The bookkeeping is right in every state of a run exactly if each step of the run is clean. -/
theorem bindings_consistent_iff {getType : Nat → Nat} {acts : List Act} {s : State}
    (run : Run (State.step getType) Anyhow {} acts s) :
    Throughout (State.step getType) Anyhow {} State.Consistent acts ↔ Run (State.step getType) State.Clean {} acts s :=
  run.throughout_iff_of_invariant State.Kept .start State.Kept.toConsistent State.Kept.step fun _ => State.clean_of_consistent

/-- One constant slot bound to two allocations in turn and then released. -/
theorem bindings_consistent_rebound : Throughout (State.step fun _ => 7) Anyhow {} State.Consistent
      [.create 1 [(.constant, 7)] (fun _ => none), .bindAllocation 1 (some 20) 0 none,
        .bindAllocation 1 (some 21) 0 none, .bindAllocation 1 (some 21) 5 none, .destroy 1] :=
  throughout_of_perform bindings_consistent_iff (by decide +kernel)

/-- The array of a new program is not initialised. NULL for a slot that is not declared is
written behind the array. -/
theorem bindings_inconsistent : (∃ s p, Run (State.step fun _ => 7) Anyhow {} [.create 1 [(.constant, 7)] (fun _ => some 99)] s ∧
      s.program 1 = some p ∧ p.constants = [some 99] ∧ p.mConstants = [none]) ∧
    ∃ s, Run (State.step fun _ => 7) Anyhow {}
        [.create 1 [(.constant, 7)] (fun _ => none), .bindAllocation 1 none 1 (some 20)] s ∧
      s.wroteOutside = true := by
  constructor
  · have shown : ((perform (State.step fun _ => 7) Anyhow {}
        [.create 1 [(.constant, 7)] (fun _ => some 99)]).bind (·.program 1)).map
          (fun p => (p.constants, p.mConstants)) = some ([some 99], [none]) := by
      decide +kernel
    obtain ⟨p, found, seen⟩ := map_eq_some_iff.mp shown
    obtain ⟨s, performed, there⟩ := bind_eq_some_iff.mp found
    simp only [Prod.mk.injEq] at seen
    exact ⟨s, p, run_of_perform performed, there, seen⟩
  · exact exists_run_of_perform (by decide +kernel)

end RenderScript.Programs
