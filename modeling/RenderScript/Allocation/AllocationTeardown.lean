import RenderScript.Allocation.Uploads

/-!
# References that an allocation releases when it is destroyed

The destructor of `Allocation` walks over the start of the block. `freeAllChildren`, in the teardown of a
context, calls `freeChildren` of all objects in its list and starts again whenever one was destroyed, so
that an allocation can be walked over before its destructor does it.
-/

namespace RenderScript.Teardown
open ByteMemory Interleaving Elements RenderScript.Types Allocations Copies Uploads

/-- `lock1D` gives the start of the block. -/
def freeChildrenUnlocked (a : Alloc) : Alloc := a.decRefs 0 a.type.mCellCount.toNat 0

inductive Act where
  | incUserRef
  | incSysRef
  | decUserRef
  | decSysRef
  | zeroUserRef
  /-- Up to the `decSysRef` whose result it returns. -/
  | freeChildren
  deriving DecidableEq

structure Counts where
  mUserRefCount : Int
  mSysRefCount : Int
  destroyed : Bool := false

namespace Counts

def checkDelete (c : Counts) : Counts :=
  if c.mUserRefCount ≠ 0 ∨ c.mSysRefCount ≠ 0 then c else { c with destroyed := true }

def decUserRef (c : Counts) : Counts :=
  let less := { c with mUserRefCount := c.mUserRefCount - 1 }
  if c.mUserRefCount ≤ 1 ∧ c.mSysRefCount ≤ 0 then less.checkDelete else less

def decSysRef (c : Counts) : Counts :=
  let less := { c with mSysRefCount := c.mSysRefCount - 1 }
  if c.mSysRefCount ≤ 1 ∧ c.mUserRefCount ≤ 0 then less.checkDelete else less

def zeroUserRef (c : Counts) : Counts :=
  let zero := { c with mUserRefCount := 0 }
  if c.mSysRefCount ≤ 0 then zero.checkDelete else zero

def after (hasReferences : Bool) (c : Counts) : Act → Counts
  | .incUserRef => { c with mUserRefCount := c.mUserRefCount + 1 }
  | .incSysRef => { c with mSysRefCount := c.mSysRefCount + 1 }
  | .decUserRef => c.decUserRef
  | .decSysRef => c.decSysRef
  | .zeroUserRef => c.zeroUserRef
  | .freeChildren => if hasReferences then { c with mSysRefCount := c.mSysRefCount + 1 } else c

end Counts

structure State where
  counts : Counts
  alloc : Alloc

def step (s : State) (act : Act) : Option State :=
  if s.counts.destroyed then none
  else
    let counts := s.counts.after s.alloc.hasReferences act
    let alloc := if act = .freeChildren ∧ s.alloc.hasReferences then freeChildrenUnlocked s.alloc else s.alloc
    some ⟨counts, if counts.destroyed then freeChildrenUnlocked alloc else alloc⟩

/-- An allocation with these contents. Objects have one system reference for each of their handles. -/
def counted (t : RsType) (script : Bool) (block : Memory) : Alloc where
  type := t
  laid := t
  script := script
  block := block
  refs := fun ob => handleCount t block ob

/-- The system references that objects had from the cells are gone, and no others. -/
def Released (a : Alloc) : Prop := ∀ ob, ob ≠ 0 → a.refs ob = 0

def walkPlaces (t : RsType) : Multiset Nat :=
  ((List.range t.mCellCount.toNat).flatMap fun i =>
    t.mElement.references.map (i * (UInt32.ofNat t.mElement.getSizeBytes).toNat + ·) : List Nat)

def walks (script : Bool) (acts : List Act) : Nat := if script then acts.count .freeChildren + 1 else 0

section

variable {a : Alloc}

theorem freeChildrenUnlocked_spec (a : Alloc) : ∃ refs, freeChildrenUnlocked a = { a with refs := refs } ∧ ∀ ob, ob ≠ 0 →
      refs ob = a.refs ob - (if a.script then ((walkPlaces a.type).map (handleAt a.block)).count ob else 0 : Nat) := by
  unfold freeChildrenUnlocked Alloc.decRefs
  split
  case isTrue both =>
    refine ⟨_, rfl, fun ob some => ?_⟩
    simp only [visitCells, visitRefs_eq, Nat.mul_zero, zero_add, ← List.foldl_flatMap]
    rw [foldl_adjustRef _ _ _ _ some, if_pos both.2, walkPlaces, Multiset.map_coe, Multiset.coe_count, tally, neg_one_mul]
    rfl
  case isFalse neither =>
    refine ⟨a.refs, rfl, fun ob _ => ?_⟩
    split
    case isTrue script =>
      have none : a.hasReferences = false := by
        cases has : a.hasReferences with
        | false => rfl
        | true => exact absurd ⟨has, script⟩ neither
      simp [walkPlaces, references_of_not_mHasReference _ none]
    case isFalse => simp

theorem iterate_freeChildrenUnlocked (a : Alloc) (n : Nat) :
    ∃ refs, freeChildrenUnlocked^[n] a = { a with refs := refs } ∧ ∀ ob, ob ≠ 0 → refs ob = a.refs ob -
        (if a.script then ((n • walkPlaces a.type).map (handleAt a.block)).count ob else 0 : Nat) := by
  induction n with
  | zero => exact ⟨a.refs, rfl, fun ob _ => by simp⟩
  | succ n ih =>
    obtain ⟨refs, walked, less⟩ := ih
    obtain ⟨last, again, lastLess⟩ := freeChildrenUnlocked_spec { a with refs := refs }
    refine ⟨last, ?_, fun ob some => ?_⟩
    · rw [Function.iterate_succ_apply', walked, again]
    · rw [lastLess ob some]
      dsimp only
      rw [less ob some, succ_nsmul, Multiset.map_add, Multiset.count_add]
      split
      · push_cast
        ring
      · simp

theorem hasReferences_iterate (a : Alloc) (n : Nat) : (freeChildrenUnlocked^[n] a).hasReferences = a.hasReferences := by
  obtain ⟨refs, walked, -⟩ := iterate_freeChildrenUnlocked a n
  rw [walked]
  rfl

theorem step_of_references {s : State} (alive : s.counts.destroyed = false) (holds : s.alloc.hasReferences = true) (act : Act) :
    step s act = some ⟨s.counts.after true act, freeChildrenUnlocked^[(if act = .freeChildren then 1 else 0) +
      (if (s.counts.after true act).destroyed then 1 else 0)] s.alloc⟩ := by
  simp only [step, alive, holds, Bool.false_eq_true, if_false, and_true]
  split <;> split <;> rfl

/-- The same calls lead to the same walks, whatever the contents are. -/
theorem run_walks {s last : State} {acts : List Act} (run : Run step Anyhow s acts last)
    (alive : s.counts.destroyed = false) (holds : s.alloc.hasReferences = true) :
    last.alloc.hasReferences = true ∧ ∀ {b : Alloc}, b.hasReferences = true → Run step Anyhow ⟨s.counts, b⟩ acts ⟨last.counts,
        freeChildrenUnlocked^[acts.count .freeChildren + (if last.counts.destroyed then 1 else 0)] b⟩ := by
  induction run with
  | nil =>
    refine ⟨holds, fun _ => ?_⟩
    simp only [alive]
    exact .nil
  | @snoc acts state next act before _ happens ih =>
    obtain ⟨held, again⟩ := ih
    have living : state.counts.destroyed = false := by
      cases gone : state.counts.destroyed with
      | false => rfl
      | true => simp [step, gone] at happens
    rw [step_of_references living held] at happens
    cases happens
    refine ⟨(hasReferences_iterate _ _).trans held, fun {b} has => ?_⟩
    have sofar := again has
    simp only [living, Bool.false_eq_true, if_false, add_zero] at sofar
    have moved := step_of_references (s := ⟨state.counts, freeChildrenUnlocked^[acts.count .freeChildren] b⟩)
      living ((hasReferences_iterate _ _).trans has) act
    rw [← Function.iterate_add_apply, add_comm _ (acts.count _), ← add_assoc] at moved
    have total : (acts ++ [act]).count .freeChildren = acts.count .freeChildren + (if act = .freeChildren then 1 else 0) := by
      rw [List.count_append, List.count_singleton]
      simp
    rw [total]
    exact .snoc sofar trivial moved

end

/-- Places that have the same handles for all contents are the same. -/
theorem eq_of_handles {places others : Multiset Nat}
    (same : ∀ block ob, ob ≠ 0 → (places.map (handleAt block)).count ob = (others.map (handleAt block)).count ob) :
    places = others := by
  ext p
  -- one byte is 1, so that only the handle that starts with it is 1
  let block : Memory := fun loc => if loc = p then 1 else 0
  have only (q : Nat) : handleAt block q = 1 ↔ q = p := by
    rw [handleAt_eq]
    constructor
    · intro one
      by_contra differs
      have first : (block q).toNat = 0 := by simp [block, differs]
      omega
    · rintro rfl
      simp [block]
  have counts (places : Multiset Nat) : (places.map (handleAt block)).count 1 = places.count p := by
    rw [Multiset.count_map, Multiset.count, Multiset.countP_eq_card_filter]
    congr 1
    apply Multiset.filter_congr
    intro q _
    rw [eq_comm, only, eq_comm]
  rw [← counts, ← counts]
  exact same block 1 one_ne_zero

section

variable {t : RsType} (holds : t.mElement.mHasReference = true) {script : Bool} {user sys : Int} {block : Memory}
  {acts : List Act} {last : State}
  (run : Run step Anyhow ⟨{ mUserRefCount := user, mSysRefCount := sys }, counted t script block⟩ acts last)
  (gone : last.counts.destroyed = true)

include holds run gone

theorem run_counted (other : Memory) :
    ∃ final, Run step Anyhow ⟨{ mUserRefCount := user, mSysRefCount := sys }, counted t script other⟩ acts final ∧
      ∀ ob, ob ≠ 0 → final.alloc.refs ob = (((handlePlaces t).map (handleAt other)).count ob : Int) -
        ((walks script acts • walkPlaces t).map (handleAt other)).count ob := by
  have replayed := @(run_walks run rfl holds).2 (counted t script other) holds
  rw [gone, if_pos rfl] at replayed
  obtain ⟨refs, walked, less⟩ := iterate_freeChildrenUnlocked (counted t script other) (acts.count .freeChildren + 1)
  refine ⟨_, replayed, fun ob some => ?_⟩
  rw [walked]
  dsimp only
  rw [less ob some, counted]
  dsimp only
  rw [handleCount_eq_count, walks]
  split
  · rfl
  · simp

theorem places_of_released (released : ∀ block, ∃ final,
      Run step Anyhow ⟨{ mUserRefCount := user, mSysRefCount := sys }, counted t script block⟩ acts final ∧
        Released final.alloc) : walks script acts • walkPlaces t = handlePlaces t := by
  apply eq_of_handles
  intro other ob some
  obtain ⟨state, replayed, left⟩ := run_counted holds run gone other
  obtain ⟨final, again, none⟩ := released other
  cases replayed.unique again
  have zero := none ob some
  rw [left ob some] at zero
  omega

/-- Calls that destroy an allocation release each reference of its cells once, whatever the cells are, exactly
if the places of their handles are those of all walks together. -/
theorem released_once_iff : (∀ block, ∃ final,
        Run step Anyhow ⟨{ mUserRefCount := user, mSysRefCount := sys }, counted t script block⟩ acts final ∧
          Released final.alloc) ↔
      walks script acts • walkPlaces t = handlePlaces t := by
  constructor
  · exact places_of_released holds run gone
  · intro places other
    obtain ⟨final, replayed, left⟩ := run_counted holds run gone other
    refine ⟨final, replayed, fun ob some => ?_⟩
    simp [left ob some, places]

end

theorem walkPlaces_of_singleRow {t : RsType} (line : SingleRow t) (fits : RowsFit t) : walkPlaces t = handlePlaces t := by
  have one : t.mLodCount.toNat = 1 := line.levels
  have cells : cellsOf (firstLevel t) = t.dimX.toNat := by
    rw [cellsOf, rowsOf, firstLevel]
    rw [max_eq_right line.dimY, max_eq_right line.dimZ]
    exact mul_one _
  have few : cellsOf (firstLevel t) < 2 ^ 32 := cells ▸ t.dimX.toNat_lt
  have count : t.mCellCount.toNat = t.dimX.toNat := by
    rw [line.plain.mCellCount_of_small (by rw [one]; exact toNat_countCells_one few) (by rw [one]; exact few), one,
      faceTotal, line.noFaces, totalCells, totalCells, cells]
    exact one_mul _
  apply eq_of_handles
  intro block ob some
  rw [← handleCount_eq_count, line.handleCount_eq fits, tally, walkPlaces, Multiset.map_coe, Multiset.coe_count, count]
  by_cases empty : t.dimX.toNat = 0
  · rw [empty]
    rfl
  · have small : t.mElement.getSizeBytes < 2 ^ 32 := fits.small line.plain (first_row_in line.plain) empty
    rw [UInt32.toNat_ofNat_of_lt' small, cellRefs]
    simp only [zero_add]

private def handleCell : Element := .mk 0 (.set .allocation .user false 1) []

private def oneHandle : RsType :=
  .create 0 handleCell { dimX := 1, dimY := 0, dimZ := 0, mDimLOD := false, faces := false, dimYuv := 0 }

private theorem oneHandle_places : walkPlaces oneHandle = handlePlaces oneHandle := by
  have line : SingleRow oneHandle := ⟨⟨rfl, rfl⟩, by decide, by decide, rfl, rfl⟩
  exact walkPlaces_of_singleRow line (line.rowsFit (by decide))

theorem released_once_iff_row : walkPlaces oneHandle = handlePlaces oneHandle ∧ ∀ block, ∃ final,
      Run step Anyhow ⟨{ mUserRefCount := 1, mSysRefCount := 0 }, counted oneHandle true block⟩ [.decUserRef] final ∧
        Released final.alloc := by
  have run : Run step Anyhow ⟨{ mUserRefCount := 1, mSysRefCount := 0 }, counted oneHandle true fun _ => 0⟩
      [.decUserRef] _ := .snoc .nil trivial rfl
  exact ⟨oneHandle_places, (released_once_iff rfl run rfl).mpr ((one_nsmul _).trans oneHandle_places)⟩

private def twoRows : RsType :=
  .create 0 handleCell { dimX := 1, dimY := 2, dimZ := 0, mDimLOD := false, faces := false, dimYuv := 0 }

theorem not_released_once : (¬ ∀ block, ∃ final,
      Run step Anyhow ⟨{ mUserRefCount := 1, mSysRefCount := 1 }, counted oneHandle true block⟩
        [.zeroUserRef, .freeChildren, .decSysRef, .decSysRef] final ∧ Released final.alloc) ∧
      ¬ ∀ block, ∃ final,
        Run step Anyhow ⟨{ mUserRefCount := 1, mSysRefCount := 0 }, counted twoRows true block⟩ [.decUserRef] final ∧
          Released final.alloc := by
  constructor
  · intro released
    have zeroed : Run step Anyhow ⟨{ mUserRefCount := 1, mSysRefCount := 1 }, counted oneHandle true fun _ => 0⟩
        [.zeroUserRef] _ := .snoc .nil trivial rfl
    have freed : Run step Anyhow _ [.zeroUserRef, .freeChildren] _ := .snoc zeroed trivial rfl
    have ret : Run step Anyhow _ [.zeroUserRef, .freeChildren, .decSysRef] _ := .snoc freed trivial rfl
    have run : Run step Anyhow _ [.zeroUserRef, .freeChildren, .decSysRef, .decSysRef] _ := .snoc ret trivial rfl
    have places := places_of_released rfl run rfl released
    rw [← oneHandle_places] at places
    have cards := congrArg Multiset.card places
    have one : (walkPlaces oneHandle).card = 1 := by decide
    rw [Multiset.card_nsmul, one] at cards
    exact absurd cards (by decide)
  · intro released
    have run : Run step Anyhow ⟨{ mUserRefCount := 1, mSysRefCount := 0 }, counted twoRows true fun _ => 0⟩
        [.decUserRef] _ := .snoc .nil trivial rfl
    have places := places_of_released rfl run rfl released
    have padding : 4 ∈ walkPlaces twoRows ∧ 4 ∉ handlePlaces twoRows := by decide +kernel
    rw [← places] at padding
    exact padding.2 ((one_nsmul (walkPlaces twoRows)).symm ▸ padding.1)

end RenderScript.Teardown
