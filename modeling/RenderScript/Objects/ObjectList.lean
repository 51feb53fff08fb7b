import RenderScript.Foundation.Interleaving
import RenderScript.Foundation.LinkedNodes

/-!
# The list of all objects of a context

`ObjectBase` of rsObjectBase.cpp: constructors put objects into the list at `mObjHead`, `checkDelete`
takes them out before it deletes them, and the destructor takes out those that were not deleted by
`checkDelete`.
-/

namespace RenderScript.ObjectList
open Interleaving LinkedNodes List
open Option hiding or_self

/-- `removed` is an object that `checkDelete` has taken out, up to the end of its destructor. -/
inductive Phase where
  | absent
  | live
  | removed
  deriving DecidableEq

/-- Objects are addresses. The links are `mObjHead`, `mPrev` and `mNext`. -/
structure State where
  links : Links Nat := { head := none, prev := fun _ => none, next := fun _ => none }
  phase : Nat → Phase := fun _ => .absent
  mUserRefCount : Nat → Int := fun _ => 0
  mSysRefCount : Nat → Int := fun _ => 0

inductive Act where
  | construct (o : Nat)
  /-- What `incUserRef`, `incSysRef` and their opposites do to the counters. -/
  | count (o : Nat) (user sys : Int)
  | checkDelete (ref : Option Nat)
  /-- The end of `delete`, behind everything that the destructors of its class do. -/
  | deleted (o : Nat)
  /-- An object on the stack, or one that is deleted without `checkDelete`. -/
  | destroy (o : Nat)

namespace State

/-- The constructor sets both pointers to null before it calls `add`. -/
def construct (s : State) (o : Nat) : State where
  links := ((s.links.setPrev (some o) none).setNext (some o) none).pushFront o
  phase := Function.update s.phase o .live
  mUserRefCount := Function.update s.mUserRefCount o 0
  mSysRefCount := Function.update s.mSysRefCount o 0

def remove (s : State) (o : Nat) : State := { s with links := s.links.unlink o }

/-- `if (ref->mUserRefCount || ref->mSysRefCount)` -/
def checkDelete (s : State) (o : Nat) : State :=
  if s.mUserRefCount o ≠ 0 ∨ s.mSysRefCount o ≠ 0 then s
  else { s.remove o with phase := Function.update s.phase o .removed }

/-- `~ObjectBase` -/
def destructor (s : State) (o : Nat) : State :=
  let s := if (s.links.prev o).isSome ∨ (s.links.next o).isSome then s.remove o else s
  { s with phase := Function.update s.phase o .absent }

/-- Objects are made where there is none, and calls are on objects that are there. -/
def step (s : State) : Act → Option State
  | .construct o => if s.phase o = .absent then some (s.construct o) else none
  | .count o user sys =>
    some { s with mUserRefCount := Function.update s.mUserRefCount o user, mSysRefCount := Function.update s.mSysRefCount o sys }
  | .checkDelete none => some s
  | .checkDelete (some o) => if s.phase o = .live then some (s.checkDelete o) else none
  | .deleted o => if s.phase o = .removed then some (s.destructor o) else none
  | .destroy o => if s.phase o = .live then some (s.destructor o) else none

def Listed (s : State) : Prop :=
  ∃ objects, s.links.Forms objects ∧ ∀ o, o ∈ objects ↔ s.phase o = .live

def Clean (s : State) : Act → Prop
  | .destroy o => ∃ other, other ≠ o ∧ s.phase other = .live
  | _ => True

structure Kept (s : State) : Prop where
  listed : s.Listed
  null : ∀ o, s.phase o = .removed → s.links.prev o = none ∧ s.links.next o = none

variable {s next : State} {act : Act} {o : Nat}

theorem Kept.start : Kept {} where
  listed := ⟨[], Links.forms_nil _ rfl, by simp⟩
  null := nofun

theorem Kept.construct (kept : s.Kept) (absent : s.phase o = .absent) : (s.construct o).Kept := by
  obtain ⟨⟨objects, forms, mem⟩, null⟩ := kept
  have fresh : o ∉ objects := by
    rw [mem, absent]
    exact Phase.noConfusion
  have cleared : ((s.links.setPrev (some o) none).setNext (some o) none).Forms objects := by
    refine ⟨forms.once, forms.first, ?_⟩
    rintro before node behind rfl
    have ne : ¬ o = node := by
      rintro rfl
      exact fresh (mem_append_right _ mem_cons_self)
    simpa [Links.setPrev, Links.setNext, ne] using forms.neighbours rfl
  refine ⟨⟨o :: objects, cleared.pushFront fresh ?_, ?_⟩, ?_⟩
  · simp [Links.setPrev, Links.setNext]
  · intro other
    by_cases eq : other = o
    · simp [State.construct, eq]
    · simp [State.construct, eq, mem]
  · intro other removed
    have ne : other ≠ o := by
      rintro rfl
      simp [State.construct] at removed
    have before : s.phase other = .removed := by simpa [State.construct, ne] using removed
    have out : other ∉ o :: objects := by simp [ne, mem, before]
    obtain ⟨prev, next⟩ := cleared.pushFront_outside out
    have apart : ¬ o = other := fun eq => ne eq.symm
    rw [State.construct, prev, next]
    simpa [Links.setPrev, Links.setNext, apart] using null other before

/-- A live object is taken out. -/
theorem Kept.remove (kept : s.Kept) (live : s.phase o = .live) {phase : Phase} (gone : phase ≠ .live) :
    { s.remove o with phase := Function.update s.phase o phase }.Kept := by
  obtain ⟨⟨objects, forms, mem⟩, null⟩ := kept
  obtain ⟨before, behind, rfl⟩ := append_of_mem ((mem o).mpr live)
  refine ⟨⟨before ++ behind, forms.unlink, ?_⟩, ?_⟩
  · intro other
    have once := forms.once
    rw [perm_middle.nodup_iff, nodup_cons] at once
    by_cases eq : other = o
    · simpa [eq, gone] using once.1
    · have still := mem other
      rw [perm_middle.mem_iff, mem_cons, or_iff_right eq] at still
      simpa [eq] using still
  · intro other removed
    by_cases eq : other = o
    · subst eq
      exact Links.unlink_null forms.prev_ne
    · have old : s.phase other = .removed := by simpa [eq] using removed
      have out : other ∉ before ++ o :: behind := by
        rw [mem, old]
        exact Phase.noConfusion
      obtain ⟨prev, next⟩ := forms.unlink_outside out
      rw [State.remove, prev, next]
      exact null other old

/-- With another live object, one of the pointers is not null. -/
theorem Kept.linked (kept : s.Kept) (live : s.phase o = .live) {other : Nat} (ne : other ≠ o)
    (alive : s.phase other = .live) : (s.links.prev o).isSome ∨ (s.links.next o).isSome := by
  obtain ⟨⟨objects, forms, members⟩, -⟩ := kept
  obtain ⟨before, behind, rfl⟩ := append_of_mem ((members o).mpr live)
  obtain ⟨prev, next⟩ := forms.neighbours rfl
  rw [prev, next]
  have mem := (members other).mpr alive
  rw [perm_middle.mem_iff, mem_cons, or_iff_right ne, mem_append] at mem
  rcases mem with early | late
  · exact .inl (by simpa using ne_nil_of_mem early)
  · exact .inr (by simpa using ne_nil_of_mem late)

theorem Kept.step (kept : s.Kept) (clean : s.Clean act) (moved : s.step act = some next) : next.Kept := by
  cases act with
  | construct o =>
    obtain ⟨absent, rfl⟩ := ite_none_right_eq_some.mp moved |>.imp_right Option.some.inj
    exact kept.construct absent
  | count o user sys =>
    cases moved
    exact ⟨kept.listed, kept.null⟩
  | checkDelete ref =>
    cases ref with
    | none =>
      cases moved
      exact kept
    | some o =>
      obtain ⟨live, rfl⟩ := ite_none_right_eq_some.mp moved |>.imp_right Option.some.inj
      unfold State.checkDelete
      split
      · exact kept
      · exact kept.remove live Phase.noConfusion
  | deleted o =>
    obtain ⟨removed, rfl⟩ := ite_none_right_eq_some.mp moved |>.imp_right Option.some.inj
    obtain ⟨prev, next⟩ := kept.null o removed
    obtain ⟨objects, forms, mem⟩ := kept.listed
    simp only [State.destructor, prev, next, isSome_none, Bool.false_eq_true, or_self, if_false]
    refine ⟨⟨objects, forms, ?_⟩, ?_⟩
    · intro other
      by_cases eq : other = o
      · simp [eq, mem, removed]
      · simp [eq, mem]
    · intro other still
      have ne : other ≠ o := by
        rintro rfl
        simp at still
      exact kept.null other (by simpa [ne] using still)
  | destroy o =>
    obtain ⟨live, rfl⟩ := ite_none_right_eq_some.mp moved |>.imp_right Option.some.inj
    obtain ⟨other, ne, alive⟩ := clean
    rw [State.destructor, if_pos (kept.linked live ne alive)]
    exact kept.remove live Phase.noConfusion

/-- The only object stays at `mObjHead` when it is destroyed directly. -/
theorem Kept.clean_of_listed (kept : s.Kept) (moved : s.step act = some next) (listed : next.Listed) : s.Clean act := by
  cases act with
  | construct | count | checkDelete | deleted => trivial
  | destroy o =>
    obtain ⟨live, rfl⟩ := ite_none_right_eq_some.mp moved |>.imp_right Option.some.inj
    by_contra alone
    have only : ∀ other, s.phase other = .live → other = o := by
      intro other alive
      by_contra differs
      exact alone ⟨other, differs, alive⟩
    obtain ⟨⟨objects, forms, members⟩, -⟩ := kept
    obtain ⟨before, behind, rfl⟩ := append_of_mem ((members o).mpr live)
    obtain ⟨prev, behindNode⟩ := forms.neighbours rfl
    have noPrev : s.links.prev o = none := by
      cases last : before.getLast? with
      | none => rw [prev, last]
      | some other =>
        have eq := only other ((members other).mp (mem_append_left _ (List.mem_of_getLast? last)))
        exact absurd (prev.trans (last.trans (congrArg some eq))) forms.prev_ne
    have noNext : s.links.next o = none := by
      cases first : behind.head? with
      | none => rw [behindNode, first]
      | some other =>
        have mem : other ∈ before ++ o :: behind := mem_append_right _ (mem_cons_of_mem _ (List.mem_of_head? first))
        have eq := only other ((members other).mp mem)
        exact absurd (behindNode.trans (first.trans (congrArg some eq))) forms.next_ne
    simp only [State.destructor, noPrev, noNext, isSome_none, Bool.false_eq_true, or_self, if_false] at listed
    obtain ⟨others, again, remaining⟩ := listed
    obtain ⟨head, atHead⟩ : ∃ head, (before ++ o :: behind).head? = some head := by
      simp
    have isHead := again.first.symm.trans (forms.first.trans atHead)
    have stays := (remaining head).mp (List.mem_of_head? isHead)
    cases only head ((members head).mp (List.mem_of_head? atHead))
    simp at stays

end State

/-- In a run, the links form a list of the live objects all the time exactly if no object is destroyed
directly while it is the only one. -/
theorem object_list_iff {acts : List Act} {s : State} (run : Run State.step Anyhow {} acts s) :
    Throughout State.step Anyhow {} State.Listed acts ↔ Run State.step State.Clean {} acts s :=
  run.throughout_iff_of_invariant State.Kept .start State.Kept.listed State.Kept.step State.Kept.clean_of_listed

/-- Two objects, of which one is destroyed directly and the other one by `checkDelete`. -/
theorem object_list_two : Throughout State.step Anyhow {} State.Listed
      [.construct 0, .construct 1, .destroy 1, .checkDelete (some 0), .deleted 0] := by
  have one : Run State.step State.Clean {} [.construct 0] _ := .snoc .nil trivial rfl
  have two : Run State.step State.Clean {} [.construct 0, .construct 1] _ := .snoc one trivial rfl
  have left : Run State.step State.Clean {} [.construct 0, .construct 1, .destroy 1] _ := .snoc two ⟨0, zero_ne_one, rfl⟩ rfl
  have taken : Run State.step State.Clean {} [.construct 0, .construct 1, .destroy 1, .checkDelete (some 0)] _ :=
    .snoc left trivial rfl
  have run : Run State.step State.Clean {}
      [.construct 0, .construct 1, .destroy 1, .checkDelete (some 0), .deleted 0] _ := .snoc taken trivial rfl
  exact (object_list_iff (run.mono fun _ => trivial)).mpr run

/-- The only object of a context is on the stack. It stays at `mObjHead`. -/
theorem object_list_dangling :
    ∃ s, Run State.step Anyhow {} [.construct 0, .destroy 0] s ∧ s.links.head = some 0 ∧ ¬ s.Listed := by
  have made : Run State.step Anyhow {} [.construct 0] _ := .snoc .nil trivial rfl
  have run : Run State.step Anyhow {} [.construct 0, .destroy 0] _ := .snoc made trivial rfl
  refine ⟨_, run, rfl, ?_⟩
  rintro ⟨objects, forms, mem⟩
  have head := forms.first.symm
  have live := (mem 0).mp (List.mem_of_head? head)
  simp [State.destructor] at live

end RenderScript.ObjectList
