import RenderScript.Foundation.Interleaving
import RenderScript.Element.Element

/-!
# References of several threads

The atomic steps of `incUserRef`, `decUserRef`, `incSysRef`, `decSysRef` and
`checkDelete` of rsObjectBase.cpp, and of `createRef` of rsElement.cpp with the lock
that its look-up holds.
-/

namespace RenderScript.References
open Elements List Option Function

inductive Kind where
  | user
  | sys
  deriving DecidableEq

def Kind.other : Kind → Kind
  | .user => .sys
  | .sys => .user

/-- The arguments of the two forms of `createRef`. -/
inductive Request where
  | component (dt : RsDataType) (dk : RsDataKind) (isNorm : Bool) (vecSize : UInt32)
  | fields (specs : List FieldSpec)

def Request.matches : Request → Element → Bool
  | .component dt dk isNorm vecSize => Element.matchesComponent dt dk isNorm vecSize
  | .fields specs => Element.matchesFields specs

def Request.make (address : Nat) : Request → Element
  | .component dt dk isNorm vecSize => .mk address (.set dt dk isNorm vecSize) []
  | .fields specs => .mk address .initial (specs.map FieldSpec.field)

inductive Place where
  | idle
  -- in `decUserRef` or `decSysRef`, before the other counter is read
  | decreased (kind : Kind) (o : Nat)
  -- in `checkDelete`: before the lock, before each counter is read, and before `delete`
  | locking (o : Nat)
  | checkingUser (o : Nat)
  | checkingSys (o : Nat)
  | deleting (o : Nat)
  -- in `createRef`: the look-up, its `incSysRef`, and, without a match, the new element
  | scanning (request : Request) (ct : Nat)
  | found (e : Element)
  | missed (request : Request)
  | pushing (e : Element)
  | pushLocked (e : Element)
  -- before `asyncUnlock`
  | unlocking

/-- `deletions` counts the calls of `delete`. `refs` is bookkeeping: the references each thread
holds. -/
structure State (Thread : Type) where
  count : Kind → Nat → Int := fun _ _ => 0
  deletions : Nat → Nat := fun _ => 0
  mElements : List Element := []
  next : Nat := 0
  lock : Option Thread := none
  place : Thread → Place := fun _ => .idle
  refs : List (Thread × Kind × Nat) := []

inductive Act (Thread : Type) where
  -- `incUserRef`, `incSysRef`
  | inc (thread : Thread) (kind : Kind) (o : Nat)
  -- the subtraction of `decUserRef`, `decSysRef`
  | dec (thread : Thread) (kind : Kind) (o : Nat)
  -- a reference is handed over
  | give (thread receiver : Thread) (kind : Kind) (o : Nat)
  -- `createRef` takes the lock
  | lookup (thread : Thread) (request : Request)
  -- the next step of the call that the thread is in
  | go (thread : Thread)

section

variable {Thread : Type} [DecidableEq Thread]

namespace State

def move (s : State Thread) (thread : Thread) (place : Place) : State Thread :=
  { s with place := Function.update s.place thread place }

def add (s : State Thread) (kind : Kind) (o : Nat) (n : Int) : State Thread :=
  { s with count := Function.update s.count kind (Function.update (s.count kind) o (s.count kind o + n)) }

def free (s : State Thread) (thread : Thread) : Bool :=
  match s.place thread with
  | .idle => true
  | _ => false

def go (s : State Thread) (thread : Thread) : Option (State Thread) :=
  match s.place thread with
  | .idle => none
  | .decreased kind o => some (s.move thread (if s.count kind.other o ≤ 0 then .locking o else .idle))
  | .locking o =>
    if s.lock.isNone then some { s.move thread (.checkingUser o) with lock := some thread } else none
  | .checkingUser o => some (s.move thread (if s.count .user o = 0 then .checkingSys o else .unlocking))
  | .checkingSys o =>
    some (if s.count .sys o = 0 then
        { s.move thread (.deleting o) with mElements := s.mElements.filter (·.address != o), lock := none }
      else s.move thread .unlocking)
  | .deleting o =>
    some { s.move thread .idle with deletions := Function.update s.deletions o (s.deletions o + 1) }
  | .scanning request ct =>
    match s.mElements[ct]? with
    | none => some { s.move thread (.missed request) with lock := none }
    | some e => some (s.move thread (if request.matches e then .found e else .scanning request (ct + 1)))
  | .found e =>
    some { (s.add .sys e.address 1).move thread .unlocking with refs := (thread, .sys, e.address) :: s.refs }
  | .missed request =>
    some { (s.add .sys s.next 1).move thread (.pushing (request.make s.next)) with
      next := s.next + 1
      refs := (thread, .sys, s.next) :: s.refs }
  | .pushing e =>
    if s.lock.isNone then some { s.move thread (.pushLocked e) with lock := some thread } else none
  | .pushLocked e => some { s.move thread .unlocking with mElements := s.mElements ++ [e] }
  | .unlocking => some { s.move thread .idle with lock := none }

/-- Threads that are in no call release references that they hold, and make more of them. -/
def step (s : State Thread) : Act Thread → Option (State Thread)
  | .inc thread kind o =>
    if s.free thread ∧ ((thread, .user, o) ∈ s.refs ∨ (thread, .sys, o) ∈ s.refs) then
      some { s.add kind o 1 with refs := (thread, kind, o) :: s.refs }
    else none
  | .dec thread kind o =>
    if s.free thread ∧ (thread, kind, o) ∈ s.refs then
      some { (s.add kind o (-1)).move thread (if s.count kind o ≤ 1 then .decreased kind o else .idle) with
        refs := s.refs.erase (thread, kind, o) }
    else none
  | .give thread receiver kind o =>
    if s.free thread ∧ (thread, kind, o) ∈ s.refs then
      some { s with refs := (receiver, kind, o) :: s.refs.erase (thread, kind, o) }
    else none
  | .lookup thread request =>
    if s.free thread ∧ s.lock.isNone then
      some { s.move thread (.scanning request 0) with lock := some thread }
    else none
  | .go thread => s.go thread

/-- The object that a thread reads, increments or deletes in the rest of its call. -/
def Inside (place : Place) (o : Nat) : Prop :=
  match place with
  | .decreased _ p | .locking p | .checkingUser p | .checkingSys p | .deleting p => p = o
  | .found e | .pushing e | .pushLocked e => e.address = o
  | .idle | .scanning _ _ | .missed _ | .unlocking => False

def Touches (s : State Thread) : Act Thread → Nat → Prop
  | .inc _ _ p, o | .dec _ _ p, o => p = o
  | .give _ _ _ _, _ | .lookup _ _, _ => False
  | .go thread, o =>
    match s.place thread with
    | .decreased _ p | .checkingUser p | .checkingSys p | .deleting p => p = o
    | .found e => e.address = o
    | .scanning _ ct => ∃ e, s.mElements[ct]? = some e ∧ e.address = o
    | .idle | .locking _ | .missed _ | .pushing _ | .pushLocked _ | .unlocking => False

/-- No object is deleted twice, no step that is possible now touches a deleted one, and neither
will the calls that threads are in nor those they can make with their references. -/
structure Safe (s : State Thread) : Prop where
  once : ∀ o, s.deletions o ≤ 1
  steps : ∀ act next o, s.step act = some next → s.Touches act o → s.deletions o = 0
  calls : ∀ thread o, Inside (s.place thread) o → s.deletions o = 0
  held : ∀ ref ∈ s.refs, s.deletions ref.2.2 = 0

/-- When an object is deleted, nobody has a reference to it and no other thread is in a call
on it. -/
def Clean (s : State Thread) : Act Thread → Prop
  | .go thread => ∀ o, s.place thread = .deleting o →
      (∀ ref ∈ s.refs, ref.2.2 ≠ o) ∧ ∀ other, other ≠ thread → ¬Inside (s.place other) o
  | _ => True

end State

end

open Interleaving

section

variable {Thread : Type} [DecidableEq Thread] {s next : State Thread} {thread : Thread} {place : Place} {o : Nat}
  {kind : Kind} {e : Element} {act : Act Thread}

def Place.Pushes (place : Place) (e : Element) : Prop :=
  match place with
  | .pushing p | .pushLocked p => p = e
  | _ => False

namespace State

def Live (s : State Thread) (o : Nat) : Prop := o < s.next ∧ s.deletions o = 0

structure Inv (s : State Thread) : Prop where
  counts : ∀ kind o, s.count kind o = s.refs.countP fun ref => ref.2 = (kind, o)
  refs : ∀ ref ∈ s.refs, s.Live ref.2.2
  table : ∀ e ∈ s.mElements, s.Live e.address
  inside : ∀ thread o, Inside (s.place thread) o → s.Live o
  creator : ∀ thread e, (s.place thread).Pushes e → (thread, .sys, e.address) ∈ s.refs
  removed : ∀ thread o, s.place thread = .deleting o → ∀ e ∈ s.mElements, e.address ≠ o
  apart : ∀ thread o other e, s.place thread = .deleting o → (s.place other).Pushes e → e.address ≠ o
  once : ∀ o, s.deletions o ≤ 1
  unborn : ∀ o, s.next ≤ o → s.deletions o = 0

omit [DecidableEq Thread] in
theorem Inv.start : Inv ({} : State Thread) := by
  constructor <;> intros <;> first | contradiction | rfl | exact Nat.zero_le _

structure Allows (s : State Thread) (thread : Thread) (place : Place) : Prop where
  inside : ∀ o, Inside place o → s.Live o
  creator : ∀ e, place.Pushes e → (thread, .sys, e.address) ∈ s.refs
  removed : ∀ o, place = .deleting o →
    (∀ e ∈ s.mElements, e.address ≠ o) ∧ ∀ other e, (s.place other).Pushes e → e.address ≠ o
  apart : ∀ e, place.Pushes e → ∀ other o, s.place other = .deleting o → e.address ≠ o

theorem Inv.move (inv : s.Inv) (allows : s.Allows thread place) (lock : Option Thread) :
    Inv { s.move thread place with lock := lock } where
  __ := inv
  inside := (forall_update_iff s.place fun _ place => ∀ o, Inside place o → s.Live o).mpr
    ⟨allows.inside, fun other _ => inv.inside other⟩
  creator := (forall_update_iff s.place fun thread place =>
    ∀ e, place.Pushes e → (thread, Kind.sys, e.address) ∈ s.refs).mpr ⟨allows.creator, fun other _ => inv.creator other⟩
  removed := (forall_update_iff s.place fun _ place =>
    ∀ o, place = .deleting o → ∀ e ∈ s.mElements, e.address ≠ o).mpr
      ⟨fun o deletes => (allows.removed o deletes).1, fun other _ => inv.removed other⟩
  apart := by
    refine (forall_update_iff s.place fun _ first => ∀ o other e, first = .deleting o →
      (Function.update s.place thread place other).Pushes e → e.address ≠ o).mpr ⟨?_, ?_⟩
    · intro o other e deletes
      revert other
      refine (forall_update_iff s.place fun _ second => second.Pushes e → e.address ≠ o).mpr
        ⟨?_, fun other _ pushes => (allows.removed o deletes).2 other e pushes⟩
      rw [deletes]
      exact False.elim
    · intro first _ o other e deletes
      revert other
      exact (forall_update_iff s.place fun _ second => second.Pushes e → e.address ≠ o).mpr
        ⟨fun pushes => allows.apart e pushes first o deletes, fun other _ pushes => inv.apart first o other e deletes pushes⟩

omit [DecidableEq Thread] in
theorem allows_rest (rest : ∀ o, ¬Inside place o) : s.Allows thread place where
  inside o inside := absurd inside (rest o)
  creator e pushes := by
    cases place <;> first | exact absurd pushes id | exact absurd (congrArg Element.address pushes) (rest _)
  removed o deletes := by
    cases deletes
    exact absurd rfl (rest o)
  apart e pushes := by
    cases place <;> first | exact absurd pushes id | exact absurd (congrArg Element.address pushes) (rest _)

omit [DecidableEq Thread] in
theorem allows_reading (live : s.Live o) (one : ∀ p, Inside place p → o = p)
    (pushes : ∀ e, ¬place.Pushes e) (keeps : ∀ p, place ≠ .deleting p) : s.Allows thread place where
  inside p inside := one p inside ▸ live
  creator e new := absurd new (pushes e)
  removed p deletes := absurd deletes (keeps p)
  apart e new := absurd new (pushes e)

omit [DecidableEq Thread] in
theorem allows_ite {p : Prop} [Decidable p] {rest : Place} (live : s.Live o) (one : ∀ p, Inside place p → o = p)
    (pushes : ∀ e, ¬place.Pushes e) (keeps : ∀ p, place ≠ .deleting p) (out : ∀ o, ¬Inside rest o) :
    s.Allows thread (if p then place else rest) := by
  split
  · exact allows_reading live one pushes keeps
  · exact allows_rest out

omit [DecidableEq Thread] in
theorem count_add (s : State Thread) (kind : Kind) (o : Nat) (n : Int) (other : Kind) (p : Nat) :
    (s.add kind o n).count other p = s.count other p + if (kind, o) = (other, p) then n else 0 := by
  unfold add
  rcases eq_or_ne other kind with rfl | ne
  · rcases eq_or_ne p o with rfl | elsewhere
    · simp
    · simp [update_of_ne elsewhere, elsewhere.symm]
  · simp [update_of_ne ne, ne.symm]

omit [DecidableEq Thread] in
theorem countP_cons_ref (refs : List (Thread × Kind × Nat)) (thread : Thread) (kind : Kind) (o : Nat) (other : Kind × Nat) :
    (((thread, kind, o) :: refs).countP fun ref => ref.2 = other : Int) =
      (refs.countP fun ref => ref.2 = other) + if (kind, o) = other then 1 else 0 := by
  split <;> simp_all

theorem countP_erase_ref {refs : List (Thread × Kind × Nat)} (held : (thread, kind, o) ∈ refs) (other : Kind × Nat) :
    ((refs.countP fun ref => ref.2 = other : Nat) : Int) =
      ((refs.erase (thread, kind, o)).countP fun ref => ref.2 = other) + if (kind, o) = other then 1 else 0 := by
  rw [(perm_cons_erase held).countP_eq]
  exact countP_cons_ref _ thread kind o other

omit [DecidableEq Thread] in
theorem Inv.addRef (inv : s.Inv) (live : s.Live o) (kind : Kind) :
    Inv { s.add kind o 1 with refs := (thread, kind, o) :: s.refs } where
  counts other p := by
    rw [countP_cons_ref, ← inv.counts other p]
    exact count_add s kind o 1 other p
  refs := forall_mem_cons.mpr ⟨live, inv.refs⟩
  __ := inv
  creator thread e pushes := .tail _ (inv.creator thread e pushes)

theorem Inv.creator_erase (inv : s.Inv) (idle : s.place thread = .idle)
    (other : Thread) (e : Element) (pushes : (s.place other).Pushes e) :
    (other, .sys, e.address) ∈ s.refs.erase (thread, kind, o) := by
  have ne : other ≠ thread := by
    rintro rfl
    rw [idle] at pushes
    exact pushes
  refine (mem_erase_of_ne fun eq => ?_).mpr (inv.creator other e pushes)
  exact ne (congrArg Prod.fst eq)

theorem Inv.dropRef (inv : s.Inv) (idle : s.place thread = .idle) (held : (thread, kind, o) ∈ s.refs) :
    Inv { s.add kind o (-1) with refs := s.refs.erase (thread, kind, o) } where
  counts other p := by
    refine (count_add s kind o (-1) other p).trans ?_
    rw [inv.counts, countP_erase_ref held (other, p)]
    split <;> simp
  refs ref member := inv.refs ref (mem_of_mem_erase member)
  __ := inv
  creator := inv.creator_erase idle

theorem Inv.give (inv : s.Inv) {receiver : Thread} (idle : s.place thread = .idle) (held : (thread, kind, o) ∈ s.refs) :
    Inv { s with refs := (receiver, kind, o) :: s.refs.erase (thread, kind, o) } where
  counts other p := by
    rw [countP_cons_ref, ← countP_erase_ref held (other, p)]
    exact inv.counts other p
  refs := forall_mem_cons.mpr ⟨inv.refs (thread, kind, o) held, fun ref mem => inv.refs ref (mem_of_mem_erase mem)⟩
  __ := inv
  creator other e pushes := .tail _ (inv.creator_erase idle other e pushes)

omit [DecidableEq Thread] in
theorem idle_of_free (free : s.free thread = true) : s.place thread = .idle := by
  unfold State.free at free
  split at free
  case h_1 idle => exact idle
  case h_2 => cases free

omit [DecidableEq Thread] in
/-- `preDestroy`. -/
theorem Inv.remove (inv : s.Inv) (o : Nat) : Inv { s with mElements := s.mElements.filter (·.address != o) } :=
  { inv with
    table := fun e mem => inv.table e (mem_of_mem_filter mem)
    removed := fun thread p deletes e mem =>
      inv.removed thread p deletes e (mem_of_mem_filter mem) }

theorem Inv.goCheckingSys (inv : s.Inv) (here : s.place thread = .checkingSys o) (zero : s.count .sys o = 0) :
    Inv { s.move thread (.deleting o) with
      mElements := s.mElements.filter (·.address != o)
      lock := none } := by
  refine (inv.remove o).move ⟨?_, fun _ => False.elim, ?_, fun _ => False.elim⟩ none
  · rintro _ rfl
    exact inv.inside thread o (by rw [here]; rfl)
  · rintro _ ⟨⟩
    constructor
    · intro e mem
      exact bne_iff_ne.mp (mem_filter.mp mem).2
    · -- a new element still has the reference of its creator
      rintro other e pushes rfl
      have held := inv.creator other e pushes
      rw [inv.counts] at zero
      exact absurd (Int.ofNat_eq_zero.mp zero) (countP_pos_iff.mpr ⟨_, held, decide_eq_true rfl⟩).ne'

theorem Inv.goDeleting (inv : s.Inv) (here : s.place thread = .deleting o) (unheld : ∀ ref ∈ s.refs, ref.2.2 ≠ o)
    (alone : ∀ other, other ≠ thread → ¬Inside (s.place other) o) :
    Inv { s.move thread .idle with deletions := Function.update s.deletions o (s.deletions o + 1) } := by
  obtain ⟨known, alive⟩ := inv.inside thread o (by rw [here]; rfl)
  have still : ∀ {p}, p ≠ o → s.Live p →
      p < s.next ∧ Function.update s.deletions o (s.deletions o + 1) p = 0 := fun ne live =>
    ⟨live.1, (update_of_ne ne _ _).trans live.2⟩
  have idle := inv.move (allows_rest fun _ => id : s.Allows thread .idle) s.lock
  exact { idle with
    refs := fun ref mem => still (unheld ref mem) (inv.refs ref mem)
    table := fun e mem => still (inv.removed thread o here e mem) (inv.table e mem)
    inside := (forall_update_iff s.place fun _ place => ∀ p, Inside place p →
        p < s.next ∧ Function.update s.deletions o (s.deletions o + 1) p = 0).mpr
      ⟨fun _ => False.elim, fun other ne p inside =>
        still (fun eq => alone other ne (eq ▸ inside)) (inv.inside other p inside)⟩
    once := (forall_update_iff s.deletions fun _ n => n ≤ 1).mpr ⟨by rw [alive], fun p _ => inv.once p⟩
    unborn := (forall_update_iff s.deletions fun p n => s.next ≤ p → n = 0).mpr
      ⟨fun unborn => absurd known (not_lt.mpr unborn), fun p _ => inv.unborn p⟩ }

theorem Inv.goScanning (inv : s.Inv) {request : Request} {ct : Nat} (there : s.mElements[ct]? = some e) :
    Inv (s.move thread (if request.matches e then .found e else .scanning request (ct + 1))) :=
  inv.move (allows_ite (inv.table e (mem_of_getElem? there)) (fun _ => id) (fun _ => id) (by nofun) fun _ => id) s.lock

theorem Inv.goFound (inv : s.Inv) (here : s.place thread = .found e) :
    Inv { (s.add .sys e.address 1).move thread .unlocking with refs := (thread, .sys, e.address) :: s.refs } :=
  have live := inv.inside thread e.address (by rw [here]; rfl)
  (inv.addRef live .sys).move (allows_rest fun _ => id) s.lock

omit [DecidableEq Thread] in
theorem Inv.grow (inv : s.Inv) : Inv { s with next := s.next + 1 } :=
  have older : ∀ {o}, s.Live o → o < s.next + 1 ∧ s.deletions o = 0 := fun live =>
    ⟨Nat.lt_succ_of_lt live.1, live.2⟩
  { inv with
    refs := fun ref mem => older (inv.refs ref mem)
    table := fun e mem => older (inv.table e mem)
    inside := fun thread o inside => older (inv.inside thread o inside)
    unborn := fun o unborn => inv.unborn o (Nat.le_of_succ_le unborn) }

theorem address_make (address : Nat) (request : Request) : (request.make address).address = address := by
  cases request <;> rfl

theorem Inv.goMissed (inv : s.Inv) (request : Request) :
    Inv { (s.add .sys s.next 1).move thread (.pushing (request.make s.next)) with
      next := s.next + 1
      refs := (thread, .sys, s.next) :: s.refs } := by
  have new : State.Live { s with next := s.next + 1 } s.next := ⟨Nat.lt_succ_self _, inv.unborn s.next le_rfl⟩
  refine (inv.grow.addRef new .sys).move ⟨?_, ?_, by nofun, ?_⟩ s.lock
  · rintro _ rfl
    rw [address_make]
    exact new
  · rintro _ rfl
    rw [address_make]
    exact mem_cons_self
  · rintro _ rfl other o deletes
    rw [address_make]
    have known : o < s.next := (inv.inside other o (by rw [show s.place other = _ from deletes]; rfl)).1
    exact known.ne'

theorem Inv.goPushing (inv : s.Inv) (here : s.place thread = .pushing e) :
    Inv { s.move thread (.pushLocked e) with lock := some thread } := by
  have pushes : (s.place thread).Pushes e := by rw [here]; rfl
  refine inv.move ⟨?_, ?_, by nofun, ?_⟩ (some thread)
  · rintro _ rfl
    exact inv.inside thread e.address (by rw [here]; rfl)
  · rintro _ rfl
    exact inv.creator thread e pushes
  · rintro _ rfl other o deletes
    exact inv.apart other o thread e deletes pushes

theorem Inv.goPushLocked (inv : s.Inv) (here : s.place thread = .pushLocked e) :
    Inv { s.move thread .unlocking with mElements := s.mElements ++ [e] } := by
  have live := inv.inside thread e.address (by rw [here]; rfl)
  have pushed : Inv { s with mElements := s.mElements ++ [e] } :=
    { inv with
      table := forall_mem_append.mpr ⟨inv.table, forall_mem_singleton.mpr live⟩
      removed := fun other o deletes => forall_mem_append.mpr ⟨inv.removed other o deletes,
        forall_mem_singleton.mpr (inv.apart other o thread e deletes (by rw [here]; rfl))⟩ }
  exact pushed.move (allows_rest fun _ => id) s.lock

theorem Inv.go (inv : s.Inv) (clean : s.Clean (.go thread)) (moved : s.go thread = some next) : next.Inv := by
  cases here : s.place thread with
  | idle => simp [State.go, here] at moved
  | decreased kind o =>
    rw [State.go, here] at moved
    cases moved
    exact inv.move (allows_ite (inv.inside thread o (by rw [here]; rfl)) (fun _ => id) (fun _ => id) (by nofun) fun _ => id) s.lock
  | locking o =>
    simp only [State.go, here, ite_none_right_eq_some, Option.some.injEq] at moved
    obtain ⟨_, rfl⟩ := moved
    have live := inv.inside thread o (by rw [here]; rfl)
    exact inv.move (allows_reading live (fun _ => id) (fun _ => id) (by nofun)) (some thread)
  | checkingUser o =>
    rw [State.go, here] at moved
    cases moved
    exact inv.move (allows_ite (inv.inside thread o (by rw [here]; rfl)) (fun _ => id) (fun _ => id) (by nofun) fun _ => id) s.lock
  | checkingSys o =>
    rw [State.go, here] at moved
    cases moved
    split
    case isTrue zero => exact inv.goCheckingSys here zero
    case isFalse => exact inv.move (allows_rest fun _ => id) s.lock
  | deleting o =>
    rw [State.go, here] at moved
    cases moved
    obtain ⟨unheld, alone⟩ := clean o here
    exact inv.goDeleting here unheld alone
  | scanning req ct =>
    cases there : s.mElements[ct]? with
    | none =>
      simp only [State.go, here, there, Option.some.injEq] at moved
      subst moved
      exact inv.move (allows_rest fun _ => id) none
    | some e =>
      simp only [State.go, here, there, Option.some.injEq] at moved
      subst moved
      exact inv.goScanning there
  | found e =>
    rw [State.go, here] at moved
    cases moved
    exact inv.goFound here
  | missed req =>
    rw [State.go, here] at moved
    cases moved
    exact inv.goMissed req
  | pushing e =>
    simp only [State.go, here, ite_none_right_eq_some, Option.some.injEq] at moved
    obtain ⟨_, rfl⟩ := moved
    exact inv.goPushing here
  | pushLocked e =>
    rw [State.go, here] at moved
    cases moved
    exact inv.goPushLocked here
  | unlocking =>
    rw [State.go, here] at moved
    cases moved
    exact inv.move (allows_rest fun _ => id) none

omit [DecidableEq Thread] in
theorem Inv.live_of_held (inv : s.Inv) (held : (thread, .user, o) ∈ s.refs ∨ (thread, .sys, o) ∈ s.refs) : s.Live o := by
  rcases held with held | held
  · exact inv.refs _ held
  · exact inv.refs _ held

theorem Inv.step (inv : s.Inv) (clean : s.Clean act) (moved : s.step act = some next) : next.Inv := by
  cases act with
  | inc thread kind o =>
    obtain ⟨⟨_, held⟩, made⟩ := ite_none_right_eq_some.mp moved
    cases made
    exact inv.addRef (inv.live_of_held held) kind
  | dec thread kind o =>
    obtain ⟨⟨free, held⟩, made⟩ := ite_none_right_eq_some.mp moved
    cases made
    exact (inv.dropRef (idle_of_free free) held).move (allows_ite (inv.refs _ held) (fun _ => id) (fun _ => id) (by nofun) fun _ => id) s.lock
  | give thread receiver kind o =>
    obtain ⟨⟨free, held⟩, made⟩ := ite_none_right_eq_some.mp moved
    cases made
    exact inv.give (idle_of_free free) held
  | lookup thread req =>
    obtain ⟨_, made⟩ := ite_none_right_eq_some.mp moved
    cases made
    exact inv.move (allows_rest fun _ => id) (some thread)
  | go thread => exact inv.go clean moved

theorem Inv.steps (inv : s.Inv) (moved : s.step act = some next) (touches : s.Touches act o) : s.deletions o = 0 := by
  cases act with
  | inc thread kind p =>
    obtain ⟨⟨_, held⟩, _⟩ := ite_none_right_eq_some.mp moved
    cases touches
    exact (inv.live_of_held held).2
  | dec thread kind p =>
    obtain ⟨⟨_, held⟩, _⟩ := ite_none_right_eq_some.mp moved
    cases touches
    exact (inv.refs _ held).2
  | give | lookup => cases touches
  | go thread =>
    have inside := fun inside => (inv.inside thread o inside).2
    cases here : s.place thread with
    | decreased | checkingUser | checkingSys | deleting | found =>
      simp only [Touches, here] at touches
      rw [here] at inside
      exact inside touches
    | scanning req ct =>
      simp only [Touches, here] at touches
      obtain ⟨e, there, rfl⟩ := touches
      exact (inv.table e (mem_of_getElem? there)).2
    | idle | locking | missed | pushing | pushLocked | unlocking => simp [Touches, here] at touches

theorem Inv.safe (inv : s.Inv) : s.Safe where
  once := inv.once
  steps _ _ _ moved touches := inv.steps moved touches
  calls thread o inside := (inv.inside thread o inside).2
  held ref member := (inv.refs ref member).2

theorem clean_of_safe (moved : s.step act = some next) (safe : next.Safe) : s.Clean act := by
  cases act with
  | go thread =>
    intro o here
    simp only [State.step, State.go, here, Option.some.injEq] at moved
    subst moved
    have deleted : Function.update s.deletions o (s.deletions o + 1) o ≠ 0 := by
      rw [update_self]
      exact Nat.succ_ne_zero _
    constructor
    · rintro ref mem rfl
      exact deleted (safe.held ref mem)
    · intro other ne inside
      refine deleted (safe.calls other o ?_)
      show Inside (Function.update s.place thread .idle other) o
      rwa [update_of_ne ne]
  | _ => trivial

end State

/-- Reference counting is safe in exactly the runs in which each object is deleted when nobody
has a reference to it any more and no other thread is in a call on it. -/
theorem safe_throughout_iff {Thread : Type} [DecidableEq Thread] {acts : List (Act Thread)}
    {s : State Thread} (run : Run State.step Anyhow {} acts s) :
    Throughout State.step Anyhow {} State.Safe acts ↔ Run State.step State.Clean {} acts s :=
  run.throughout_iff_of_invariant State.Inv .start State.Inv.safe (fun inv clean moved => inv.step clean moved)
    fun _ => State.clean_of_safe

def makeElement (thread : Bool) : List (Act Bool) :=
  .lookup thread (.component .float32 .user false 1) :: .replicate 5 (.go thread)

def dropAlone : List (Act Bool) := makeElement true ++ .dec true .sys 0 :: .replicate 5 (.go true)

/-- One thread has the last user reference, another one the last system reference. Both
subtract before either reads the other counter. -/
def dropTogether : List (Act Bool) :=
  makeElement true ++
    [.inc true .user 0, .give true false .user 0, .dec true .sys 0, .dec false .user 0, .go true, .go false] ++
    .replicate 4 (.go true) ++ .replicate 4 (.go false)

/-- A look-up finds the element while its last reference is released, and drops it again. -/
def dropRevived : List (Act Bool) :=
  makeElement true ++
    [.dec true .sys 0, .lookup false (.component .float32 .user false 1), .go false, .go false, .go false,
      .dec false .sys 0] ++ .replicate 5 (.go false)

instance (place : Place) (o : Nat) : Decidable (State.Inside place o) :=
  match place with
  | .decreased _ p | .locking p | .checkingUser p | .checkingSys p | .deleting p =>
    inferInstanceAs (Decidable (p = o))
  | .found e | .pushing e | .pushLocked e => inferInstanceAs (Decidable (e.address = o))
  | .idle | .scanning _ _ | .missed _ | .unlocking => inferInstanceAs (Decidable False)

def Place.deletes : Place → Option Nat
  | .deleting o => some o
  | _ => none

theorem Place.deletes_iff : place.deletes = some o ↔ place = .deleting o := by
  cases place <;> simp [Place.deletes]

instance (s : State Bool) : (act : Act Bool) → Decidable (s.Clean act)
  | .go thread =>
    decidable_of_iff (∀ o ∈ (s.place thread).deletes,
      (∀ ref ∈ s.refs, ref.2.2 ≠ o) ∧ ∀ other, other ≠ thread → ¬State.Inside (s.place other) o)
      (forall_congr' fun _ => imp_congr_left Place.deletes_iff)
  | .inc _ _ _ | .dec _ _ _ | .give _ _ _ _ | .lookup _ _ => .isTrue trivial

theorem safe_throughout_alone : Throughout State.step Anyhow {} State.Safe dropAlone :=
  throughout_of_perform safe_throughout_iff (by decide +kernel)

/-- Two deletions of one object, and a read of an object that is gone. -/
theorem deleted_twice : (∃ s, Run State.step Anyhow {} dropTogether s ∧ s.deletions 0 = 2 ∧ ¬s.Safe) ∧
    ∃ s next, Run State.step Anyhow {} dropRevived s ∧ s.deletions 0 = 1 ∧
      s.step (.go true) = some next ∧ s.Touches (.go true) 0 ∧ ¬s.Safe := by
  constructor
  · obtain ⟨s, run, deletions⟩ : ∃ s, Run State.step Anyhow {} dropTogether s ∧ s.deletions 0 = 2 :=
      exists_run_of_perform (by decide +kernel)
    refine ⟨s, run, deletions, fun safe => ?_⟩
    have once := safe.once 0
    rw [deletions] at once
    exact absurd once (by decide)
  · have shown : ((perform State.step Anyhow {} dropRevived).map fun s =>
        (s.deletions 0, s.place true matches .decreased .sys 0)) = some (1, true) := by
      decide +kernel
    obtain ⟨s, performed, seen⟩ := map_eq_some_iff.mp shown
    obtain ⟨deletions, place⟩ := Prod.mk.inj seen
    have here : s.place true = .decreased .sys 0 := by
      split at place
      case h_1 here => exact here
      case h_2 => cases place
    have touches : s.Touches (.go true) 0 := by simp [State.Touches, here]
    obtain ⟨next, moves⟩ : ∃ next, s.step (.go true) = some next := ⟨_, by simp only [State.step, State.go, here]; rfl⟩
    refine ⟨s, next, run_of_perform performed, deletions, moves, touches, fun safe => ?_⟩
    have alive := safe.steps _ _ 0 moves touches
    rw [deletions] at alive
    cases alive

end

end RenderScript.References
