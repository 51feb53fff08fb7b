import Mathlib

/-!
# Zeroing all user references

`zeroAllUserRef` of rsObjectBase.cpp walks the list of all objects while it destroys some of them.
An access to an object that is destroyed has no result.
-/

namespace RenderScript.ZeroUserRefs
open List Function

/-- `objects` is the list at `mObjHead`, and `holds` has the objects that an object has system references to. -/
structure Context where
  objects : List Nat
  mUserRefCount : Nat → Int
  mSysRefCount : Nat → Int
  holds : Nat → List Nat

namespace Context

def remove (s : Context) (o : Nat) : Context := { s with objects := s.objects.erase o }

/-- `delete` runs the destructor, which releases what the object holds. -/
def checkDelete (decSysRef : Context → Nat → Option Context) (s : Context) (o : Nat) : Option (Bool × Context) :=
  if s.mUserRefCount o ≠ 0 ∨ s.mSysRefCount o ≠ 0 then some (false, s)
  else do
    let after ← (s.holds o).foldlM decSysRef (s.remove o)
    return (true, after)

def decSysRef : Nat → Context → Nat → Option Context
  | 0, _, _ => none
  | fuel + 1, s, o =>
    if o ∈ s.objects then
      let after := { s with mSysRefCount := Function.update s.mSysRefCount o (s.mSysRefCount o - 1) }
      if s.mSysRefCount o ≤ 1 ∧ s.mUserRefCount o ≤ 0 then (checkDelete (decSysRef fuel) after o).map Prod.snd
      else some after
    else none

def zeroUserRef (s : Context) (o : Nat) : Option (Bool × Context) :=
  if o ∈ s.objects then
    let after := { s with mUserRefCount := Function.update s.mUserRefCount o 0 }
    if s.mSysRefCount o ≤ 0 then checkDelete (decSysRef s.objects.length) after o else some (false, after)
  else none

def mNext (s : Context) (o : Nat) : Option Nat :=
  if o ∈ s.objects then (s.objects.dropWhile (· != o))[1]? else none

/-- The loop, for as many rounds as there is fuel. -/
def walk : Nat → Context → Option Nat → Option Context
  | _, s, none => some s
  | 0, _, some _ => none
  | fuel + 1, s, some o => do
      let (deleted, s) ← s.zeroUserRef o
      if deleted then walk fuel s s.objects.head?
      else if o ∈ s.objects then walk fuel s (s.mNext o) else none

def zeroAllUserRef (fuel : Nat) (s : Context) : Option Context := walk fuel s s.objects.head?

/-- Each system reference is held by an object of the list or from outside, or is still to be released. -/
structure Counted (outside : Nat → Nat) (due : List Nat) (s : Context) : Prop where
  once : s.objects.Nodup
  count : ∀ o, s.mSysRefCount o =
    (outside o + due.count o + (s.objects.map fun p => (s.holds p).count o).sum : Nat)
  due_live : ∀ o ∈ due, o ∈ s.objects
  held_live : ∀ p ∈ s.objects, ∀ o ∈ s.holds p, o ∈ s.objects

variable {s : Context} {o : Nat} {outside : Nat → Nat} {due pending : List Nat} {fuel : Nat}

theorem Counted.drop (counted : s.Counted outside (o :: due)) :
    Counted outside due { s with mSysRefCount := Function.update s.mSysRefCount o (s.mSysRefCount o - 1) } where
  once := counted.once
  count := by
    intro p
    have before := counted.count p
    dsimp only
    by_cases eq : p = o
    · subst eq
      rw [count_cons_self] at before
      rw [update_self]
      omega
    · rw [update_of_ne eq, before, count_cons_of_ne (Ne.symm eq)]
  due_live := fun p mem => counted.due_live p (mem_cons_of_mem o mem)
  held_live := counted.held_live

/-- An object without references leaves those it holds to be released. -/
theorem Counted.remove (counted : s.Counted outside due) (live : o ∈ s.objects) (zero : s.mSysRefCount o = 0) :
    (s.remove o).Counted outside (s.holds o ++ due) := by
  have count := counted.count o
  have notDue : o ∉ due := by
    rw [← count_eq_zero]
    omega
  have unheld (p : Nat) (isIn : p ∈ s.objects) : o ∉ s.holds p := by
    rw [← count_eq_zero]
    have part := single_le_sum (fun _ _ => Nat.zero_le _) _ (mem_map_of_mem (f := fun p => (s.holds p).count o) isIn)
    omega
  refine ⟨counted.once.erase o, fun p => ?_, fun p mem => ?_, fun p left q held => ?_⟩
  · have sum := (perm_cons_erase live).map (fun q => (s.holds q).count p) |>.sum_eq
    rw [map_cons, sum_cons] at sum
    have before := counted.count p
    simp only [Context.remove, count_append]
    omega
  · rw [Context.remove, mem_erase_of_ne]
    · rcases mem_append.mp mem with held | owed
      · exact counted.held_live o live p held
      · exact counted.due_live p owed
    · rintro rfl
      rcases mem_append.mp mem with held | owed
      · exact unheld p live held
      · exact notDue owed
  · have isIn := mem_of_mem_erase left
    refine (mem_erase_of_ne ?_).mpr (counted.held_live p isIn q held)
    rintro rfl
    exact unheld p isIn held

/-- What is due can be released without touching an object that is gone. -/
def Releases (outside : Nat → Nat) (fuel : Nat) : Prop :=
  ∀ (s : Context) (pending due : List Nat), s.objects.length ≤ fuel → s.Counted outside (pending ++ due) →
    ∃ after, pending.foldlM (decSysRef fuel) s = some after ∧ after.Counted outside due ∧
      after.objects.length ≤ s.objects.length

theorem Releases.checkDelete (releases : Releases outside fuel) (few : s.objects.length ≤ fuel + 1)
    (counted : s.Counted outside due) (live : o ∈ s.objects) :
    (s.mUserRefCount o ≠ 0 ∨ s.mSysRefCount o ≠ 0) ∧ s.checkDelete (decSysRef fuel) o = some (false, s) ∨
      ∃ after, s.checkDelete (decSysRef fuel) o = some (true, after) ∧ after.Counted outside due ∧
        after.objects.length < s.objects.length := by
  rw [Context.checkDelete]
  split
  case isTrue used => exact .inl ⟨used, rfl⟩
  case isFalse unused =>
    have shorter : (s.remove o).objects.length + 1 = s.objects.length := length_erase_add_one live
    obtain ⟨after, released, counted, less⟩ := releases _ (s.holds o) due (by omega) (counted.remove live (by omega))
    exact .inr ⟨after, by rw [released]; rfl, counted, by omega⟩

theorem releases (out : Nat → Nat) (fuel : Nat) : Releases out fuel := by
  induction fuel with
  | zero =>
    intro s pending due few counted
    cases pending with
    | nil => exact ⟨s, rfl, counted, Nat.le_refl _⟩
    | cons o rest =>
      have live := length_pos_of_mem (counted.due_live o mem_cons_self)
      omega
  | succ fuel shallower =>
    intro s pending due few counted
    induction pending generalizing s with
    | nil => exact ⟨s, rfl, counted, Nat.le_refl _⟩
    | cons o rest ih =>
      have live := counted.due_live o mem_cons_self
      have dropped := counted.drop
      -- whether the object is destroyed or not, the rest is released behind it
      obtain ⟨mid, first, counted, less⟩ : ∃ mid, decSysRef (fuel + 1) s o = some mid ∧
          mid.Counted out (rest ++ due) ∧ mid.objects.length ≤ s.objects.length := by
        rw [decSysRef, if_pos live]
        dsimp only
        split
        case isTrue =>
          rcases shallower.checkDelete (by exact few) dropped live with ⟨-, kept⟩ | ⟨after, deleted, counted, less⟩
          · exact ⟨_, by rw [kept]; rfl, dropped, Nat.le_refl _⟩
          · exact ⟨after, by rw [deleted]; rfl, counted, less.le⟩
        case isFalse => exact ⟨_, rfl, dropped, Nat.le_refl _⟩
      obtain ⟨after, later, counted, fewer⟩ := ih mid (by omega) counted
      exact ⟨after, by rw [foldlM_cons, first]; exact later, counted, by omega⟩

/-- Zeroed objects that stay. -/
def Kept (s : Context) (o : Nat) : Prop := s.mUserRefCount o = 0 ∧ 0 < s.mSysRefCount o

theorem Counted.walk (counted : s.Counted outside []) {before rest : List Nat}
    (split : s.objects = before ++ rest) (kept : ∀ o ∈ before, s.Kept o) :
    ∃ fuel after, walk fuel s rest.head? = some after ∧ ∀ o ∈ after.objects, after.Kept o := by
  -- a round that destroys an object leaves fewer, and the others come closer to the end of the list
  induction size : s.objects.length using Nat.strong_induction_on generalizing s before rest with
  | _ size shorter =>
    induction rest generalizing s before with
    | nil => exact ⟨0, s, rfl, by rwa [split, append_nil]⟩
    | cons o behind ih =>
      have live : o ∈ s.objects := split ▸ mem_append_right _ mem_cons_self
      have zeroed : Counted outside [] { s with mUserRefCount := Function.update s.mUserRefCount o 0 } :=
        ⟨counted.once, counted.count, counted.due_live, counted.held_live⟩
      by_cases unheld : s.mSysRefCount o ≤ 0
      · have count := counted.count o
        rcases (releases outside s.objects.length).checkDelete (by exact Nat.le_succ _) zeroed live with
          ⟨used, -⟩ | ⟨after, deleted, counted, less⟩
        · simp at used
          omega
        · obtain ⟨fuel, final, walked, all⟩ := shorter _ (size ▸ less) counted (nil_append _).symm (by simp) rfl
          refine ⟨fuel + 1, final, ?_, all⟩
          rw [List.head?_cons, Context.walk, zeroUserRef, if_pos live, if_pos unheld, deleted]
          exact walked
      · have next : mNext { s with mUserRefCount := Function.update s.mUserRefCount o 0 } o = behind.head? := by
          have fresh : o ∉ before := fun earlier => by
            have once := split ▸ counted.once
            exact (nodup_append.mp once).2.2 o earlier o mem_cons_self rfl
          have dropped : (before ++ o :: behind).dropWhile (· != o) = o :: behind := by
            rw [dropWhile_append_of_pos]
            · simp
            · intro p mem
              simpa using ne_of_mem_of_not_mem mem fresh
          rw [mNext, if_pos live]
          dsimp only
          rw [split, dropped]
          exact List.head?_eq_getElem?.symm
        have all : ∀ p ∈ before ++ [o], Kept { s with mUserRefCount := Function.update s.mUserRefCount o 0 } p := by
          intro p mem
          by_cases eq : p = o
          · subst eq
            exact ⟨update_self .., not_le.mp unheld⟩
          · have earlier : p ∈ before := by simpa [eq] using mem
            exact ⟨(update_of_ne eq ..).trans (kept p earlier).1, (kept p earlier).2⟩
        obtain ⟨fuel, final, walked, all⟩ := ih zeroed (by simpa using split) all size
        refine ⟨fuel + 1, final, ?_, all⟩
        rw [List.head?_cons, Context.walk, zeroUserRef, if_pos live, if_neg unheld]
        simp [live, next, walked]

theorem zeroAllUserRef_ends (counted : s.Counted outside []) : ∃ fuel after, s.zeroAllUserRef fuel = some after ∧
      ∀ o ∈ after.objects, after.mUserRefCount o = 0 ∧ 0 < after.mSysRefCount o :=
  counted.walk (nil_append _).symm (by simp)

/-- An object with a user reference that holds another. -/
theorem zeroAllUserRef_ends_pair : ∃ fuel after,
    zeroAllUserRef fuel ⟨[1, 2], fun _ => 1, fun o => if o = 2 then 1 else 0, fun o => if o = 1 then [2] else []⟩ =
        some after ∧ ∀ o ∈ after.objects, after.mUserRefCount o = 0 ∧ 0 < after.mSysRefCount o := by
  refine @zeroAllUserRef_ends _ (fun _ => 0) ⟨by decide, fun o => ?_, by simp, by decide⟩
  by_cases eq : o = 2
  · simp [eq]
  · simp [eq, Ne.symm eq]

end Context

end RenderScript.ZeroUserRefs
