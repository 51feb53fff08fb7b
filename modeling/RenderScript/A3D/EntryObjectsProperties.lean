import RenderScript.A3D.EntryObjects

/-!
# Who keeps the objects of a file alive
-/

namespace RenderScript.A3D
open Elements Interleaving List Function

/-!
## Steps that leave user references alone
-/

structure Heap.Quiet (h after : Heap) : Prop where
  next : after.next = h.next
  what : ∀ o, (after.object o).what = (h.object o).what
  owns : ∀ o, (after.object o).owns = (h.object o).owns
  user : ∀ o, (after.object o).mUserRefCount = (h.object o).mUserRefCount
  alive : ∀ o, (h.object o).mUserRefCount ≠ 0 → (after.object o).destroyed = (h.object o).destroyed

structure Heap.Apart (o : Nat) (h : Heap) : Prop where
  born : o < h.next
  unowned : ∀ p, o ∉ (h.object p).owns
  what : (h.object o).what = .allocation ∨ (h.object o).what = .mesh

def Heap.Spares (o : Nat) (h after : Heap) : Prop :=
  h.Apart o → after.Apart o ∧ after.object o = h.object o

namespace Heap

variable {act : Heap → Nat → Heap} {f : Object → Object} {h middle after : Heap} {o p : Nat}

theorem Quiet.refl (h : Heap) : Quiet h h := ⟨rfl, fun _ => rfl, fun _ => rfl, fun _ => rfl, fun _ _ => rfl⟩

theorem Quiet.trans (first : Quiet h middle) (second : Quiet middle after) : Quiet h after where
  next := second.next.trans first.next
  what o := (second.what o).trans (first.what o)
  owns o := (second.owns o).trans (first.owns o)
  user o := (second.user o).trans (first.user o)
  alive o counted := by
    rw [second.alive o (by rw [first.user o]; exact counted), first.alive o counted]

theorem Spares.refl (o : Nat) (h : Heap) : Spares o h h := fun apart => ⟨apart, rfl⟩

theorem Spares.trans (first : Spares o h middle) (second : Spares o middle after) : Spares o h after := by
  intro apart
  obtain ⟨apart, eq⟩ := first apart
  obtain ⟨apart, still⟩ := second apart
  exact ⟨apart, still.trans eq⟩

theorem change_self (f : Object → Object) : (h.change o f).object o = f (h.object o) := update_self ..

theorem change_of_ne (f : Object → Object) (ne : p ≠ o) : (h.change o f).object p = h.object p := update_of_ne ne ..

theorem forall_change (Holds : Nat → Object → Prop)
    (here : Holds o (f (h.object o))) (elsewhere : ∀ p, p ≠ o → Holds p (h.object p)) (p : Nat) :
    Holds p ((h.change o f).object p) := by
  rcases eq_or_ne p o with rfl | ne
  · rw [change_self]
    exact here
  · rw [change_of_ne f ne]
    exact elsewhere p ne

theorem change_apart (f : Object → Object) (what : ∀ x, (f x).what = x.what)
    (owns : ∀ x, (f x).owns = x.owns) (apart : h.Apart o) (p : Nat) : (h.change p f).Apart o where
  born := apart.born
  unowned := forall_change (fun _ x => o ∉ x.owns) (by rw [owns]; exact apart.unowned p) fun q _ =>
    apart.unowned q
  what := by
    rcases eq_or_ne o p with rfl | ne
    · rw [change_self, what]
      exact apart.what
    · rw [change_of_ne f ne]
      exact apart.what

theorem change_spares (what : ∀ x, (f x).what = x.what)
    (owns : ∀ x, (f x).owns = x.owns) (ne : p ≠ o) : Spares o h (h.change p f) := fun apart =>
  ⟨change_apart f what owns apart p, change_of_ne f ne.symm⟩

theorem change_quiet (what : ∀ x, (f x).what = x.what)
    (owns : ∀ x, (f x).owns = x.owns) (user : ∀ x, (f x).mUserRefCount = x.mUserRefCount)
    (alive : (h.object o).mUserRefCount ≠ 0 → (f (h.object o)).destroyed = (h.object o).destroyed) :
    Quiet h (h.change o f) where
  next := rfl
  what := forall_change (fun p x => x.what = (h.object p).what) (what _) fun _ _ => rfl
  owns := forall_change (fun p x => x.owns = (h.object p).owns) (owns _) fun _ _ => rfl
  user := forall_change (fun p x => x.mUserRefCount = (h.object p).mUserRefCount) (user _) fun _ _ => rfl
  alive := forall_change
    (fun p x => (h.object p).mUserRefCount ≠ 0 → x.destroyed = (h.object p).destroyed) alive fun _ _ _ => rfl

theorem foldl_quiet (one : ∀ h o, Quiet h (act h o)) (objects : List Nat) (h : Heap) : Quiet h (objects.foldl act h) := by
  induction objects generalizing h with
  | nil => exact .refl h
  | cons o rest ih => exact (one h o).trans (ih (act h o))

theorem foldl_spares (one : ∀ h p, p ≠ o → Spares o h (act h p))
    (objects : List Nat) (h : Heap) (others : o ∉ objects) : Spares o h (objects.foldl act h) := by
  induction objects generalizing h with
  | nil => exact .refl o h
  | cons p rest ih =>
    rw [mem_cons, not_or] at others
    exact (one h p (Ne.symm others.1)).trans (ih (act h p) others.2)

/-!
## `checkDelete` and its callers
-/

theorem incSysRef_quiet (h : Heap) (o : Nat) : Quiet h (h.incSysRef o) :=
  change_quiet (fun _ => rfl) (fun _ => rfl) (fun _ => rfl) fun _ => rfl

theorem decSysRefThen_quiet {checkDelete : Heap → Nat → Heap} (one : ∀ h o, Quiet h (checkDelete h o))
    (h : Heap) (o : Nat) : Quiet h (decSysRefThen checkDelete h o) := by
  have counted : Quiet h (h.change o fun x => { x with mSysRefCount := x.mSysRefCount - 1 }) :=
    change_quiet (fun _ => rfl) (fun _ => rfl) (fun _ => rfl) fun _ => rfl
  dsimp only [decSysRefThen]
  split
  · exact counted.trans (one _ o)
  · exact counted

theorem checkDelete_quiet (fuel : Nat) (h : Heap) (o : Nat) : Quiet h (checkDelete fuel h o) := by
  induction fuel generalizing h o with
  | zero => exact .refl h
  | succ fuel ih =>
    rw [checkDelete]
    split
    case isTrue => exact .refl h
    case isFalse unused =>
      have gone : Quiet h (h.change o fun x => { x with destroyed := true }) :=
        change_quiet (fun _ => rfl) (fun _ => rfl) (fun _ => rfl) fun counted =>
          absurd (.inl counted) unused
      exact gone.trans (foldl_quiet (decSysRefThen_quiet ih) _ _)

theorem decSysRef_quiet (h : Heap) (o : Nat) : Quiet h (h.decSysRef o) := decSysRefThen_quiet (checkDelete_quiet h.next) h o

theorem incSysRef_spares (h : Heap) (ne : p ≠ o) : Spares o h (h.incSysRef p) :=
  change_spares (fun _ => rfl) (fun _ => rfl) ne

theorem incUserRef_spares (h : Heap) (ne : p ≠ o) : Spares o h (h.incUserRef p) :=
  change_spares (fun _ => rfl) (fun _ => rfl) ne

theorem decSysRefThen_spares {checkDelete : Heap → Nat → Heap}
    (one : ∀ h p, p ≠ o → Spares o h (checkDelete h p)) (h : Heap) (p : Nat) (ne : p ≠ o) :
    Spares o h (decSysRefThen checkDelete h p) := by
  have counted : Spares o h (h.change p fun x => { x with mSysRefCount := x.mSysRefCount - 1 }) :=
    change_spares (fun _ => rfl) (fun _ => rfl) ne
  dsimp only [decSysRefThen]
  split
  · exact counted.trans (one _ p ne)
  · exact counted

theorem checkDelete_spares (fuel : Nat) (h : Heap) (p : Nat) (ne : p ≠ o) : Spares o h (checkDelete fuel h p) := by
  induction fuel generalizing h p with
  | zero => exact .refl o h
  | succ fuel ih =>
    intro apart
    have gone : Spares o h (h.change p fun x => { x with destroyed := true }) :=
      change_spares (fun _ => rfl) (fun _ => rfl) ne
    rw [checkDelete]
    split
    case isTrue => exact ⟨apart, rfl⟩
    case isFalse =>
      exact (gone.trans (foldl_spares (decSysRefThen_spares ih) _ _ (apart.unowned p))) apart

theorem decSysRef_spares (h : Heap) (p : Nat) (ne : p ≠ o) : Spares o h (h.decSysRef p) :=
  decSysRefThen_spares (checkDelete_spares h.next) h p ne

theorem decUserRef_spares (h : Heap) (p : Nat) (ne : p ≠ o) : Spares o h (h.decUserRef p) := by
  have counted : Spares o h (h.change p fun x => { x with mUserRefCount := x.mUserRefCount - 1 }) :=
    change_spares (fun _ => rfl) (fun _ => rfl) ne
  dsimp only [decUserRef]
  split
  · exact counted.trans (checkDelete_spares _ _ p ne)
  · exact counted

theorem decUserRef_apart (apart : h.Apart o) (unshared : (h.object o).mSysRefCount = 0)
    (counted : 0 < (h.object o).mUserRefCount) :
    (h.decUserRef o).Apart o ∧ ((h.decUserRef o).object o).mSysRefCount = 0 ∧
      ((h.decUserRef o).object o).mUserRefCount = (h.object o).mUserRefCount - 1 ∧
      (((h.decUserRef o).object o).mUserRefCount = 0 → ((h.decUserRef o).object o).destroyed = true) := by
  have before := change_apart (fun x => { x with mUserRefCount := x.mUserRefCount - 1 }) (fun _ => rfl) (fun _ => rfl) apart o
  dsimp only [decUserRef]
  split
  case isTrue last =>
    obtain ⟨fuel, enough⟩ := Nat.exists_eq_succ_of_ne_zero (ne_of_gt (Nat.zero_lt_of_lt apart.born))
    have zero : (h.object o).mUserRefCount - 1 = 0 := by omega
    have gone := change_apart (fun x => { x with destroyed := true }) (fun _ => rfl) (fun _ => rfl) before o
    obtain ⟨after, eq⟩ := foldl_spares (decSysRefThen_spares (checkDelete_spares fuel)) _ _ (before.unowned o) gone
    rw [enough, checkDelete, if_neg (by simp [change_self, zero, unshared])]
    refine ⟨after, ?_⟩
    rw [eq, change_self, change_self]
    exact ⟨unshared, rfl, fun _ => rfl⟩
  case isFalse more =>
    refine ⟨before, ?_⟩
    rw [change_self]
    exact ⟨unshared, rfl, fun zero => absurd ⟨by dsimp only at zero; omega, by omega⟩ more⟩

/-!
## References that are due
-/

/-- There are at least the user references that are `due`, and they keep their objects alive. -/
structure Guards (due : Nat → Nat) (h : Heap) : Prop where
  counted : ∀ o, (due o : Int) ≤ (h.object o).mUserRefCount
  alive : ∀ o, 0 < (h.object o).mUserRefCount → (h.object o).destroyed = false
  unborn : ∀ o, h.next ≤ o → (h.object o).mUserRefCount = 0
  closed : ∀ o, ∀ child ∈ (h.object o).owns, child < h.next

def also (due : Nat → Nat) (objects : List Nat) (o : Nat) : Nat := due o + objects.count o

section

variable {objects : List Nat} {due less : Nat → Nat}

theorem Guards.mono (guards : h.Guards due) (fewer : ∀ o, less o ≤ due o) : h.Guards less :=
  { guards with
    counted := fun o => by
      have enough := guards.counted o
      have bound := fewer o
      omega }

theorem Guards.alive_of_due (guards : h.Guards due) (wanted : 0 < due o) : (h.object o).destroyed = false := by
  have enough := guards.counted o
  exact guards.alive o (by omega)

theorem Guards.born_of_due (guards : h.Guards due) (wanted : 0 < due o) : o < h.next := by
  have enough := guards.counted o
  by_contra unborn
  have zero := guards.unborn o (Nat.le_of_not_lt unborn)
  omega

theorem Guards.not_due (guards : h.Guards due) (unborn : h.next ≤ o) : due o = 0 := by
  have enough := guards.counted o
  have zero := guards.unborn o unborn
  omega

theorem Guards.quiet (guards : h.Guards due) (quiet : h.Quiet after) : after.Guards due where
  counted o := by
    rw [quiet.user o]
    exact guards.counted o
  alive o counted := by
    rw [quiet.user o] at counted
    rw [quiet.alive o (Int.ne_of_gt counted)]
    exact guards.alive o counted
  unborn o unborn := by
    rw [quiet.user o]
    exact guards.unborn o (quiet.next ▸ unborn)
  closed o := by
    rw [quiet.owns o, quiet.next]
    exact guards.closed o

theorem mem_also (mem : o ∈ objects) : 0 < also due objects o :=
  lt_of_lt_of_le (count_pos_iff.mpr mem) (Nat.le_add_left _ _)

theorem also_self : also due [o] o = due o + 1 := congrArg (due o + ·) count_singleton_self

theorem also_of_ne (ne : p ≠ o) : also due [o] p = due p :=
  congrArg (due p + ·) (count_eq_zero.mpr fun mem => ne (mem_singleton.mp mem))

theorem also_cons (o : Nat) (objects : List Nat) : also due (o :: objects) = also (also due objects) [o] := by
  funext p
  simp only [also, count_cons, count_nil]
  omega

theorem also_comm (first second : List Nat) : also (also due first) second = also (also due second) first := by
  funext o
  exact add_right_comm ..

theorem incUserRef_guards (guards : h.Guards due) (alive : (h.object o).destroyed = false)
    (born : o < h.next) : (h.incUserRef o).Guards (also due [o]) where
  counted := forall_change (fun p x => (also due [o] p : Int) ≤ x.mUserRefCount) (by
      have enough := guards.counted o
      rw [also_self]
      dsimp only
      omega)
    fun p ne => by
      rw [also_of_ne ne]
      exact guards.counted p
  alive := forall_change (fun _ x => 0 < x.mUserRefCount → x.destroyed = false) (fun _ => alive) fun p _ =>
    guards.alive p
  unborn := forall_change (fun p x => h.next ≤ p → x.mUserRefCount = 0)
    (fun unborn => absurd born (Nat.not_lt_of_le unborn)) fun p _ => guards.unborn p
  closed := forall_change (fun _ x => ∀ child ∈ x.owns, child < h.next) (guards.closed o) fun p _ =>
    guards.closed p

theorem decUserRef_guards (guards : h.Guards (also due [o])) : (h.decUserRef o).Guards due := by
  have enough := guards.counted o
  rw [also_self] at enough
  have counted : (h.change o fun x => { x with mUserRefCount := x.mUserRefCount - 1 }).Guards due :=
    { counted := forall_change (fun p x => (due p : Int) ≤ x.mUserRefCount) (by dsimp only; omega)
        fun p _ => (guards.mono fun _ => Nat.le_add_right _ _).counted p
      alive := forall_change (fun _ x => 0 < x.mUserRefCount → x.destroyed = false)
        (fun _ => guards.alive o (by omega)) fun p _ => guards.alive p
      unborn := forall_change (fun p x => h.next ≤ p → x.mUserRefCount = 0)
        (fun unborn => by have zero := guards.unborn o unborn; omega) fun p _ => guards.unborn p
      closed := forall_change (fun _ x => ∀ child ∈ x.owns, child < h.next) (guards.closed o) fun p _ =>
        guards.closed p }
  dsimp only [decUserRef]
  split
  · exact counted.quiet (checkDelete_quiet _ _ o)
  · exact counted

theorem foldl_decUserRef_guards (guards : h.Guards (also due objects)) : (objects.foldl decUserRef h).Guards due := by
  induction objects generalizing h with
  | nil => exact guards
  | cons o rest ih =>
    rw [also_cons] at guards
    exact ih (decUserRef_guards guards)

/-!
## New objects
-/

variable {what : What} {owns : List Nat} {isMatch : Object → Bool}

def place (h : Heap) (what : What) (owns : List Nat) : Heap :=
  { object := Function.update h.object h.next { what := what, owns := owns }, next := h.next + 1 }

theorem place_self : (h.place what owns).object h.next = { what := what, owns := owns } := update_self ..

theorem place_of_ne (ne : o ≠ h.next) : (h.place what owns).object o = h.object o := update_of_ne ne ..

theorem forall_place (Holds : Nat → Object → Prop) (here : Holds h.next { what := what, owns := owns })
    (elsewhere : ∀ o, Holds o (h.object o)) (o : Nat) : Holds o ((h.place what owns).object o) := by
  rcases eq_or_ne o h.next with rfl | ne
  · rw [place_self]
    exact here
  · rw [place_of_ne ne]
    exact elsewhere o

theorem place_guards (guards : h.Guards due) (born : ∀ child ∈ owns, child < h.next) : (h.place what owns).Guards due where
  counted := forall_place (fun o x => (due o : Int) ≤ x.mUserRefCount)
    (by rw [guards.not_due le_rfl]; exact le_rfl) guards.counted
  alive := forall_place (fun _ x => 0 < x.mUserRefCount → x.destroyed = false) (fun _ => rfl) guards.alive
  unborn := forall_place (fun o x => h.next + 1 ≤ o → x.mUserRefCount = 0) (fun _ => rfl)
    fun o unborn => guards.unborn o (Nat.le_of_succ_le unborn)
  closed := forall_place (fun _ x => ∀ child ∈ x.owns, child < h.next + 1)
    (fun child owned => Nat.lt_succ_of_lt (born child owned))
    fun o child owned => Nat.lt_succ_of_lt (guards.closed o child owned)

theorem new_guards (what : What) (guards : h.Guards due) (born : ∀ child ∈ owns, child < h.next) :
    (h.new what owns).2.Guards due :=
  (place_guards guards born).quiet (foldl_quiet incSysRef_quiet owns _)

theorem new_next : (h.new what owns).2.next = h.next + 1 := (foldl_quiet incSysRef_quiet owns (h.place what owns)).next

theorem new_spares (what : What) (others : o ∉ owns) : Spares o h (h.new what owns).2 := by
  intro apart
  have eq : (h.place what owns).object o = h.object o := place_of_ne (ne_of_lt apart.born)
  have placed : (h.place what owns).Apart o :=
    { born := Nat.lt_succ_of_lt apart.born, unowned := forall_place (fun _ x => o ∉ x.owns) others apart.unowned
      what := eq ▸ apart.what }
  obtain ⟨after, still⟩ := foldl_spares (fun h _ => incSysRef_spares h) owns _ others placed
  exact ⟨after, still.trans eq⟩

theorem new_apart (guards : h.Guards due) (born : ∀ child ∈ owns, child < h.next) (kind : what = .allocation ∨ what = .mesh) :
    (h.new what owns).2.Apart h.next ∧ (h.new what owns).2.object h.next = { what := what, owns := owns } := by
  have others : h.next ∉ owns := fun owned => lt_irrefl _ (born _ owned)
  have placed : (h.place what owns).Apart h.next :=
    { born := Nat.lt_succ_self _, unowned := forall_place (fun _ x => h.next ∉ x.owns) others
        fun o owned => lt_irrefl _ (guards.closed o _ owned)
      what := by
        rw [place_self]
        exact kind }
  obtain ⟨after, still⟩ := foldl_spares (fun h _ => incSysRef_spares h) owns _ others placed
  exact ⟨after, still.trans place_self⟩

theorem incSysRef_destroyed (h : Heap) (p o : Nat) : ((h.incSysRef p).object o).destroyed = (h.object o).destroyed :=
  forall_change (fun o x => x.destroyed = (h.object o).destroyed) rfl (fun _ _ => rfl) o

theorem new_destroyed : ((h.new what owns).2.object h.next).destroyed = false := by
  have counted : ∀ (objects : List Nat) (h : Heap) (o : Nat),
      ((objects.foldl incSysRef h).object o).destroyed = (h.object o).destroyed := by
    intro objects
    induction objects with
    | nil => exact fun _ _ => rfl
    | cons p rest ih => exact fun h o => (ih _ o).trans (incSysRef_destroyed h p o)
  exact (counted owns (h.place what owns) h.next).trans (congrArg Object.destroyed place_self)

theorem lookup_guards (isMatch : Object → Bool) (what : What) (guards : h.Guards due) (born : ∀ child ∈ owns, child < h.next) :
    (h.lookup isMatch what owns).2.Guards due ∧ (h.lookup isMatch what owns).1 < (h.lookup isMatch what owns).2.next ∧
      ((h.lookup isMatch what owns).2.object (h.lookup isMatch what owns).1).destroyed = false := by
  rw [lookup]
  split
  next o found =>
    have alive := List.find?_some found
    rw [Bool.and_eq_true, Bool.not_eq_true'] at alive
    refine ⟨guards.quiet (incSysRef_quiet h o), mem_range.mp (List.mem_of_find?_eq_some found), ?_⟩
    exact (incSysRef_destroyed h o o).trans alive.1
  next =>
    refine ⟨(new_guards what guards born).quiet (incSysRef_quiet _ _), ?_, ?_⟩
    · exact lt_of_lt_of_eq (Nat.lt_succ_self h.next) new_next.symm
    · exact (incSysRef_destroyed _ _ _).trans new_destroyed

theorem create_guards (guards : h.Guards due) (born : ∀ child ∈ owns, child < h.next) :
    (h.create isMatch what owns).2.Guards (also due [(h.create isMatch what owns).1]) := by
  obtain ⟨found, there, alive⟩ := lookup_guards isMatch what guards born
  exact (incUserRef_guards found alive there).quiet (decSysRef_quiet _ _)

def Avoids (o : Nat) (h : Heap) (result : Nat × Heap) : Prop :=
  h.Apart o → result.1 ≠ o ∧ result.2.Apart o ∧ result.2.object o = h.object o

theorem create_avoids (what : What)
    (blind : ∀ x, x.what = .allocation ∨ x.what = .mesh → isMatch x = false) (others : o ∉ owns) : Avoids o h
    (h.create isMatch what owns) := by
  intro apart
  have found : (h.lookup isMatch what owns).1 ≠ o ∧ Spares o h (h.lookup isMatch what owns).2 := by
    rw [lookup]
    split
    next p found =>
      have ne : p ≠ o := by
        rintro rfl
        have isFound := List.find?_some found
        rw [blind _ apart.what, Bool.and_false] at isFound
        exact Bool.false_ne_true isFound
      exact ⟨ne, incSysRef_spares h ne⟩
    next =>
      have ne : h.next ≠ o := (ne_of_lt apart.born).symm
      exact ⟨ne, (new_spares what others).trans (incSysRef_spares _ ne)⟩
  obtain ⟨ne, spares⟩ := found
  exact ⟨ne, ((spares.trans (incUserRef_spares _ ne)).trans (decSysRef_spares _ _ ne)) apart⟩

end

structure Fresh (o : Nat) (h : Heap) : Prop where
  apart : h.Apart o
  user : (h.object o).mUserRefCount = 0
  sys : (h.object o).mSysRefCount = 0
  alive : (h.object o).destroyed = false

theorem Fresh.spares (fresh : h.Fresh o) (spares : Spares o h after) : after.Fresh o := by
  obtain ⟨apart, eq⟩ := spares fresh.apart
  exact ⟨apart, eq ▸ fresh.user, eq ▸ fresh.sys, eq ▸ fresh.alive⟩

theorem new_fresh {due : Nat → Nat} {what : What} {owns : List Nat} (guards : h.Guards due)
    (born : ∀ child ∈ owns, child < h.next) (kind : what = .allocation ∨ what = .mesh) :
    (h.new what owns).2.Fresh h.next := by
  obtain ⟨apart, eq⟩ := new_apart guards born kind
  refine ⟨apart, ?_, ?_, ?_⟩ <;> rw [eq]

end Heap

/-!
## Elements and types hand over a reference
-/

open Heap

theorem matchesComponent_blind (c : Component) (x : Object) (kind : x.what = .allocation ∨ x.what = .mesh) :
    matchesComponent c x = false := by
  rcases kind with kind | kind <;> rw [matchesComponent, kind]

theorem matchesFields_blind (labels : List FieldLabel) (subElems : List Nat) (x : Object)
    (kind : x.what = .allocation ∨ x.what = .mesh) : matchesFields labels subElems x = false := by
  rcases kind with kind | kind <;> rw [matchesFields, kind]

theorem matchesType_blind (key : Types.TypeKey) (e : Nat) (x : Object)
    (kind : x.what = .allocation ∨ x.what = .mesh) : matchesType key e x = false := by
  rcases kind with kind | kind <;> rw [matchesType, kind] <;> rfl

mutual

theorem ElementData.createFromStream_guards : ∀ (data : ElementData) {h : Heap} {due : Nat → Nat},
    h.Guards due → (data.createFromStream h).2.Guards (also due [(data.createFromStream h).1])
  | .mk c [], h, due, guards => by
    rw [ElementData.createFromStream]
    exact create_guards guards fun _ none => absurd none not_mem_nil
  | .mk c (field :: fields), h, due, guards => by
    have sub := createFields_guards (field :: fields) guards
    rw [ElementData.createFromStream]
    apply foldl_decUserRef_guards
    rw [also_comm]
    exact create_guards sub fun _ mem => sub.born_of_due (mem_also mem)

theorem createFields_guards : ∀ (fields : List (FieldLabel × ElementData)) {h : Heap} {due : Nat → Nat},
    h.Guards due → (createFields fields h).2.Guards (also due (createFields fields h).1)
  | [], h, due, guards => by
    rw [createFields]
    exact guards
  | (_, data) :: rest, h, due, guards => by
    have first := data.createFromStream_guards guards
    have others := createFields_guards rest first
    rw [createFields]
    rw [also_comm] at others
    rw [also_cons]
    exact others

end

mutual

theorem ElementData.createFromStream_avoids : ∀ (data : ElementData) {h : Heap} {o : Nat}, Avoids o h (data.createFromStream h)
  | .mk c [], h, o => by
    rw [ElementData.createFromStream]
    exact create_avoids _ (matchesComponent_blind c) not_mem_nil
  | .mk c (field :: fields), h, o => fun apart => by
    obtain ⟨others, apart, same⟩ := createFields_avoids (field :: fields) apart
    obtain ⟨ne, apart, still⟩ := create_avoids (.element .initial _) (matchesFields_blind _ _) others apart
    obtain ⟨apart, kept⟩ := foldl_spares decUserRef_spares _ _ others apart
    rw [ElementData.createFromStream]
    exact ⟨ne, apart, kept.trans (still.trans same)⟩

theorem createFields_avoids : ∀ (fields : List (FieldLabel × ElementData)) {h : Heap} {o : Nat}, h.Apart o →
    o ∉ (createFields fields h).1 ∧ (createFields fields h).2.Apart o ∧ (createFields fields h).2.object o = h.object o
  | [], h, o, apart => by
    rw [createFields]
    exact ⟨not_mem_nil, apart, rfl⟩
  | (_, data) :: rest, h, o, apart => by
    obtain ⟨differs, apart, same⟩ := data.createFromStream_avoids apart
    obtain ⟨others, apart, still⟩ := createFields_avoids rest apart
    rw [createFields]
    exact ⟨not_mem_cons_of_ne_of_not_mem differs.symm others, apart, still.trans same⟩

end

variable {h : Heap} {o : Nat} {due : Nat → Nat}

theorem TypeData.createFromStream_guards (data : TypeData) (guards : h.Guards due) :
    (data.createFromStream h).2.Guards (also due [(data.createFromStream h).1]) := by
  have elem := data.element.createFromStream_guards guards
  rw [TypeData.createFromStream]
  apply decUserRef_guards
  rw [also_comm]
  exact create_guards elem fun _ mem => elem.born_of_due (mem_also mem)

theorem TypeData.createFromStream_avoids (data : TypeData) : Avoids o h (data.createFromStream h) := by
  intro apart
  obtain ⟨other, apart, eq⟩ := data.element.createFromStream_avoids apart
  have others : o ∉ [(data.element.createFromStream h).1] := by
    rw [mem_singleton]
    exact other.symm
  obtain ⟨ne, apart, still⟩ := create_avoids (.type data.key) (matchesType_blind data.key _) others apart
  obtain ⟨apart, kept⟩ := decUserRef_spares _ _ other apart
  exact ⟨ne, apart, kept.trans (still.trans eq)⟩

/-!
## Allocations and meshes do not
-/

theorem AllocationData.createFromStream_guards (data : AllocationData) (guards : h.Guards due) :
    (data.createFromStream h).2.Guards due ∧ ∀ o, (data.createFromStream h).1 = some o → (data.createFromStream h).2.Fresh o := by
  have type := data.type.createFromStream_guards guards
  have born : ∀ child ∈ [(data.type.createFromStream h).1], child < (data.type.createFromStream h).2.next :=
    fun _ mem => type.born_of_due (mem_also mem)
  have alloc := new_guards .allocation type born
  have fresh := new_fresh type born (.inl rfl)
  have ne := Nat.ne_of_lt (born _ (mem_singleton_self _))
  have released := decUserRef_guards alloc
  rw [AllocationData.createFromStream]
  split
  · refine ⟨released, ?_⟩
    rintro _ ⟨⟩
    exact fresh.spares (decUserRef_spares _ _ ne)
  · exact ⟨(released.quiet (checkDelete_quiet _ _ _)).quiet (checkDelete_quiet _ _ _), nofun⟩

theorem AllocationData.createFromStream_avoids (data : AllocationData) (apart : h.Apart o) :
    (data.createFromStream h).1 ≠ some o ∧ Spares o h (data.createFromStream h).2 := by
  obtain ⟨other, typeApart, eq⟩ := data.type.createFromStream_avoids apart
  have made : Spares o h (data.type.createFromStream h).2 := fun _ => ⟨typeApart, eq⟩
  have others : o ∉ [(data.type.createFromStream h).1] := by
    rw [mem_singleton]
    exact other.symm
  have ne : (data.type.createFromStream h).2.next ≠ o := (Nat.ne_of_lt typeApart.born).symm
  have released := (made.trans (new_spares .allocation others)).trans (decUserRef_spares _ _ other)
  rw [AllocationData.createFromStream]
  split
  · exact ⟨fun eq => ne (Option.some.inj eq), released⟩
  · refine ⟨nofun, ?_⟩
    exact (released.trans (checkDelete_spares _ _ _ ne)).trans (checkDelete_spares _ _ _ other)

theorem createBuffers_avoids (buffers : List AllocationData) (apart : h.Apart o) :
    o ∉ (createBuffers buffers h).1 ∧ Spares o h (createBuffers buffers h).2 := by
  induction buffers generalizing h with
  | nil => exact ⟨not_mem_nil, .refl o h⟩
  | cons data rest ih =>
    obtain ⟨other, spares⟩ := data.createFromStream_avoids apart
    obtain ⟨still, -⟩ := spares apart
    rw [createBuffers]
    split
    next after failed =>
      rw [failed] at spares still
      obtain ⟨others, more⟩ := ih still
      exact ⟨others, spares.trans more⟩
    next alloc after created =>
      rw [created] at other spares still
      have ne : alloc ≠ o := fun eq => other (congrArg some eq)
      have counted := incSysRef_spares after ne
      obtain ⟨others, more⟩ := ih (counted still).1
      exact ⟨not_mem_cons_of_ne_of_not_mem ne.symm others, (spares.trans counted).trans more⟩

theorem createBuffers_guards (buffers : List AllocationData) (guards : h.Guards due) : (createBuffers buffers h).2.Guards due ∧
      ∀ o ∈ (createBuffers buffers h).1, o < (createBuffers buffers h).2.next := by
  induction buffers generalizing h with
  | nil => exact ⟨guards, fun _ none => absurd none not_mem_nil⟩
  | cons data rest ih =>
    obtain ⟨made, fresh⟩ := data.createFromStream_guards guards
    rw [createBuffers]
    split
    next after failed =>
      rw [failed] at made
      exact ih made
    next alloc after created =>
      rw [created] at made fresh
      have apart := change_apart (fun x => { x with mSysRefCount := x.mSysRefCount + 1 }) (fun _ => rfl) (fun _ => rfl)
          (fresh alloc rfl).apart alloc
      obtain ⟨_, spares⟩ := createBuffers_avoids rest apart
      obtain ⟨filled, born⟩ := ih (made.quiet (incSysRef_quiet after alloc))
      exact ⟨filled, forall_mem_cons.mpr ⟨(spares apart).1.born, born⟩⟩

theorem MeshData.createFromStream_guards (data : MeshData) (guards : h.Guards due) :
    (data.createFromStream h).2.Guards due ∧ (data.createFromStream h).2.Fresh (data.createFromStream h).1 := by
  obtain ⟨buffers, born⟩ := createBuffers_guards (data.vertexBuffers ++ data.indexBuffers) guards
  constructor
  · exact (new_guards .mesh buffers born).quiet (foldl_quiet decSysRef_quiet _ _)
  · have others := fun owned => lt_irrefl _ (born _ owned)
    exact (new_fresh buffers born (.inr rfl)).spares (foldl_spares decSysRef_spares _ _ others)

theorem MeshData.createFromStream_spares (data : MeshData) : Spares o h (data.createFromStream h).2 := by
  intro apart
  obtain ⟨others, spares⟩ := createBuffers_avoids (data.vertexBuffers ++ data.indexBuffers) apart
  exact ((spares.trans (new_spares .mesh others)).trans (foldl_spares decSysRef_spares _ _ others)) apart

/-!
## Entries
-/

/-- Objects of these classes come with a user reference, which the file keeps. -/
def Entry.keepsReference : Entry → Bool
  | .type _ | .element _ => true
  | _ => false

theorem Entry.createFromStream_spares (entry : Entry) : Spares o h (entry.createFromStream h).2 := by
  match entry with
  | .mesh (some data) => exact data.createFromStream_spares
  | .type (some data) | .element (some data) => exact fun apart => (data.createFromStream_avoids apart).2
  | .allocation (some data) => exact fun apart => (data.createFromStream_avoids apart).2 apart
  | .mesh none | .type none | .element none | .allocation none | .unsupported => exact .refl o h

theorem Entry.createFromStream_guards (entry : Entry) (guards : h.Guards due) :
    match (entry.createFromStream h).1 with
    | none => (entry.createFromStream h).2.Guards due
    | some o => if entry.keepsReference then (entry.createFromStream h).2.Guards (also due [o])
      else (entry.createFromStream h).2.Guards due ∧ (entry.createFromStream h).2.Fresh o := by
  match entry with
  | .mesh (some data) | .type (some data) | .element (some data) => exact data.createFromStream_guards guards
  | .allocation (some data) =>
    obtain ⟨made, fresh⟩ := data.createFromStream_guards guards
    rw [Entry.createFromStream]
    split
    next => exact made
    next o created => exact ⟨made, fresh o created⟩
  | .mesh none | .type none | .element none | .allocation none | .unsupported => exact guards

/-!
## Runs
-/

namespace State

variable {heap : Heap} {mIndex : List Entry} {s next : State} {index p : Nat} {entry : Entry}

def Keeps (mIndex : List Entry) (s : State) (o : Nat) : Prop :=
  ∃ i : Fin mIndex.length, mIndex[i].keepsReference = true ∧ s.mRsObj i = some o

instance (mIndex : List Entry) (s : State) (o : Nat) : Decidable (s.Keeps mIndex o) :=
  inferInstanceAs (Decidable (∃ _ : Fin mIndex.length, _ ∧ _))

def owed (mIndex : List Entry) (s : State) (o : Nat) : Nat :=
  s.held.count o + if s.Keeps mIndex o then 1 else 0

theorem keeps_of_entry (there : mIndex[index]? = some entry) (keeps : entry.keepsReference = true)
    (cached : s.mRsObj index = some o) : s.Keeps mIndex o := by
  obtain ⟨inside, rfl⟩ := List.getElem?_eq_some_iff.mp there
  exact ⟨⟨index, inside⟩, keeps, cached⟩

structure Lone (o : Nat) (s : State) : Prop where
  apart : s.heap.Apart o
  sys : (s.heap.object o).mSysRefCount = 0
  user : (s.heap.object o).mUserRefCount = s.held.count o
  last : o ∉ s.held → (s.heap.object o).destroyed = true

structure Kept (mIndex : List Entry) (s : State) : Prop where
  guards : s.heap.Guards (s.owed mIndex)
  lone : ∀ {index entry o}, mIndex[index]? = some entry → entry.keepsReference = false →
    s.mRsObj index = some o → s.Lone o
  good : s.bad = false

/-- The object of an allocation or a mesh is asked for again only while the client holds it. -/
def Clean (mIndex : List Entry) (s : State) : Act → Prop
  | .initializeFromEntry index =>
    ∀ entry ∈ mIndex[index]?, ∀ o ∈ s.mRsObj index, entry.keepsReference = true ∨ o ∈ s.held
  | .decUserRef _ => True

instance (mIndex : List Entry) (s : State) : ∀ act, Decidable (s.Clean mIndex act)
  | .initializeFromEntry index => inferInstanceAs (Decidable (∀ entry ∈ mIndex[index]?, ∀ o ∈ s.mRsObj index, _))
  | .decUserRef _ => inferInstanceAs (Decidable True)

/-!
### Handing an object out
-/

theorem owed_hand (o : Nat) : (s.hand o).owed mIndex = also (s.owed mIndex) [o] := by
  funext p
  change (o :: s.held).count p + _ = s.held.count p + _ + [o].count p
  rw [count_cons, count_singleton]
  exact add_right_comm ..

theorem hand_self (o : Nat) : (s.hand o).heap.object o =
    { s.heap.object o with mUserRefCount := (s.heap.object o).mUserRefCount + 1 } :=
  change_self (h := s.heap) fun x => { x with mUserRefCount := x.mUserRefCount + 1 }

theorem hand_count_self (o : Nat) : (s.hand o).held.count o = s.held.count o + 1 := count_cons_self

theorem lone_hand_self (apart : s.heap.Apart o) (sys : (s.heap.object o).mSysRefCount = 0)
    (user : (s.heap.object o).mUserRefCount = s.held.count o) : (s.hand o).Lone o where
  apart := change_apart (fun x => { x with mUserRefCount := x.mUserRefCount + 1 }) (fun _ => rfl) (fun _ => rfl) apart o
  sys := by
    rw [hand_self]
    exact sys
  user := by
    rw [hand_self, hand_count_self, Nat.cast_add_one]
    exact congrArg (· + 1) user
  last := fun unheld => absurd mem_cons_self unheld

theorem Lone.hand (lone : s.Lone p) (o : Nat) : (s.hand o).Lone p := by
  rcases eq_or_ne o p with rfl | ne
  · exact lone_hand_self lone.apart lone.sys lone.user
  · obtain ⟨apart, eq⟩ := incUserRef_spares s.heap ne lone.apart
    have counts : (s.hand o).held.count p = s.held.count p := count_cons_of_ne ne
    refine ⟨apart, eq ▸ lone.sys, ?_, fun unheld => ?_⟩
    · rw [counts]
      exact eq ▸ lone.user
    · exact eq ▸ lone.last fun mem => unheld (mem_cons_of_mem o mem)

theorem Kept.hand (kept : s.Kept mIndex) (wanted : 0 < s.owed mIndex o) : (s.hand o).Kept mIndex where
  guards := by
    rw [owed_hand]
    exact incUserRef_guards kept.guards (kept.guards.alive_of_due wanted) (kept.guards.born_of_due wanted)
  lone there keeps cached := (kept.lone there keeps cached).hand o
  good := by
    dsimp only [State.hand]
    rw [kept.good, kept.guards.alive_of_due wanted]
    rfl

/-!
### Creating an object
-/

def cache (s : State) (index o : Nat) (heap : Heap) : State :=
  { s with heap := heap, mRsObj := Function.update s.mRsObj index (some o) }

theorem keeps_cache (keeps : (s.cache index o heap).Keeps mIndex p) :
    s.Keeps mIndex p ∨ p = o ∧ ∀ entry, mIndex[index]? = some entry → entry.keepsReference = true := by
  obtain ⟨i, keeps, cached⟩ := keeps
  rcases eq_or_ne i.val index with rfl | ne
  · have eq : o = p := Option.some.inj ((update_self i.val _ _).symm.trans cached)
    refine .inr ⟨eq.symm, fun entry there => ?_⟩
    obtain ⟨_, rfl⟩ := List.getElem?_eq_some_iff.mp there
    exact keeps
  · exact .inl ⟨i, keeps, (update_of_ne ne _ _).symm.trans cached⟩

theorem owed_cache (heap : Heap) (p : Nat) : (s.cache index o heap).owed mIndex p ≤ also (s.owed mIndex) [o] p := by
  rw [also, owed, owed]
  by_cases keeps : (s.cache index o heap).Keeps mIndex p
  · rcases keeps_cache keeps with before | ⟨rfl, _⟩
    · rw [if_pos keeps, if_pos before]
      exact Nat.le_add_right _ _
    · rw [if_pos keeps, count_singleton_self]
      exact Nat.add_le_add_right (Nat.le_add_right _ _) 1
  · rw [if_neg keeps, add_assoc]
    exact Nat.le_add_right _ _

theorem owed_cache_of_not_keeps (there : mIndex[index]? = some entry) (keeps : entry.keepsReference = false)
    (heap : Heap) (p : Nat) : (s.cache index o heap).owed mIndex p ≤ s.owed mIndex p := by
  rw [owed, owed]
  by_cases after : (s.cache index o heap).Keeps mIndex p
  · rcases keeps_cache after with before | ⟨_, kept⟩
    · rw [if_pos after, if_pos before]
      exact le_rfl
    · exact absurd (kept entry there) (keeps ▸ Bool.false_ne_true)
  · rw [if_neg after]
    exact Nat.le_add_right _ _

theorem Lone.of_spares (lone : s.Lone p) (spares : Spares p s.heap heap)
    (mRsObj : Nat → Option Nat) : Lone p { s with heap := heap, mRsObj := mRsObj } := by
  obtain ⟨apart, eq⟩ := spares lone.apart
  exact ⟨apart, eq ▸ lone.sys, eq ▸ lone.user, fun unheld => eq ▸ lone.last unheld⟩

theorem Kept.hand_cache (kept : s.Kept mIndex) (spares : ∀ {p}, Spares p s.heap heap)
    (guards : heap.Guards ((s.cache index o heap).owed mIndex)) (alive : (heap.object o).destroyed = false) (born : o < heap.next)
    (lone : ∀ entry, mIndex[index]? = some entry → entry.keepsReference = false → ((s.cache index o heap).hand o).Lone o) :
    ((s.cache index o heap).hand o).Kept mIndex where
  guards := by
    rw [owed_hand]
    exact incUserRef_guards guards alive born
  lone := by
    intro i entry p there keeps cached
    rcases eq_or_ne i index with rfl | ne
    · have eq : o = p := Option.some.inj ((update_self i _ _).symm.trans cached)
      exact eq ▸ lone entry there keeps
    · have before := kept.lone there keeps ((update_of_ne ne _ _).symm.trans cached)
      exact (before.of_spares spares _).hand o
  good := by
    change (s.bad || (heap.object o).destroyed) = false
    rw [kept.good, alive]
    rfl

theorem Kept.initializeFromEntry (kept : s.Kept mIndex) (clean : s.Clean mIndex (.initializeFromEntry index)) :
    (s.initializeFromEntry mIndex index).Kept mIndex := by
  rw [State.initializeFromEntry]
  split
  case h_1 => exact kept
  case h_2 entry there =>
    split
    case h_1 o cached =>
      apply kept.hand
      rcases clean entry there o cached with keeps | held
      · rw [owed, if_pos (keeps_of_entry there keeps cached)]
        exact Nat.succ_pos _
      · exact Nat.lt_of_lt_of_le (count_pos_iff.mpr held) (Nat.le_add_right _ _)
    case h_2 =>
      have created := entry.createFromStream_guards kept.guards
      have spares {p : Nat} : Spares p s.heap _ := entry.createFromStream_spares
      split
      case h_1 heap failed =>
        rw [failed] at created spares
        exact ⟨created, fun there keeps cached => (kept.lone there keeps cached).of_spares spares _, kept.good⟩
      case h_2 o heap made =>
        rw [made] at created spares
        dsimp only at created
        split at created
        case isTrue keeps =>
          have wanted : 0 < also (s.owed mIndex) [o] o := mem_also (mem_singleton_self o)
          refine kept.hand_cache spares (created.mono (owed_cache heap)) (created.alive_of_due wanted)
            (created.born_of_due wanted) fun other again without => ?_
          cases there.symm.trans again
          exact absurd keeps (without ▸ Bool.false_ne_true)
        case isFalse keeps =>
          obtain ⟨guards, fresh⟩ := created
          have without : entry.keepsReference = false := Bool.eq_false_iff.mpr keeps
          have unheld : s.held.count o = 0 := by
            have counted := guards.counted o
            rw [fresh.user, owed] at counted
            omega
          refine kept.hand_cache spares (guards.mono (owed_cache_of_not_keeps there without heap))
            fresh.alive fresh.apart.born fun _ _ _ => lone_hand_self fresh.apart fresh.sys ?_
          exact fresh.user.trans (congrArg Nat.cast unheld).symm

/-!
### Releasing a reference
-/

theorem owed_erase (mem : o ∈ s.held) (heap : Heap) :
    s.owed mIndex = also (owed mIndex { s with heap := heap, held := s.held.erase o }) [o] := by
  funext p
  rcases eq_or_ne p o with rfl | ne
  · have counted := count_pos_iff.mpr mem
    rw [also_self, owed, owed, count_erase_self, add_right_comm, Nat.sub_add_cancel counted]
    rfl
  · rw [also_of_ne ne, owed, owed, count_erase_of_ne ne]
    rfl

theorem Lone.decUserRef (lone : s.Lone p) (mem : o ∈ s.held) :
    Lone p { s with heap := s.heap.decUserRef o, held := s.held.erase o } := by
  rcases eq_or_ne o p with rfl | ne
  · have counted := count_pos_iff.mpr mem
    obtain ⟨apart, sys, user, last⟩ := decUserRef_apart lone.apart lone.sys (by rw [lone.user]; omega)
    have counts : ((s.heap.decUserRef o).object o).mUserRefCount = (s.held.erase o).count o := by
      rw [user, lone.user, count_erase_self]
      omega
    refine ⟨apart, sys, counts, fun unheld => last ?_⟩
    rw [counts, count_eq_zero.mpr unheld]
    rfl
  · obtain ⟨apart, eq⟩ := decUserRef_spares s.heap o ne lone.apart
    refine ⟨apart, eq ▸ lone.sys, ?_, fun unheld => ?_⟩
    · rw [count_erase_of_ne ne.symm]
      exact eq ▸ lone.user
    · exact eq ▸ lone.last fun held => unheld ((mem_erase_of_ne ne.symm).mpr held)

theorem Kept.step {act : Act} {next : State} (kept : s.Kept mIndex) (clean : s.Clean mIndex act)
    (moved : s.step mIndex act = some next) : next.Kept mIndex := by
  cases act with
  | initializeFromEntry i =>
    cases moved
    exact kept.initializeFromEntry clean
  | decUserRef o =>
    obtain ⟨mem, moved⟩ := Option.ite_none_right_eq_some.mp moved
    cases moved
    have guards := kept.guards
    rw [owed_erase mem (s.heap.decUserRef o)] at guards
    exact ⟨decUserRef_guards guards, fun there keeps cached => (kept.lone there keeps cached).decUserRef mem, kept.good⟩

theorem Kept.start (mIndex : List Entry) : Kept mIndex {} where
  guards :=
    { counted := fun o => by
        rw [owed, if_neg fun keeps => nomatch keeps.choose_spec.2]
        exact le_rfl
      alive := fun _ _ => rfl
      unborn := fun _ _ => rfl
      closed := fun _ _ none => absurd none not_mem_nil }
  lone := fun _ _ none => nomatch none
  good := rfl

theorem Kept.clean_of_good {act : Act} (kept : s.Kept mIndex)
    (moved : s.step mIndex act = some next) (good : next.bad = false) : s.Clean mIndex act := by
  cases act with
  | initializeFromEntry i =>
    intro entry there o cached
    cases moved
    rw [State.initializeFromEntry, Option.mem_def.mp there] at good
    rw [Option.mem_def.mp cached] at good
    cases keeps : entry.keepsReference with
    | true => exact .inl rfl
    | false =>
      by_contra! unheld
      have gone := (kept.lone there keeps cached).last unheld.2
      change (s.bad || (s.heap.object o).destroyed) = false at good
      rw [gone, Bool.or_true] at good
      exact Bool.false_ne_true good.symm
  | decUserRef _ => trivial

end State

/-- No destroyed object is returned or touched exactly if the objects of allocations and meshes are
asked for again only while the client holds them. -/
theorem entries_alive_iff {mIndex : List Entry} {acts : List Act} {s : State} (run : Run (State.step mIndex) Anyhow {} acts s) :
    Throughout (State.step mIndex) Anyhow {} (fun s => s.bad = false) acts ↔
      Run (State.step mIndex) (State.Clean mIndex) {} acts s :=
  run.throughout_iff_of_invariant (State.Kept mIndex) (.start mIndex) State.Kept.good State.Kept.step State.Kept.clean_of_good

def floats : TypeData :=
  { element := .mk (.set .float32 .user false 1) []
    key := { dimX := 8, dimY := 0, dimZ := 0, mDimLOD := false, faces := false, dimYuv := 0 } }

/-- A type is made, let go and asked for again. -/
theorem entries_alive_type : Throughout (State.step [.type (some floats)]) Anyhow {} (fun s => s.bad = false)
      [.initializeFromEntry 0, .decUserRef 1, .initializeFromEntry 0] :=
  throughout_of_perform entries_alive_iff (by decide +kernel)

/-- The object of the only entry of a file is destroyed when the client lets it go, and still
returned. -/
def ReturnsDestroyed (entry : Entry) : Prop :=
  ∃ s o, Run (State.step [entry]) Anyhow {} [.initializeFromEntry 0, .decUserRef o] s ∧
    s.mRsObj 0 = some o ∧ (s.heap.object o).destroyed = true ∧
    (s.initializeFromEntry [entry] 0).held = [o] ∧ (s.initializeFromEntry [entry] 0).bad = true

theorem returnsDestroyed_of_perform {entry : Entry} (o : Nat)
    (shown : ((perform (State.step [entry]) Anyhow {} [.initializeFromEntry 0, .decUserRef o]).map fun s =>
      (s.mRsObj 0, (s.heap.object o).destroyed, (s.initializeFromEntry [entry] 0).held,
        (s.initializeFromEntry [entry] 0).bad)) = some (some o, true, [o], true)) :
    ReturnsDestroyed entry := by
  obtain ⟨s, performed, seen⟩ := Option.map_eq_some_iff.mp shown
  injection seen with cached seen
  injection seen with gone seen
  injection seen with held bad
  exact ⟨s, o, run_of_perform performed, cached, gone, held, bad⟩

theorem entry_returned_destroyed : ReturnsDestroyed (.allocation (some ⟨floats, true⟩)) ∧
      ReturnsDestroyed (.mesh (some ⟨[⟨floats, true⟩], []⟩)) :=
  ⟨returnsDestroyed_of_perform 2 (by decide +kernel), returnsDestroyed_of_perform 3 (by decide +kernel)⟩

end RenderScript.A3D
