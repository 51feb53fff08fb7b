import RenderScript.A3D.EntryObjectsProperties
import RenderScript.A3D.FailedLoads

/-!
# Loads that fail

Loading only changes counts and adds objects, up to the end of `Allocation::createFromStream`.
All changes of counts are described by one function, `adjust`.
-/

namespace RenderScript.A3D
open Elements RenderScript.Types List
open Option hiding or_self

variable {c : Component} {x : Object} {labels : List FieldLabel} {fields : List (FieldLabel × ElementStream)}
  {isMatch : Object → Bool} {checkDelete : Heap → Nat → Option Heap} {objects subElems users owns : List Nat} {middle : Heap}
  {stream : TypeStream} {t o e fuel : Nat}

namespace Heap

variable {f : Object → Object} {h after base : Heap} {o p : Nat} {what : What} {owns : List Nat} {isMatch : Object → Bool}

/-!
## Counts
-/

def adjust (h : Heap) (user sys : Nat → Int) : Heap where
  object o := { h.object o with
    mUserRefCount := (h.object o).mUserRefCount + user o
    mSysRefCount := (h.object o).mSysRefCount + sys o }
  next := h.next

theorem adjust_object (h : Heap) (user sys : Nat → Int) (o : Nat) : (h.adjust user sys).object o =
      { h.object o with
        mUserRefCount := (h.object o).mUserRefCount + user o
        mSysRefCount := (h.object o).mSysRefCount + sys o } :=
  rfl

def tally (objects : List Nat) (o : Nat) : Int := objects.count o

theorem tally_nonneg (objects : List Nat) (o : Nat) : 0 ≤ tally objects o := Int.natCast_nonneg _

theorem tally_pos (mem : o ∈ objects) : 0 < tally objects o := Int.natCast_pos.mpr (count_pos_iff.mpr mem)

theorem tally_of_notMem (missing : o ∉ objects) : tally objects o = 0 := congrArg Nat.cast (count_eq_zero.mpr missing)

theorem tally_cons (o : Nat) (objects : List Nat) : tally (o :: objects) = tally objects + tally [o] := by
  funext p
  simp only [tally, Pi.add_apply, count_cons, count_nil]
  omega

theorem adjust_adjust (h : Heap) (user sys more other : Nat → Int) :
    (h.adjust user sys).adjust more other = h.adjust (user + more) (sys + other) := by
  simp only [adjust, Pi.add_apply, add_assoc]

theorem adjust_zero (h : Heap) : h.adjust 0 0 = h := by
  simp only [adjust, Pi.zero_apply, add_zero]

theorem eq_of_objects {h after : Heap} (objects : ∀ o, h.object o = after.object o) (next : h.next = after.next) : h = after := by
  obtain ⟨object, _⟩ := h
  obtain ⟨other, _⟩ := after
  cases next
  cases (funext objects : object = other)
  rfl

theorem tally_self (o : Nat) : tally [o] o = 1 := congrArg Nat.cast count_singleton_self

theorem tally_of_ne (ne : p ≠ o) : tally [o] p = 0 := tally_of_notMem fun mem => ne (mem_singleton.mp mem)

theorem change_eq_adjust {user sys : Nat → Int} (here : f (h.object o) = { h.object o with
      mUserRefCount := (h.object o).mUserRefCount + user o
      mSysRefCount := (h.object o).mSysRefCount + sys o })
    (elsewhere : ∀ p, p ≠ o → user p = 0 ∧ sys p = 0) : h.change o f = h.adjust user sys := by
  refine eq_of_objects (fun p => ?_) rfl
  rcases eq_or_ne p o with rfl | ne
  · rw [change_self]
    exact here
  · rw [change_of_ne f ne]
    simp [adjust, elsewhere p ne]

theorem incUser_eq (h : Heap) (o : Nat) :
    (h.change o fun x => { x with mUserRefCount := x.mUserRefCount + 1 }) = h.adjust (tally [o]) 0 :=
  change_eq_adjust (by simp [tally_self]) fun _ ne => ⟨tally_of_ne ne, rfl⟩

theorem decUser_eq (h : Heap) (o : Nat) :
    (h.change o fun x => { x with mUserRefCount := x.mUserRefCount - 1 }) = h.adjust (-tally [o]) 0 :=
  change_eq_adjust (by simp [tally_self, sub_eq_add_neg]) fun _ ne => by
    simp [tally_of_ne ne]

theorem incSys_eq (h : Heap) (o : Nat) :
    (h.change o fun x => { x with mSysRefCount := x.mSysRefCount + 1 }) = h.adjust 0 (tally [o]) :=
  change_eq_adjust (by simp [tally_self]) fun _ ne => ⟨rfl, tally_of_ne ne⟩

theorem decSys_eq (h : Heap) (o : Nat) :
    (h.change o fun x => { x with mSysRefCount := x.mSysRefCount - 1 }) = h.adjust 0 (-tally [o]) :=
  change_eq_adjust (by simp [tally_self, sub_eq_add_neg]) fun _ ne => by
    simp [tally_of_ne ne]

theorem touch_eq (live : (h.object o).destroyed = false) : h.touch o f = some (h.change o f) := by
  rw [touch, live]
  exact if_neg Bool.false_ne_true

/-!
## Calls that destroy nothing
-/

theorem decSysRefChecked_eq (live : (h.object o).destroyed = false)
    (kept : 1 < (h.object o).mSysRefCount ∨ 0 < (h.object o).mUserRefCount) :
    h.decSysRefChecked checkDelete o = some (h.adjust 0 (-tally [o])) := by
  rw [decSysRefChecked, touch_eq live, bind_eq_bind, bind_some, decSys_eq, if_neg]
  omega

theorem decUserRefChecked_eq (live : (h.object o).destroyed = false) (kept : 0 < (h.object o).mSysRefCount) :
    h.decUserRefChecked o = some (h.adjust (-tally [o]) 0) := by
  rw [decUserRefChecked, touch_eq live, bind_eq_bind, bind_some, decUser_eq, if_neg]
  omega

theorem foldlM_decUserRefChecked (objects : List Nat)
    (kept : ∀ o ∈ objects, (h.object o).destroyed = false ∧ 0 < (h.object o).mSysRefCount) :
    objects.foldlM decUserRefChecked h = some (h.adjust (-tally objects) 0) := by
  induction objects generalizing h with
  | nil =>
    have none : -tally [] = 0 := by
      funext o
      simp [tally]
    rw [none, adjust_zero]
    rfl
  | cons o rest ih =>
    obtain ⟨here, others⟩ := forall_mem_cons.mp kept
    rw [foldlM_cons, decUserRefChecked_eq here.1 here.2, bind_eq_bind, bind_some, ih]
    · rw [adjust_adjust, tally_cons o rest, neg_add, add_comm (-tally rest)]
      rfl
    · intro p mem
      exact ⟨(others p mem).1, by simpa [adjust] using (others p mem).2⟩

theorem foldlM_incSys (objects : List Nat) (live : ∀ o ∈ objects, (h.object o).destroyed = false) :
    objects.foldlM incSysRefChecked h = some (h.adjust 0 (tally objects)) := by
  induction objects generalizing h with
  | nil =>
    have none : tally [] = 0 := by
      funext o
      simp [tally]
    rw [none, adjust_zero]
    rfl
  | cons o rest ih =>
    obtain ⟨here, others⟩ := forall_mem_cons.mp live
    have later : ∀ p ∈ rest, ((h.adjust 0 (tally [o])).object p).destroyed = false := others
    rw [foldlM_cons, incSysRefChecked, touch_eq here, bind_eq_bind, bind_some, incSys_eq,
      ih later, adjust_adjust, tally_cons o rest, add_comm (tally rest)]
    rfl

theorem extend_live (live : ∀ o ∈ owns, (h.object o).destroyed = false) :
    ∀ o ∈ owns, ((h.extend what owns).object o).destroyed = false := by
  intro o owned
  rcases eq_or_ne o h.next with rfl | ne
  · simp [extend]
  · simp [extend, Function.update_of_ne ne, live o owned]

theorem newChecked_eq (live : ∀ o ∈ owns, (h.object o).destroyed = false) :
    h.newChecked what owns = some (h.next, (h.extend what owns).adjust 0 (tally owns)) := by
  rw [newChecked, foldlM_incSys owns (extend_live live)]
  rfl

theorem handOver_eq (live : (h.object o).destroyed = false) (counts : 0 ≤ (h.object o).mUserRefCount) :
    ((h.incSysRefChecked o).bind fun h => (h.incUserRefChecked o).bind fun h =>
      h.decSysRefChecked (checkDeleteChecked h.next) o) = some (h.adjust (tally [o]) 0) := by
  have counted : 0 < (((h.adjust 0 (tally [o])).adjust (tally [o]) 0).object o).mUserRefCount := by
    simp only [adjust, tally_self, Pi.zero_apply]
    omega
  rw [incSysRefChecked, touch_eq live, bind_some, incSys_eq, incUserRefChecked,
    touch_eq (by exact live), bind_some, incUser_eq, decSysRefChecked_eq (by exact live) (.inr counted),
    adjust_adjust, adjust_adjust]
  simp

theorem findLive_live (found : h.findLive isMatch = some o) :
    o < h.next ∧ (h.object o).destroyed = false ∧ isMatch (h.object o) = true := by
  have matched := List.find?_some found
  simp only [Bool.and_eq_true, Bool.not_eq_true'] at matched
  exact ⟨mem_range.mp (List.mem_of_find?_eq_some found), matched⟩

theorem createChecked_found (counts : 0 ≤ (h.object o).mUserRefCount) (found : h.findLive isMatch = some o) :
    h.createChecked isMatch what owns = some (o, h.adjust (tally [o]) 0) := by
  have passed := handOver_eq (findLive_live found).2.1 counts
  obtain ⟨first, counted, rest⟩ := bind_eq_some_iff.mp passed
  obtain ⟨second, used, last⟩ := bind_eq_some_iff.mp rest
  simp only [createChecked, found, bind_eq_bind, bind_some, counted, used, last]
  rfl

theorem createChecked_new (live : ∀ child ∈ owns, (h.object child).destroyed = false) (missing : h.findLive isMatch = none) :
    h.createChecked isMatch what owns = some (h.next, (h.extend what owns).adjust (tally [h.next]) (tally owns)) := by
  have fresh : ((h.extend what owns).adjust 0 (tally owns)).object h.next =
      { what := what, owns := owns, mSysRefCount := tally owns h.next } := by
    simp [adjust, extend]
  have passed := handOver_eq (by rw [fresh]) (by rw [fresh])
  obtain ⟨first, counted, rest⟩ := bind_eq_some_iff.mp passed
  obtain ⟨second, used, last⟩ := bind_eq_some_iff.mp rest
  simp only [createChecked, missing, newChecked_eq live, bind_eq_bind, bind_some, counted,
    used, last, adjust_adjust, zero_add, add_zero]
  rfl

/-!
## Growing heaps
-/

structure Steady (h : Heap) : Prop where
  counts : ∀ o, 0 ≤ (h.object o).mUserRefCount ∧ 0 ≤ (h.object o).mSysRefCount
  ordered : ∀ p, (h.object p).what.interned = true → ∀ child ∈ (h.object p).owns, child < p
  held : ∀ p < h.next, (h.object p).destroyed = false → ∀ child ∈ (h.object p).owns,
    child < h.next ∧ (h.object child).destroyed = false ∧ 0 < (h.object child).mSysRefCount
  unborn : ∀ o, h.next ≤ o → (h.object o).mUserRefCount = 0

theorem Settled.steady (settled : h.Settled) : h.Steady := ⟨settled.counts, settled.ordered, settled.held, settled.unborn⟩

theorem Steady.adjust (steady : h.Steady) {user sys : Nat → Int}
    (users : ∀ o, 0 ≤ (h.object o).mUserRefCount + user o) (more : ∀ o, 0 ≤ sys o)
    (unborn : ∀ o, h.next ≤ o → user o = 0) : (h.adjust user sys).Steady where
  counts o := ⟨users o, add_nonneg (steady.counts o).2 (more o)⟩
  ordered := steady.ordered
  held p born live child owned := by
    obtain ⟨older, alive, counted⟩ := steady.held p born live child owned
    exact ⟨older, alive, add_pos_of_pos_of_nonneg counted (more child)⟩
  unborn o behind := by
    have zero : (h.object o).mUserRefCount + user o = 0 := by
      rw [steady.unborn o behind, unborn o behind, add_zero]
    exact zero

theorem extend_self : (h.extend what owns).object h.next = { what := what, owns := owns } := Function.update_self ..

theorem extend_of_ne (ne : o ≠ h.next) : (h.extend what owns).object o = h.object o := Function.update_of_ne ne ..

theorem Steady.extend (steady : h.Steady) (children : ∀ child ∈ owns, child < h.next ∧ (h.object child).destroyed = false) :
    ((h.extend what owns).adjust 0 (tally owns)).Steady := by
  refine { counts := ?counts, ordered := ?ordered, held := ?held, unborn := ?unborn }
  case counts =>
    intro o
    have more := tally_nonneg owns o
    have before := steady.counts o
    rcases eq_or_ne o h.next with rfl | ne
    · simpa [Heap.adjust, extend_self] using more
    · simp only [Heap.adjust, extend_of_ne ne, Pi.zero_apply, add_zero]
      omega
  case ordered =>
    intro p
    rcases eq_or_ne p h.next with rfl | ne
    · simpa [Heap.adjust, extend_self] using fun _ child owned => (children child owned).1
    · simpa [Heap.adjust, extend_of_ne ne] using steady.ordered p
  case held =>
    intro p born live child owned
    have more := tally_nonneg owns child
    have before := (steady.counts child).2
    rcases eq_or_ne p h.next with rfl | ne
    · have owned : child ∈ owns := by simpa [Heap.adjust, extend_self] using owned
      have other : child ≠ h.next := ne_of_lt (children child owned).1
      have counted := tally_pos owned
      refine ⟨Nat.lt_succ_of_lt (children child owned).1, ?_⟩
      simp only [Heap.adjust, extend_of_ne other, (children child owned).2, true_and]
      omega
    · have older : p < h.next := lt_of_le_of_ne (Nat.le_of_lt_succ born) ne
      have live : (h.object p).destroyed = false := by simpa [Heap.adjust, extend_of_ne ne] using live
      have owned : child ∈ (h.object p).owns := by simpa [Heap.adjust, extend_of_ne ne] using owned
      obtain ⟨born, alive, counted⟩ := steady.held p older live child owned
      have other : child ≠ h.next := ne_of_lt born
      refine ⟨Nat.lt_succ_of_lt born, ?_⟩
      simp only [Heap.adjust, extend_of_ne other, alive, true_and]
      omega
  case unborn =>
    intro o behind
    have other : o ≠ h.next := ne_of_gt behind
    simp only [Heap.adjust, extend_of_ne other, Pi.zero_apply, add_zero]
    exact steady.unborn o (Nat.le_of_succ_le behind)

structure Alike (h after : Heap) : Prop where
  next : h.next ≤ after.next
  what : ∀ o < h.next, (after.object o).what = (h.object o).what
  owns : ∀ o < h.next, (after.object o).owns = (h.object o).owns
  destroyed : ∀ o < h.next, (after.object o).destroyed = (h.object o).destroyed

theorem Alike.refl (h : Heap) : Alike h h := ⟨le_refl _, fun _ _ => rfl, fun _ _ => rfl, fun _ _ => rfl⟩

theorem Alike.trans (first : Alike h middle) (second : Alike middle after) : Alike h after where
  next := first.next.trans second.next
  what o older := (second.what o (older.trans_le first.next)).trans (first.what o older)
  owns o older := (second.owns o (older.trans_le first.next)).trans (first.owns o older)
  destroyed o older := (second.destroyed o (older.trans_le first.next)).trans (first.destroyed o older)

theorem alike_adjust (h : Heap) (user sys : Nat → Int) : Alike h (h.adjust user sys) :=
  ⟨le_refl _, fun _ _ => rfl, fun _ _ => rfl, fun _ _ => rfl⟩

theorem alike_extend (h : Heap) (what : What) (owns : List Nat) : Alike h (h.extend what owns) where
  next := Nat.le_succ _
  what o older := by rw [extend_of_ne (ne_of_lt older)]
  owns o older := by rw [extend_of_ne (ne_of_lt older)]
  destroyed o older := by rw [extend_of_ne (ne_of_lt older)]

def Formal (isMatch : Object → Bool) : Prop :=
  ∀ x y : Object, x.what = y.what → x.owns = y.owns → isMatch x = isMatch y

theorem findLive_of_alike (formal : Formal isMatch) (alike : Alike base h)
    (found : h.findLive isMatch = some o) (older : o < base.next) : base.findLive isMatch = some o := by
  have eq : ∀ p < base.next, (!(base.object p).destroyed && isMatch (base.object p)) =
      (!(h.object p).destroyed && isMatch (h.object p)) := by
    intro p older
    rw [alike.destroyed p older, formal _ _ (alike.what p older) (alike.owns p older)]
  rw [findLive, List.find?_range_eq_some] at found ⊢
  obtain ⟨matched, -, first⟩ := found
  refine ⟨(eq o older).trans matched, mem_range.mpr older, fun p before => ?_⟩
  rw [eq p (before.trans older)]
  exact first p before

theorem findLive_adjust (formal : Formal isMatch) (user sys : Nat → Int) :
    (h.adjust user sys).findLive isMatch = h.findLive isMatch := by
  have eq : ∀ x : Object, ∀ u s : Int, isMatch { x with mUserRefCount := u, mSysRefCount := s } = isMatch x :=
    fun x u s => formal _ _ rfl rfl
  simp [findLive, adjust, eq]

theorem formal_matchesComponent (c : Component) : Formal (matchesComponent c) := by
  intro x y what _
  rw [matchesComponent, matchesComponent, what]

theorem formal_matchesFields (labels : List FieldLabel) (subElems : List Nat) : Formal (matchesFields labels subElems) := by
  intro x y what owns
  rw [matchesFields, matchesFields, what, owns]

theorem formal_matchesType (key : TypeKey) (e : Nat) : Formal (matchesType key e) := by
  intro x y what owns
  rw [matchesType, matchesType, what, owns]

structure Grown (h : Heap) (users : List Nat) (after : Heap) : Prop where
  steady : after.Steady
  alike : h.Alike after
  fresh : ∀ o, h.next ≤ o → o < after.next → ∃ c labels, (after.object o).what = .element c labels
  user : ∀ o, (after.object o).mUserRefCount = (h.object o).mUserRefCount + tally users o
  born : ∀ e ∈ users, e < after.next ∧ (after.object e).destroyed = false

theorem Grown.refl (steady : h.Steady) : Grown h [] h where
  steady := steady
  alike := .refl h
  fresh _ behind older := absurd older (Nat.not_lt_of_le behind)
  user o := by simp [tally]
  born := nofun

theorem Grown.trans {more : List Nat} (first : Grown h users middle)
    (second : Grown middle more after) : Grown h (users ++ more) after where
  steady := second.steady
  alike := first.alike.trans second.alike
  fresh o behind older := by
    by_cases before : o < middle.next
    · rw [second.alike.what o before]
      exact first.fresh o behind before
    · exact second.fresh o (Nat.le_of_not_lt before) older
  user o := by
    have both : tally (users ++ more) o = tally users o + tally more o := by simp [tally]
    rw [second.user, first.user, both, Int.add_assoc]
  born e mem := by
    rcases mem_append.mp mem with earlier | later
    · obtain ⟨older, live⟩ := first.born e earlier
      exact ⟨older.trans_le second.alike.next, (second.alike.destroyed e older).trans live⟩
    · exact second.born e later

/-- What `createChecked` does: it finds an object, or adds one. -/
structure Chosen (isMatch : Object → Bool) (what : What) (owns : List Nat) (h : Heap) (o : Nat) (after : Heap) :
    Prop where
  happens : h.createChecked isMatch what owns = some (o, after)
  chosen : h.findLive isMatch = some o ∧ after = h.adjust (tally [o]) 0 ∨
    h.findLive isMatch = none ∧ o = h.next ∧ after = (h.extend what owns).adjust (tally [o]) (tally owns)
  steady : after.Steady
  alike : h.Alike after
  user : ∀ p, (after.object p).mUserRefCount = (h.object p).mUserRefCount + tally [o] p
  born : o < after.next ∧ (after.object o).destroyed = false
  form : ∀ p, h.next ≤ p → p < after.next → (after.object p).what = what

theorem Steady.create (steady : h.Steady) (children : ∀ child ∈ owns, child < h.next ∧ (h.object child).destroyed = false) :
    ∃ o after, Chosen isMatch what owns h o after := by
  cases found : h.findLive isMatch with
  | some o =>
    obtain ⟨older, live, -⟩ := findLive_live found
    refine ⟨o, h.adjust (tally [o]) 0, ?_⟩
    refine
      { happens := createChecked_found (steady.counts o).1 found, chosen := .inl ⟨found, rfl⟩, steady := ?steady
        alike := alike_adjust _ _ _
        user := fun p => rfl
        born := ⟨older, live⟩
        form := fun p behind before => absurd before (Nat.not_lt_of_le behind) }
    case steady =>
      refine steady.adjust (fun p => add_nonneg (steady.counts p).1 (tally_nonneg _ p)) (fun _ => le_rfl) ?_
      intro p behind
      exact tally_of_ne (ne_of_gt (older.trans_le behind))
  | none =>
    have made := @Steady.extend h what _ steady children
    have both : (h.extend what owns).adjust (tally [h.next]) (tally owns) =
        ((h.extend what owns).adjust 0 (tally owns)).adjust (tally [h.next]) 0 := by
      simp [adjust_adjust]
    refine ⟨h.next, (h.extend what owns).adjust (tally [h.next]) (tally owns), ?_⟩
    refine
      { happens := createChecked_new (fun child owned => (children child owned).2) found
        chosen := .inr ⟨found, rfl, rfl⟩
        steady := ?steady
        alike := (alike_extend h what owns).trans (alike_adjust _ _ _)
        user := ?counted
        born := ⟨Nat.lt_succ_self _, by simp [Heap.adjust, extend_self]⟩
        form := ?form }
    case steady =>
      rw [both]
      refine made.adjust (fun p => add_nonneg (made.counts p).1 (tally_nonneg _ p)) (fun _ => le_rfl) ?_
      intro p behind
      exact tally_of_ne (ne_of_gt behind)
    case form =>
      intro p behind before
      cases le_antisymm (Nat.le_of_lt_succ before) behind
      simp [Heap.adjust, extend_self]
    case counted =>
      intro p
      rcases eq_or_ne p h.next with rfl | ne
      · simp [Heap.adjust, extend_self, steady.unborn h.next (le_refl _)]
      · simp [Heap.adjust, extend_of_ne ne]

theorem Chosen.held (chosen : Chosen isMatch what owns h o after) (same : ∀ x, isMatch x = true → x.owns = owns) :
    ∀ child ∈ owns, (after.object child).destroyed = false ∧ 0 < (after.object child).mSysRefCount := by
  have owned : (after.object o).owns = owns := by
    rcases chosen.chosen with ⟨found, rfl⟩ | ⟨-, rfl, rfl⟩
    · exact same (h.object o) (findLive_live found).2.2
    · simp [adjust, extend_self]
  have held := chosen.steady.held o chosen.born.1 chosen.born.2
  rw [owned] at held
  exact fun child mem => (held child mem).2

end Heap

/-!
## Loading elements
-/

open Heap

variable {h after : Heap}

/-- A stream that was loaded. What is found among the older objects was there, and then nothing
was added. -/
structure Loaded (find : Heap → Option Nat) (h : Heap) (e : Nat) (after : Heap) : Prop where
  grown : Grown h [e] after
  known : ∀ base, Alike base h → e < base.next → find base = some e
  old : e < h.next → after = h.adjust (tally [e]) 0
  found : ∀ o, find h = some o → e = o

structure LoadedFields (fields : List (FieldLabel × ElementStream)) (h : Heap) (subElems : List Nat)
    (after : Heap) : Prop where
  grown : Grown h subElems after
  known : ∀ base, Alike base h → (∀ e ∈ subElems, e < base.next) → findFields base fields = some subElems
  old : (∀ e ∈ subElems, e < h.next) → after = h.adjust (tally subElems) 0
  found : ∀ others, findFields h fields = some others → subElems = others

theorem ElementStream.find_born {stream : ElementStream} (found : stream.find h = some o) : o < h.next := by
  match stream with
  | .invalid => cases found
  | .mk c [] => exact (findLive_live found).1
  | .mk c (field :: fields) =>
    obtain ⟨subElems, -, found⟩ := bind_eq_some_iff.mp found
    exact (findLive_live found).1

theorem findFields_born (found : findFields h fields = some subElems) : ∀ e ∈ subElems, e < h.next := by
  induction fields generalizing subElems with
  | nil =>
    cases found
    exact nofun
  | cons field rest ih =>
    obtain ⟨first, here, found⟩ := bind_eq_some_iff.mp found
    obtain ⟨others, later, found⟩ := bind_eq_some_iff.mp found
    cases found
    exact forall_mem_cons.mpr ⟨ElementStream.find_born here, ih later⟩

mutual

theorem ElementStream.find_adjust (user sys : Nat → Int) :
    ∀ stream : ElementStream, stream.find (h.adjust user sys) = stream.find h
  | .invalid => rfl
  | .mk c [] => findLive_adjust (formal_matchesComponent c) user sys
  | .mk c (field :: fields) => by
    rw [ElementStream.find, ElementStream.find, findFields_adjust user sys (field :: fields)]
    simp only [findLive_adjust (formal_matchesFields _ _)]

theorem findFields_adjust (user sys : Nat → Int) :
    ∀ fields : List (FieldLabel × ElementStream), findFields (h.adjust user sys) fields = findFields h fields
  | [] => rfl
  | (_, stream) :: rest => by
    rw [findFields, findFields, stream.find_adjust user sys, findFields_adjust user sys rest]

end

theorem form_of_matchesFields
    (matched : matchesFields labels subElems x = true) : x.what.interned = true ∧ x.owns = subElems := by
  unfold matchesFields at matched
  split at matched
  case h_1 what =>
    simp only [Bool.and_eq_true, beq_iff_eq] at matched
    rw [what]
    exact ⟨rfl, matched.2⟩
  case h_2 => cases matched

theorem Heap.Chosen.grown (chosen : Chosen isMatch (.element c labels) owns h o after) : Grown h [o] after where
  __ := chosen
  fresh p behind before := ⟨c, labels, chosen.form p behind before⟩
  born _ listed := (mem_singleton.mp listed) ▸ chosen.born

theorem Heap.Grown.release (steady : h.Steady)
    (grown : Grown h (users ++ [e]) after) : Grown h [e] (after.adjust (-tally users) 0) := by
  have left (o : Nat) : (after.object o).mUserRefCount + (-tally users) o = (h.object o).mUserRefCount + tally [e] o := by
    have both : tally (users ++ [e]) o = tally users o + tally [e] o := by simp [tally]
    rw [grown.user, both, Pi.neg_apply]
    omega
  refine
    { steady := ?steady, alike := grown.alike.trans (alike_adjust _ _ _), fresh := grown.fresh, user := left
      born := fun p mem => grown.born p (mem_append_right users mem) }
  refine grown.steady.adjust (fun o => ?_) (fun _ => le_rfl) fun o behind => ?_
  · rw [left]
    exact add_nonneg (steady.counts o).1 (tally_nonneg _ o)
  · have missing : o ∉ users := fun mem =>
      absurd (grown.born o (mem_append_left [e] mem)).1 (Nat.not_lt_of_le behind)
    rw [Pi.neg_apply, tally_of_notMem missing, neg_zero]

theorem mapM_id_some (objects : List Nat) : (objects.map some).mapM id = some objects := by
  induction objects with
  | nil => rfl
  | cons o rest ih =>
    rw [map_cons, mapM_cons, ih]
    rfl

theorem load_leaf (steady : h.Steady) (c : Component) :
    ∃ e after, (ElementStream.mk c []).createFromStream h = some (some e, after) ∧
      Loaded (ElementStream.mk c []).find h e after := by
  obtain ⟨e, after, made⟩ := @Steady.create h
    (.element (.set c.mType c.mKind c.mNormalized c.mVectorSize) []) [] (matchesComponent c) steady nofun
  refine ⟨e, after, ?_, ?_⟩
  · rw [ElementStream.createFromStream, made.happens]
    rfl
  · refine { grown := made.grown, known := ?known, old := ?old, found := ?found }
    case known =>
      intro base alike older
      rcases made.chosen with ⟨found, -⟩ | ⟨-, rfl, -⟩
      · exact findLive_of_alike (formal_matchesComponent c) alike found older
      · exact absurd older (Nat.not_lt_of_le alike.next)
    case old =>
      intro older
      rcases made.chosen with ⟨-, eq⟩ | ⟨-, rfl, -⟩
      · exact eq
      · exact absurd older (lt_irrefl _)
    case found =>
      intro o there
      rcases made.chosen with ⟨found, -⟩ | ⟨missing, -, -⟩
      · exact Option.some.inj (found.symm.trans there)
      · exact absurd (missing.symm.trans there) nofun

theorem load_node {field : FieldLabel × ElementStream}
        (steady : h.Steady) (happens : createFieldsFromStream (field :: fields) h = some (subElems.map some, after))
    (sub : LoadedFields (field :: fields) h subElems after) :
    ∃ e last, (ElementStream.mk c (field :: fields)).createFromStream h = some (some e, last) ∧
      Loaded (ElementStream.mk c (field :: fields)).find h e last := by
  obtain ⟨e, mid, made⟩ := @Steady.create after (.element .initial ((field :: fields).map (·.1))) _
    (matchesFields ((field :: fields).map (·.1)) subElems) sub.grown.steady sub.grown.born
  have held := made.held fun x matched => (form_of_matchesFields matched).2
  refine ⟨e, mid.adjust (-tally subElems) 0, ?_, ?_⟩
  · rw [ElementStream.createFromStream, happens]
    simp only [bind_eq_bind, bind_some, mapM_id_some, made.happens, foldlM_decUserRefChecked subElems held]
    rfl
  · -- a match owns the fields, which are older
    have older {bound : Nat} (chosen : after.findLive (matchesFields ((field :: fields).map (·.1)) subElems) = some e)
        (lt : e < bound) : ∀ child ∈ subElems, child < bound := by
      intro child owned
      obtain ⟨-, -, matched⟩ := findLive_live chosen
      rw [← (form_of_matchesFields matched).2] at owned
      exact (sub.grown.steady.ordered e (form_of_matchesFields matched).1 child owned).trans lt
    refine { grown := ?grown, known := ?known, old := ?old, found := ?found }
    case grown => exact (sub.grown.trans made.grown).release steady
    case known =>
      intro base alike lt
      rcases made.chosen with ⟨chosen, -⟩ | ⟨-, rfl, -⟩
      · have known := sub.known base alike (older chosen lt)
        rw [ElementStream.find, known]
        exact findLive_of_alike (formal_matchesFields _ _) (alike.trans sub.grown.alike) chosen lt
      · exact absurd lt (Nat.not_lt_of_le (alike.next.trans sub.grown.alike.next))
    case old =>
      intro lt
      rcases made.chosen with ⟨chosen, eq⟩ | ⟨-, rfl, -⟩
      · rw [eq, sub.old (older chosen lt), adjust_adjust, adjust_adjust, ← add_assoc, add_neg_cancel_comm]
        rfl
      · exact absurd lt (Nat.not_lt_of_le sub.grown.alike.next)
    case found =>
      intro o there
      obtain ⟨others, fieldsFound, there⟩ := bind_eq_some_iff.mp there
      cases sub.found others fieldsFound
      have eq := sub.old (findFields_born fieldsFound)
      rw [← findLive_adjust (formal_matchesFields _ _) (tally subElems) 0, ← eq] at there
      rcases made.chosen with ⟨found, -⟩ | ⟨missing, -, -⟩
      · exact Option.some.inj (found.symm.trans there)
      · exact absurd (missing.symm.trans there) nofun

mutual

theorem ElementStream.load : ∀ (stream : ElementStream) {h : Heap}, h.Steady → stream.valid = true →
    ∃ e after, stream.createFromStream h = some (some e, after) ∧ Loaded stream.find h e after
  | .invalid, _, _, valid => by cases valid
  | .mk c [], _, steady, _ => load_leaf steady c
  | .mk c (field :: fields), h, steady, valid => by
    rw [ElementStream.valid] at valid
    obtain ⟨subElems, after, happens, sub⟩ := loadFields (field :: fields) steady valid
    exact load_node steady happens sub

theorem loadFields : ∀ (fields : List (FieldLabel × ElementStream)) {h : Heap}, h.Steady → validFields fields = true →
    ∃ subElems after, createFieldsFromStream fields h = some (subElems.map some, after) ∧ LoadedFields fields h subElems after
  | [], h, steady, _ => by
    refine ⟨[], h, rfl, ?_⟩
    exact {
      grown := .refl steady
      known := fun _ _ _ => rfl
      old := fun _ => (adjust_zero h).symm
      found := fun others found => Option.some.inj found }
  | (label, stream) :: rest, h, steady, valid => by
    rw [validFields, Bool.and_eq_true] at valid
    obtain ⟨e, middle, first, here⟩ := stream.load steady valid.1
    obtain ⟨subElems, after, later, others⟩ := loadFields rest here.grown.steady valid.2
    refine ⟨e :: subElems, after, ?_, ?_⟩
    · rw [createFieldsFromStream, first]
      simp only [bind_eq_bind, bind_some, later]
      rfl
    refine { grown := here.grown.trans others.grown, known := ?known, old := ?old, found := ?found }
    case known =>
      intro base alike older
      obtain ⟨olderFirst, olderRest⟩ := forall_mem_cons.mp older
      rw [findFields, here.known base alike olderFirst, others.known base (alike.trans here.grown.alike) olderRest]
      rfl
    case old =>
      intro older
      obtain ⟨olderFirst, olderRest⟩ := forall_mem_cons.mp older
      have eq := here.old olderFirst
      rw [others.old (by rw [eq]; exact olderRest), eq, adjust_adjust, tally_cons e subElems, add_comm (tally subElems)]
      rfl
    case found =>
      intro found there
      rw [findFields] at there
      obtain ⟨o, hereFound, there⟩ := bind_eq_some_iff.mp there
      obtain ⟨os, restFound, there⟩ := bind_eq_some_iff.mp there
      cases there
      cases here.found o hereFound
      have eq := here.old (ElementStream.find_born hereFound)
      rw [← findFields_adjust (tally [e]) 0, ← eq] at restFound
      rw [others.found os restFound]

end

/-!
## Records of another class inside
-/

theorem mapM_id_none {objects : List (Option Nat)} (missing : none ∈ objects) : objects.mapM id = none := by
  induction objects with
  | nil => cases missing
  | cons first rest ih =>
    rw [mapM_cons]
    cases first with
    | none => rfl
    | some o =>
      rcases mem_cons.mp missing with eq | later
      · cases eq
      · rw [ih later]
        rfl

mutual

theorem ElementStream.load_none {h : Heap} : ∀ {stream : ElementStream}, stream ≠ .invalid →
    stream.valid = false → stream.createFromStream h = none
  | .invalid, other, _ => absurd rfl other
  | .mk c [], _, broken => by cases broken
  | .mk c (field :: fields), _, broken => by
    rw [ElementStream.valid] at broken
    rw [ElementStream.createFromStream]
    rcases @loadFields_none h (field :: fields) broken with nothing | ⟨sub, after, loaded, missing⟩
    · rw [nothing]
      rfl
    · rw [loaded, bind_eq_bind, bind_some, mapM_id_none missing]
      rfl

theorem loadFields_none {h : Heap} : ∀ {fields : List (FieldLabel × ElementStream)}, validFields fields = false →
    createFieldsFromStream fields h = none ∨ ∃ sub after, createFieldsFromStream fields h = some (sub, after) ∧ none ∈ sub
  | [], broken => by cases broken
  | (label, .invalid) :: rest, _ => by
    rw [createFieldsFromStream, ElementStream.createFromStream, bind_eq_bind, bind_some]
    cases createFieldsFromStream rest h with
    | none => exact .inl rfl
    | some others => exact .inr ⟨_, _, rfl, mem_cons_self⟩
  | (label, .mk c below) :: rest, broken => by
    rw [validFields, Bool.and_eq_false_iff] at broken
    rw [createFieldsFromStream]
    cases first : (ElementStream.mk c below).createFromStream h with
    | none => exact .inl rfl
    | some loaded =>
      rcases broken with here | later
      · have none := @ElementStream.load_none h (.mk c below) nofun here
        rw [none] at first
        cases first
      · rw [bind_eq_bind, bind_some]
        rcases @loadFields_none loaded.2 rest later with nothing | ⟨sub, after, others, missing⟩
        · rw [nothing]
          exact .inl rfl
        · rw [others]
          exact .inr ⟨_, _, rfl, mem_cons_of_mem _ missing⟩

end

/-!
## Loading types
-/

theorem form_of_matchesType {key : TypeKey} (matched : matchesType key e x = true) : x.what = .type key ∧ x.owns = [e] := by
  simpa [matchesType] using matched

structure NewType (h : Heap) (t : Nat) : Prop where
  steady : h.Steady
  born : t < h.next
  live : (h.object t).destroyed = false
  user : (h.object t).mUserRefCount = 1
  sys : (h.object t).mSysRefCount = 0

theorem TypeStream.load (steady : h.Steady) (valid : stream.valid = true) :
    ∃ t after, stream.createFromStream h = some (some t, after) ∧
      (stream.find h = some t ∧ after = h.adjust (tally [t]) 0 ∨ stream.find h = none ∧ NewType after t) := by
  match stream with
  | .invalid => cases valid
  | .mk elem key =>
    obtain ⟨e, mid, happens, loaded⟩ := elem.load steady valid
    have bornElem := loaded.grown.born e mem_cons_self
    obtain ⟨t, last, made⟩ := @Steady.create mid (.type key) [e] (matchesType key e) loaded.grown.steady
      fun child owned => (mem_singleton.mp owned) ▸ bornElem
    have held := made.held (fun x matched => (form_of_matchesType matched).2) e mem_cons_self
    refine ⟨t, last.adjust (-tally [e]) 0, ?_, ?_⟩
    · rw [TypeStream.createFromStream, happens]
      simp only [bind_eq_bind, bind_some, made.happens, decUserRefChecked_eq held.1 held.2]
      rfl
    rcases made.chosen with ⟨found, eq⟩ | ⟨missing, new, eq⟩
    · left
      obtain ⟨older, -, matched⟩ := findLive_live found
      obtain ⟨what, owns⟩ := form_of_matchesType matched
      -- only elements were added
      have there : t < h.next := by
        by_contra behind
        obtain ⟨c, labels, isElement⟩ := loaded.grown.fresh t (Nat.le_of_not_lt behind) older
        rw [what] at isElement
        cases isElement
      have lt : e < h.next := by
        have owned : e ∈ (mid.object t).owns := by
          rw [owns]
          exact mem_cons_self
        exact (loaded.grown.steady.ordered t (by rw [what]; rfl) e owned).trans there
      have unchanged := loaded.old lt
      constructor
      · rw [TypeStream.find, loaded.known h (.refl h) lt]
        exact findLive_of_alike (formal_matchesType key e) loaded.grown.alike found there
      · rw [eq, unchanged, adjust_adjust, adjust_adjust, ← add_assoc, add_neg_cancel_comm]
        rfl
    · right
      have other : t ≠ e := by
        rw [new]
        exact Nat.ne_of_gt bornElem.1
      constructor
      · cases known : (TypeStream.mk elem key).find h with
        | none => rfl
        | some there =>
          rw [TypeStream.find] at known
          obtain ⟨o, elementFound, known⟩ := bind_eq_some_iff.mp known
          cases loaded.found o elementFound
          rw [← findLive_adjust (formal_matchesType key e) (tally [e]) 0,
            ← loaded.old (ElementStream.find_born elementFound), missing] at known
          cases known
      · refine
          { steady := ?steady, born := made.born.1, live := made.born.2, user := ?counted, sys := ?held }
        case steady =>
          refine made.steady.adjust (fun o => ?_) (fun _ => le_rfl) fun o behind => ?_
          · have before := (steady.counts o).1
            have more := tally_nonneg [t] o
            rw [made.user, loaded.grown.user, Pi.neg_apply]
            omega
          · have ne : o ≠ e := Nat.ne_of_gt (bornElem.1.trans_le (made.alike.next.trans behind))
            rw [Pi.neg_apply, tally_of_ne ne, Int.neg_zero]
        case counted =>
          have counted : (last.object t).mUserRefCount + (-tally [e]) t = 1 := by
            rw [made.user, loaded.grown.steady.unborn t (Nat.le_of_eq new.symm), Pi.neg_apply, tally_self, tally_of_ne other]
            rfl
          exact counted
        case held =>
          rw [eq, new] at *
          simp [adjust, extend_self, tally_of_ne other]

/-!
## Deletion
-/

structure Heap.Later (h after : Heap) : Prop where
  next : after.next = h.next
  destroyed : ∀ o, (h.object o).destroyed = true → (after.object o).destroyed = true

theorem Heap.Later.refl (h : Heap) : Later h h := ⟨rfl, fun _ gone => gone⟩

theorem Heap.Later.trans (first : Later h middle) (second : Later middle after) : Later h after :=
  ⟨second.next.trans first.next, fun o gone => second.destroyed o (first.destroyed o gone)⟩

theorem Heap.later_adjust (h : Heap) (user sys : Nat → Int) : Later h (h.adjust user sys) := ⟨rfl, fun _ gone => gone⟩

theorem Heap.foldlM_later {act : Heap → Nat → Option Heap} (one : ∀ {h o after}, act h o = some after → Later h after)
    (happens : objects.foldlM act h = some after) : Later h after := by
  induction objects generalizing h with
  | nil =>
    cases happens
    exact .refl _
  | cons o rest ih =>
    obtain ⟨mid, first, later⟩ := bind_eq_some_iff.mp happens
    exact (one first).trans (ih later)

theorem Heap.decSysRefChecked_of_later (one : ∀ {h o after}, checkDelete h o = some after → Later h after)
    (happens : h.decSysRefChecked checkDelete o = some after) : Later h after := by
  obtain ⟨mid, touched, released⟩ := bind_eq_some_iff.mp happens
  have counted : Later h mid := by
    unfold touch at touched
    split at touched
    case isTrue => cases touched
    case isFalse =>
      cases touched
      rw [decSys_eq]
      exact later_adjust _ _ _
  split at released
  case isTrue => exact counted.trans (one released)
  case isFalse =>
    cases released
    exact counted

theorem Heap.checkDeleteChecked_later (happens : h.checkDeleteChecked fuel o = some after) : Later h after := by
  induction fuel generalizing h o after with
  | zero =>
    cases happens
    exact .refl _
  | succ fuel ih =>
    rw [checkDeleteChecked] at happens
    split at happens
    case isTrue => cases happens
    case isFalse =>
      split at happens
      case isTrue =>
        cases happens
        exact .refl _
      case isFalse =>
        have gone : Later h (h.change o fun x => { x with destroyed := true }) :=
          ⟨rfl, forall_change (fun p x => (h.object p).destroyed = true → x.destroyed = true)
            (fun _ => rfl) fun _ _ gone => gone⟩
        exact gone.trans (foldlM_later (decSysRefChecked_of_later ih) happens)

/-!
## Allocations
-/

/-- The heap with a new allocation of a type that has lost the user reference of the load. -/
def Heap.allocated (h : Heap) (t : Nat) : Heap :=
  (h.extend .allocation [t]).adjust (-tally [t]) (tally [t])

theorem Heap.Steady.allocate (steady : h.Steady) (born : t < h.next) (live : (h.object t).destroyed = false) :
    ∃ made, h.newChecked .allocation [t] = some (h.next, made) ∧ made.decUserRefChecked t = some (h.allocated t) := by
  have ne : t ≠ h.next := ne_of_lt born
  have counts := (steady.counts t).2
  have kept : 0 < (((h.extend .allocation [t]).adjust 0 (tally [t])).object t).mSysRefCount := by
    simp only [Heap.adjust, extend_of_ne ne, tally_self]
    omega
  have alive : (((h.extend .allocation [t]).adjust 0 (tally [t])).object t).destroyed = false := by
    simpa [Heap.adjust, extend_of_ne ne] using live
  refine ⟨_, newChecked_eq fun child owned => (mem_singleton.mp owned) ▸ live, ?_⟩
  rw [decUserRefChecked_eq alive kept, adjust_adjust, zero_add, add_zero]
  rfl

theorem Heap.allocated_self (born : t < h.next) : (h.allocated t).object h.next = { what := .allocation, owns := [t] } := by
  simp [allocated, Heap.adjust, extend_self, tally_of_ne (ne_of_gt born)]

theorem Heap.allocated_type (born : t < h.next) : (h.allocated t).object t = { h.object t with
      mUserRefCount := (h.object t).mUserRefCount - 1
      mSysRefCount := (h.object t).mSysRefCount + 1 } := by
  simp [allocated, Heap.adjust, extend_of_ne (ne_of_lt born), tally_self, sub_eq_add_neg]

theorem Heap.delete_allocated {h : Heap} (born : t < h.next) :
    (h.allocated t).checkDeleteChecked (h.allocated t).next h.next = decSysRefChecked (checkDeleteChecked h.next)
        ((h.allocated t).change h.next fun x => { x with destroyed := true }) t := by
  have next : (h.allocated t).next = h.next + 1 := rfl
  rw [next, checkDeleteChecked, allocated_self born]
  simp

theorem Heap.checkDeleteChecked_kept (fuel : Nat) (live : (h.object o).destroyed = false)
    (counted : (h.object o).mUserRefCount ≠ 0 ∨ (h.object o).mSysRefCount ≠ 0) :
    h.checkDeleteChecked fuel o = some h := by
  cases fuel with
  | zero => rfl
  | succ fuel => rw [checkDeleteChecked, live, if_neg Bool.false_ne_true, if_pos counted]

theorem delete_old (born : t < h.next) (live : (h.object t).destroyed = false)
    (counted : 0 < (h.object t).mUserRefCount + (h.object t).mSysRefCount) :
    ∃ after, (((h.adjust (tally [t]) 0).allocated t).checkDeleteChecked ((h.adjust (tally [t]) 0).allocated t).next
        h.next).bind (fun h => h.checkDeleteChecked h.next t) = some after ∧
      (∀ o < h.next, after.object o = h.object o) ∧
      ∀ o, h.next ≤ o → o < after.next → (after.object o).destroyed = true := by
  let gone := ((h.adjust (tally [t]) 0).allocated t).change h.next fun x => { x with destroyed := true }
  have older (o : Nat) (differs : o ≠ h.next) : gone.object o = { h.object o with
      mSysRefCount := (h.object o).mSysRefCount + tally [t] o } := by
    have other : o ≠ (h.adjust (tally [t]) 0).next := differs
    rw [change_of_ne _ differs, allocated, adjust_object, extend_of_ne other]
    simp [adjust]
  have there := older t (ne_of_lt born)
  have back (o : Nat) (differs : o ≠ h.next) : (gone.adjust 0 (-tally [t])).object o = h.object o := by
    rw [adjust_object, older o differs]
    simp
  have eq := back t (ne_of_lt born)
  refine ⟨gone.adjust 0 (-tally [t]), ?_, ?_, ?_⟩
  · have deleted := @delete_allocated t (h.adjust (tally [t]) 0) born
    have released : decSysRefChecked (checkDeleteChecked h.next) gone t = some (gone.adjust 0 (-tally [t])) := by
      apply decSysRefChecked_eq
      · rw [there]
        exact live
      · rw [there, tally_self]
        dsimp only
        omega
    refine (congrArg (Option.bind · _) (deleted.trans released)).trans ?_
    refine checkDeleteChecked_kept _ ?_ ?_
    · rw [eq]
      exact live
    · rw [eq]
      omega
  · exact fun o lt => back o (ne_of_lt lt)
  · intro o behind lt
    cases le_antisymm (Nat.le_of_lt_succ lt) behind
    have destroyed : (gone.object h.next).destroyed = true := by rw [change_self]
    exact destroyed

theorem delete_new (new : NewType h t) : ((h.allocated t).checkDeleteChecked (h.allocated t).next h.next).bind
      (fun h => h.checkDeleteChecked h.next t) = none := by
  have ne : t ≠ h.next := ne_of_lt new.born
  let gone := (h.allocated t).change h.next fun x => { x with destroyed := true }
  have there : gone.object t = { h.object t with mUserRefCount := 0, mSysRefCount := 1 } := by
    rw [change_of_ne _ ne, allocated_type new.born, new.user, new.sys]
    rfl
  have released : decSysRefChecked (checkDeleteChecked h.next) gone t =
      checkDeleteChecked h.next (gone.adjust 0 (-tally [t])) t := by
    have live : (gone.object t).destroyed = false := by
      rw [there]
      exact new.live
    rw [decSysRefChecked, touch_eq live, bind_eq_bind, bind_some, decSys_eq, there]
    exact if_pos ⟨le_rfl, le_rfl⟩
  have unused : (gone.adjust 0 (-tally [t])).object t = { h.object t with mUserRefCount := 0, mSysRefCount := 0 } := by
    rw [adjust_object, there]
    simp [tally_self]
  rw [delete_allocated new.born]
  refine (congrArg (Option.bind · _) released).trans ?_
  cases deleted : checkDeleteChecked h.next (gone.adjust 0 (-tally [t])) t with
  | none => rfl
  | some after =>
    obtain ⟨fuel, enough⟩ := Nat.exists_eq_succ_of_ne_zero (ne_of_gt (Nat.zero_lt_of_lt new.born))
    have destroyed : (after.object t).destroyed = true ∧ after.next = h.next + 1 := by
      rw [enough, checkDeleteChecked, unused, new.live] at deleted
      have later := foldlM_later (decSysRefChecked_of_later checkDeleteChecked_later) deleted
      exact ⟨later.destroyed t (by rw [change_self]), later.next⟩
    simp [destroyed.2, checkDeleteChecked, destroyed.1]

/-!
## Failed loads
-/

theorem released_unchanged (h : Heap) : Released h (some (none, h)) :=
  ⟨h, rfl, fun _ _ => rfl, fun _ behind older => absurd older (Nat.not_lt_of_le behind)⟩

theorem not_released_none (h : Heap) : ¬ Released h none := fun ⟨_, nothing, _⟩ => nomatch nothing

theorem ElementStream.cases (stream : ElementStream) :
    stream = .invalid ∨ stream.valid = true ∨ stream ≠ .invalid ∧ stream.valid = false := by
  cases valid : stream.valid with
  | true => exact .inr (.inl rfl)
  | false =>
    by_cases other : stream = .invalid
    · exact .inl other
    · exact .inr (.inr ⟨other, rfl⟩)

theorem ElementStream.not_intact {stream : ElementStream} (other : stream ≠ .invalid)
    (broken : stream.valid = false) : ¬ stream.Intact := by
  rintro (eq | valid)
  · exact other eq
  · rw [broken] at valid
    cases valid

theorem TypeStream.cases (stream : TypeStream) (h : Heap) :
    stream.Intact ∧ stream.valid = false ∧ stream.createFromStream h = some (none, h) ∨
      stream.Intact ∧ stream.valid = true ∨ ¬ stream.Intact ∧ stream.createFromStream h = none := by
  match stream with
  | .invalid => exact .inl ⟨trivial, rfl, rfl⟩
  | .mk elem key =>
    rcases elem.cases with rfl | valid | ⟨other, broken⟩
    · exact .inl ⟨.inl rfl, rfl, rfl⟩
    · exact .inr (.inl ⟨.inr valid, valid⟩)
    · refine .inr (.inr ⟨ElementStream.not_intact other broken, ?_⟩)
      rw [TypeStream.createFromStream, ElementStream.load_none other broken]
      rfl

section

variable (happens : stream.createFromStream h = some (some t, after)) (steady : after.Steady)
  (born : t < after.next) (live : (after.object t).destroyed = false)

include happens steady born live

theorem AllocationStream.load_unsized : (AllocationStream.mk stream true false).createFromStream h =
      (((after.allocated t).checkDeleteChecked (after.allocated t).next after.next).bind
        (fun h => h.checkDeleteChecked h.next t)).map (none, ·) := by
  obtain ⟨made, new, counted⟩ := steady.allocate born live
  rw [AllocationStream.createFromStream, happens]
  simp only [bind_eq_bind, bind_some, Bool.not_true, Bool.false_eq_true, if_false, new, counted]
  cases (after.allocated t).checkDeleteChecked (after.allocated t).next after.next with
  | none => rfl
  | some last =>
    rw [bind_some, bind_some]
    cases last.checkDeleteChecked last.next t with
    | none => rfl
    | some last => rfl

theorem AllocationStream.load_sized :
    (AllocationStream.mk stream true true).createFromStream h = some (some after.next, after.allocated t) := by
  obtain ⟨made, new, counted⟩ := steady.allocate born live
  rw [AllocationStream.createFromStream, happens]
  simp only [bind_eq_bind, bind_some, new, counted]
  rfl

end

theorem TypeStream.find_live (found : stream.find h = some t) :
    t < h.next ∧ (h.object t).destroyed = false ∧ ∃ key, (h.object t).what = .type key := by
  match stream with
  | .invalid => cases found
  | .mk elem key =>
    obtain ⟨e, -, found⟩ := bind_eq_some_iff.mp found
    obtain ⟨born, live, matched⟩ := findLive_live found
    exact ⟨born, live, key, (form_of_matchesType matched).1⟩

theorem AllocationStream.released_iff (settled : h.Settled) (valid : stream.valid = true) {init sized : Bool}
    (failed : ∀ o after, (AllocationStream.mk stream init sized).createFromStream h ≠ some (some o, after)) :
    Released h ((AllocationStream.mk stream init sized).createFromStream h) ↔
      init = true ∧ (sized = true ∨ (stream.find h).isSome = true) := by
  obtain ⟨t, after, happens, outcome⟩ := TypeStream.load settled.steady valid
  cases init with
  | false =>
    have nothing : (AllocationStream.mk stream false sized).createFromStream h = none := by
      rw [AllocationStream.createFromStream, happens]
      rfl
    rw [nothing]
    exact iff_of_false (not_released_none h) (fun cond => Bool.false_ne_true cond.1)
  | true =>
    rcases outcome with ⟨found, rfl⟩ | ⟨missing, new⟩
    · obtain ⟨born, live, key, what⟩ := TypeStream.find_live found
      have steady : (h.adjust (tally [t]) 0).Steady := by
        refine settled.steady.adjust (fun o => add_nonneg (settled.counts o).1 (tally_nonneg _ o))
          (fun _ => le_rfl) fun o behind => ?_
        exact tally_of_ne (ne_of_gt (born.trans_le behind))
      cases sized with
      | true => exact absurd (AllocationStream.load_sized happens steady born live) (failed _ _)
      | false =>
        have counted := settled.counted t born live (by rw [what]; rfl)
        obtain ⟨after, deleted, eq, destroyed⟩ := delete_old born live counted
        have outcome := AllocationStream.load_unsized happens steady born live
        refine iff_of_true ⟨after, outcome.trans ?_, eq, destroyed⟩ ⟨rfl, .inr (isSome_of_eq_some found)⟩
        exact congrArg (Option.map (none, ·)) deleted
    · cases sized with
      | true => exact absurd (AllocationStream.load_sized happens new.steady new.born new.live) (failed _ _)
      | false =>
        rw [AllocationStream.load_unsized happens new.steady new.born new.live, delete_new new, missing]
        refine iff_of_false (not_released_none h) ?_
        simp

/-- A load that fails leaves nothing behind exactly if the stream is clean. -/
theorem failed_load_released_iff {h : Heap} (settled : h.Settled) (stream : ObjectStream)
    (failed : ∀ o after, stream.createFromStream h ≠ some (some o, after)) :
    Released h (stream.createFromStream h) ↔ stream.Clean h := by
  match stream with
  | .element stream =>
    rcases stream.cases with rfl | valid | ⟨other, broken⟩
    · exact iff_of_true (released_unchanged h) (.inl rfl)
    · obtain ⟨e, after, happens, -⟩ := stream.load settled.steady valid
      exact absurd happens (failed e after)
    · have nothing : (ObjectStream.element stream).createFromStream h = none := ElementStream.load_none other broken
      rw [nothing]
      exact iff_of_false (not_released_none h) (ElementStream.not_intact other broken)
  | .type stream =>
    rcases stream.cases h with ⟨intact, -, happens⟩ | ⟨-, valid⟩ | ⟨broken, nothing⟩
    · have happens : (ObjectStream.type stream).createFromStream h = some (none, h) := happens
      rw [happens]
      exact iff_of_true (released_unchanged h) intact
    · obtain ⟨t, after, happens, -⟩ := TypeStream.load settled.steady valid
      exact absurd happens (failed t after)
    · have nothing : (ObjectStream.type stream).createFromStream h = none := nothing
      rw [nothing]
      exact iff_of_false (not_released_none h) broken
  | .allocation .invalid => exact iff_of_true (released_unchanged h) trivial
  | .allocation (.mk stream init sized) =>
    rcases stream.cases h with ⟨intact, invalid, happens⟩ | ⟨intact, valid⟩ | ⟨broken, nothing⟩
    · have happens : (ObjectStream.allocation (.mk stream init sized)).createFromStream h = some (none, h) := by
        rw [ObjectStream.createFromStream, AllocationStream.createFromStream, happens]
        rfl
      rw [happens]
      refine iff_of_true (released_unchanged h) ⟨intact, fun valid => ?_⟩
      rw [invalid] at valid
      cases valid
    · have both := AllocationStream.released_iff settled valid failed
      exact both.trans ⟨fun cond => ⟨intact, fun _ => cond⟩, fun clean => clean.2 valid⟩
    · have nothing : (ObjectStream.allocation (.mk stream init sized)).createFromStream h = none := by
        rw [ObjectStream.createFromStream, AllocationStream.createFromStream, nothing]
        rfl
      rw [nothing]
      exact iff_of_false (not_released_none h) fun clean => broken clean.1

def floatStream : ElementStream := .mk (.set .float32 .user false 1) []

def floatsStream : TypeStream :=
  .mk floatStream { dimX := 8, dimY := 0, dimZ := 0, mDimLOD := false, faces := false, dimYuv := 0 }

/-- A context that has the type of `floatsStream`. -/
def floatsHeap : Heap where
  object
    | 0 => { what := .element (.set .float32 .user false 1) [], mSysRefCount := 1 }
    | 1 =>
      { what := .type { dimX := 8, dimY := 0, dimZ := 0, mDimLOD := false, faces := false, dimYuv := 0 }, owns := [0]
        mUserRefCount := 1 }
    | _ => { what := .mesh }
  next := 2

theorem settled_floatsHeap : floatsHeap.Settled where
  counts
    | 0 => by decide
    | 1 => by decide
    | _ + 2 => ⟨le_rfl, le_rfl⟩
  ordered
    | 0 => by decide
    | 1 => by decide
    | _ + 2 => nofun
  held
    | 0, _ => by decide
    | 1, _ => by decide
    | _ + 2, lt => absurd lt (Nat.not_lt_of_le (Nat.le_add_left 2 _))
  unborn
    | 0, out => absurd out (by decide)
    | 1, out => absurd out (by decide)
    | _ + 2, _ => rfl
  counted
    | 0, _ => by decide
    | 1, _ => by decide
    | _ + 2, lt => absurd lt (Nat.not_lt_of_le (Nat.le_add_left 2 _))

/-- An allocation of a type that is there, with a wrong size. -/
theorem failed_load_released_floats :
    Released floatsHeap ((ObjectStream.allocation (.mk floatsStream true false)).createFromStream floatsHeap) := by
  have null : ((ObjectStream.allocation (.mk floatsStream true false)).createFromStream floatsHeap).map (·.1) =
      some none := by
    decide +kernel
  refine (failed_load_released_iff settled_floatsHeap _ ?_).mpr ?_
  · intro o after loaded
    rw [loaded] at null
    cases null
  · exact ⟨.inr rfl, fun _ => ⟨rfl, .inr (by decide +kernel)⟩⟩

/-- A field of another class leaves NULL in the element. The type of an allocation with a wrong size
is destroyed with it and accessed again. -/
theorem failed_load_not_released :
    (ObjectStream.element (.mk .initial [(⟨⟨[], nofun⟩, 1⟩, .invalid)])).createFromStream {} = none ∧
      (ObjectStream.allocation (.mk floatsStream true false)).createFromStream {} = none := by
  constructor
  · rfl
  · have nothing : ((ObjectStream.allocation (.mk floatsStream true false)).createFromStream {}).isNone := by
      decide +kernel
    exact isNone_iff_eq_none.mp nothing

end RenderScript.A3D
