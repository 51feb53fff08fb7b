import RenderScript.Foundation.Interleaving

/-!
# Look up, then insert

Threads that look for an entry in a shared table and, when there is none, make one
and insert it. Look-up and insertion are atomic, and other threads act in between.
-/

namespace LookupInsert
open Interleaving List Option Function

section

variable {Thread Slot Request Entry Key : Type} [DecidableEq Thread] [DecidableEq Slot]

/-- What a request looks for and makes; there is one table per slot. Some requests can fail
when they make the entry. -/
structure Protocol (Slot Request Entry : Type) where
  slot : Request → Slot
  isMatch : Request → Entry → Bool
  make : Nat → Request → Entry
  address : Entry → Nat
  mayFail : Request → Bool

/-- `pending` has the entries between look-up and insertion, `held` the results that are
referenced. -/
structure State (Thread Slot Request Entry : Type) where
  table : Slot → List Entry := fun _ => []
  next : Nat := 0
  pending : Thread → Option (Request × Entry) := fun _ => none
  held : List (Request × Entry) := []

inductive Act (Thread Slot Request : Type) where
  | lookup (thread : Thread) (request : Request)
  | insert (thread : Thread)
  | fail (thread : Thread)
  -- the result at an index is not referenced any more
  | release (index : Nat)
  -- an entry that is not referenced leaves the table
  | destroy (slot : Slot) (address : Nat)

/-- An entry is found, or one is made. -/
def Protocol.lookup (protocol : Protocol Slot Request Entry) (s : State Thread Slot Request Entry)
    (thread : Thread) (request : Request) : State Thread Slot Request Entry :=
  match (s.table (protocol.slot request)).find? (protocol.isMatch request) with
  | some entry => { s with held := (request, entry) :: s.held }
  | none =>
    { s with next := s.next + 1, pending := Function.update s.pending thread (some (request, protocol.make s.next request)) }

def Protocol.insert (protocol : Protocol Slot Request Entry) (s : State Thread Slot Request Entry)
    (thread : Thread) (ref : Request × Entry) : State Thread Slot Request Entry :=
  { s with
    table := Function.update s.table (protocol.slot ref.1) (s.table (protocol.slot ref.1) ++ [ref.2])
    pending := Function.update s.pending thread none
    held := ref :: s.held }

def Protocol.step (protocol : Protocol Slot Request Entry) (s : State Thread Slot Request Entry) :
    Act Thread Slot Request → Option (State Thread Slot Request Entry)
  | .lookup thread request =>
    if (s.pending thread).isNone then some (protocol.lookup s thread request) else none
  | .insert thread => (s.pending thread).map (protocol.insert s thread)
  | .fail thread =>
    if (s.pending thread).any fun ref => protocol.mayFail ref.1 then
      some { s with pending := Function.update s.pending thread none }
    else none
  | .release index => some { s with held := s.held.eraseIdx index }
  | .destroy slot address =>
    if s.held.all fun ref => protocol.address ref.2 != address then
      some { s with table := Function.update s.table slot ((s.table slot).filter fun entry => protocol.address entry != address) }
    else none

/-- One entry per key, and one result per key asked for. -/
structure State.Unique (s : State Thread Slot Request Entry) (key : Entry → Key)
    (want : Request → Key) : Prop where
  tables : ∀ slot, ((s.table slot).map key).Nodup
  results : ∀ ref ∈ s.held, ∀ other ∈ s.held, want ref.1 = want other.1 → ref.2 = other.2

/-- Fine requests find and make the entries with the key they want. -/
structure Protocol.Keyed (protocol : Protocol Slot Request Entry) (key : Entry → Key)
    (want : Request → Key) (Fine : Request → Prop) : Prop where
  match_iff : ∀ {request : Request} {entry : Entry}, Fine request →
    (protocol.isMatch request entry = true ↔ key entry = want request)
  made : ∀ {request : Request} (address : Nat), Fine request →
    key (protocol.make address request) = want request
  slots : ∀ {request other : Request}, want request = want other →
    protocol.slot request = protocol.slot other

/-- Only fine requests. -/
def AsksFor (Fine : Request → Prop) (_ : State Thread Slot Request Entry) :
    Act Thread Slot Request → Prop
  | .lookup _ request => Fine request
  | _ => True

/-- An insertion finds no entry that the request would have taken. -/
def Protocol.Clean (protocol : Protocol Slot Request Entry) (s : State Thread Slot Request Entry) :
    Act Thread Slot Request → Prop
  | .insert thread => ∀ ref ∈ s.pending thread, ∀ entry ∈ s.table (protocol.slot ref.1),
      protocol.isMatch ref.1 entry = false
  | _ => True

/-- What holds with and without clean insertions. -/
structure Protocol.Sound (protocol : Protocol Slot Request Entry) (key : Entry → Key)
    (want : Request → Key) (Fine : Request → Prop) (s : State Thread Slot Request Entry) : Prop where
  pending : ∀ thread, ∀ ref ∈ s.pending thread, Fine ref.1 ∧ key ref.2 = want ref.1
  held : ∀ ref ∈ s.held, ref.2 ∈ s.table (protocol.slot ref.1) ∧ key ref.2 = want ref.1

variable {protocol : Protocol Slot Request Entry} {key : Entry → Key} {want : Request → Key}
  {Fine : Request → Prop} {s next : State Thread Slot Request Entry} {act : Act Thread Slot Request}

theorem mem_table_insert {slot other : Slot} {entry added : Entry} {table : Slot → List Entry} :
    entry ∈ Function.update table slot (table slot ++ [added]) other ↔ entry ∈ table other ∨ other = slot ∧ entry = added := by
  rcases eq_or_ne other slot with rfl | ne
  · simp
  · simp [ne]

theorem nodup_insert {slot : Slot} {added : Entry} {table : Slot → List Entry} :
    ((Function.update table slot (table slot ++ [added]) slot).map key).Nodup ↔
      (∀ entry ∈ table slot, key entry ≠ key added) ∧ ((table slot).map key).Nodup := by
  rw [update_self, map_append, map_singleton, ← concat_eq_append, nodup_concat]
  simp

omit [DecidableEq Slot] in
theorem pending_update {thread : Thread} {value : Option (Request × Entry)}
    {Holds : Request × Entry → Prop} (before : ∀ other, ∀ ref ∈ s.pending other, Holds ref)
    (new : ∀ ref ∈ value, Holds ref) (other : Thread) :
    ∀ ref ∈ Function.update s.pending thread value other, Holds ref := by
  rcases eq_or_ne other thread with rfl | ne
  · rwa [update_self]
  · rw [update_of_ne ne]
    exact before other

theorem Protocol.Sound.step (keyed : protocol.Keyed key want Fine)
    (sound : protocol.Sound key want Fine s) (fine : AsksFor Fine s act)
    (moved : protocol.step s act = some next) : protocol.Sound key want Fine next := by
  cases act with
  | lookup thread req =>
    obtain ⟨_, made⟩ := ite_none_right_eq_some.mp moved
    cases made
    rw [Protocol.lookup]
    cases found : (s.table (protocol.slot req)).find? (protocol.isMatch req) with
    | some entry =>
      refine ⟨sound.pending, forall_mem_cons.mpr ⟨⟨?_, ?_⟩, sound.held⟩⟩
      · exact List.mem_of_find?_eq_some found
      · exact (keyed.match_iff fine).mp (List.find?_some found)
    | none =>
      refine ⟨pending_update sound.pending ?_, sound.held⟩
      rintro ref ⟨⟩
      exact ⟨fine, keyed.made s.next fine⟩
  | insert thread =>
    obtain ⟨ref, waiting, rfl⟩ := map_eq_some_iff.mp moved
    refine ⟨pending_update sound.pending fun _ none => (nomatch none), ?_⟩
    refine forall_mem_cons.mpr ⟨⟨mem_table_insert.mpr (.inr ⟨rfl, rfl⟩), ?_⟩, ?_⟩
    · exact (sound.pending thread ref waiting).2
    · intro old mem
      exact ⟨mem_table_insert.mpr (.inl (sound.held old mem).1), (sound.held old mem).2⟩
  | fail thread =>
    obtain ⟨_, made⟩ := ite_none_right_eq_some.mp moved
    cases made
    exact ⟨pending_update sound.pending fun _ none => (nomatch none), sound.held⟩
  | release i =>
    cases moved
    exact ⟨sound.pending, fun ref mem => sound.held ref (mem_of_mem_eraseIdx mem)⟩
  | destroy slot addr =>
    obtain ⟨unused, made⟩ := ite_none_right_eq_some.mp moved
    cases made
    refine ⟨sound.pending, fun ref mem => ⟨?_, (sound.held ref mem).2⟩⟩
    have stays := (sound.held ref mem).1
    show ref.2 ∈ Function.update s.table slot _ (protocol.slot ref.1)
    rcases eq_or_ne (protocol.slot ref.1) slot with rfl | ne
    · rw [update_self]
      exact mem_filter.mpr ⟨stays, List.all_eq_true.mp unused ref mem⟩
    · rwa [update_of_ne ne]

/-- One entry per key, over clean steps. -/
theorem tables_step (keyed : protocol.Keyed key want Fine) (sound : protocol.Sound key want Fine s)
    (tables : ∀ slot, ((s.table slot).map key).Nodup)
    (clean : protocol.Clean s act) (moved : protocol.step s act = some next) (slot : Slot) :
    ((next.table slot).map key).Nodup := by
  cases act with
  | lookup thread req =>
    obtain ⟨_, made⟩ := ite_none_right_eq_some.mp moved
    cases made
    rw [Protocol.lookup]
    split <;> exact tables slot
  | insert thread =>
    obtain ⟨ref, waiting, rfl⟩ := map_eq_some_iff.mp moved
    show ((Function.update s.table (protocol.slot ref.1) _ slot).map key).Nodup
    rcases eq_or_ne slot (protocol.slot ref.1) with rfl | ne
    · refine nodup_insert.mpr ⟨fun entry mem eq => ?_, tables _⟩
      obtain ⟨fine, wanted⟩ := sound.pending thread ref waiting
      have missed := clean ref waiting entry mem
      rw [(keyed.match_iff fine).mpr (eq.trans wanted)] at missed
      cases missed
    · rw [update_of_ne ne]
      exact tables slot
  | fail thread =>
    obtain ⟨_, made⟩ := ite_none_right_eq_some.mp moved
    cases made
    exact tables slot
  | release i =>
    cases moved
    exact tables slot
  | destroy left addr =>
    obtain ⟨_, made⟩ := ite_none_right_eq_some.mp moved
    cases made
    show ((Function.update s.table left _ slot).map key).Nodup
    rcases eq_or_ne slot left with rfl | ne
    · rw [update_self]
      exact (tables slot).sublist (filter_sublist.map key)
    · rw [update_of_ne ne]
      exact tables slot

omit [DecidableEq Thread] [DecidableEq Slot] in
/-- Two results for one key are one entry of the table. -/
theorem Protocol.Sound.unique (keyed : protocol.Keyed key want Fine) (sound : protocol.Sound key want Fine s)
    (tables : ∀ slot, ((s.table slot).map key).Nodup) :
    s.Unique key want where
  tables := tables
  results ref member other otherMember same := by
    obtain ⟨inTable, wanted⟩ := sound.held ref member
    obtain ⟨otherInTable, otherWanted⟩ := sound.held other otherMember
    rw [← keyed.slots same] at otherInTable
    exact inj_on_of_nodup_map (tables _) inTable otherInTable (wanted.trans (same.trans otherWanted.symm))

/-- An insertion that is not clean puts a second entry with the same key into the table. -/
theorem Protocol.Sound.clean_of_unique (keyed : protocol.Keyed key want Fine)
    (sound : protocol.Sound key want Fine s) (moved : protocol.step s act = some next)
    (unique : next.Unique key want) : protocol.Clean s act := by
  cases act with
  | insert thread =>
    intro ref waiting entry mem
    obtain ⟨fine, wanted⟩ := sound.pending thread ref waiting
    obtain ⟨eq, waits, rfl⟩ := map_eq_some_iff.mp moved
    cases Option.some.inj (mem_def.mp waiting ▸ waits)
    have apart := (nodup_insert.mp (unique.tables (protocol.slot ref.1))).1 entry mem
    rw [← Bool.not_eq_true, keyed.match_iff fine]
    exact fun isMatch => apart (isMatch.trans wanted.symm)
  | _ => trivial

theorem unique_throughout_iff (keyed : protocol.Keyed key want Fine) {acts : List (Act Thread Slot Request)}
    (run : Run protocol.step (AsksFor Fine) {} acts s) :
    Throughout protocol.step (AsksFor Fine) {} (fun s => s.Unique key want) acts ↔
      Run protocol.step (fun s act => AsksFor Fine s act ∧ protocol.Clean s act) {} acts s := by
  have sound : ∀ {acts s}, Run protocol.step (AsksFor Fine) ({} : State Thread Slot Request Entry) acts s →
      protocol.Sound key want Fine s := fun run =>
    Run.invariant (fun _ s => protocol.Sound key want Fine s) run
      ⟨fun _ _ none => (nomatch none), fun _ none => (nomatch none)⟩ fun sound fine moved =>
        sound.step keyed fine moved
  refine run.throughout_iff ?_ ?_
  · intro acts s cleanly
    refine (sound (cleanly.mono And.left)).unique keyed ?_
    refine (Run.invariant (fun _ s => protocol.Sound key want Fine s ∧ ∀ slot, ((s.table slot).map key).Nodup) cleanly ?_ ?_).2
    · exact ⟨sound .nil, fun _ => List.Pairwise.nil⟩
    · rintro acts s act next ⟨before, tables⟩ ⟨fine, clean⟩ moved
      exact ⟨before.step keyed fine moved, tables_step keyed before tables clean moved⟩
  · intro acts s next act before fine moved unique
    exact (sound (before.mono And.left)).clean_of_unique keyed moved unique

end

end LookupInsert
