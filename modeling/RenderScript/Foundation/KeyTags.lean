import Mathlib

/-!
# Tags shared by items with one key

Items of a list get tags one after the other. An item without a tag gets a new one, together with
all later items that have its key.
-/

namespace KeyTags
open List Option Function

variable {ι κ : Type} [DecidableEq ι] [DecidableEq κ] {key : ι → κ}

/-- The tags of items, and the next new one. -/
structure Tags (ι : Type) where
  tag : ι → Option Nat
  next : Nat

/-- The items behind one that has got a tag. -/
def share (key : ι → κ) (first : ι) (tag : Nat) : List ι → (ι → Option Nat) → ι → Option Nat
  | [], tags => tags
  | item :: rest, tags =>
    share key first tag rest (if key item = key first then Function.update tags item (some tag) else tags)

/-- An item gets the next tag, and the items behind it with its key. -/
def renewed (key : ι → κ) (s : Tags ι) (first : ι) (rest : List ι) : Tags ι where
  tag := share key first s.next rest (Function.update s.tag first (some s.next))
  next := s.next + 1

def assign (key : ι → κ) : List ι → Tags ι → Tags ι
  | [], s => s
  | item :: rest, s =>
    match s.tag item with
    | some _ => assign key rest s
    | none => assign key rest (renewed key s item rest)

/-- Tags are not used again, and items have the same tag exactly if they have the same key. -/
structure Kept (key : ι → κ) (s : Tags ι) : Prop where
  below : ∀ {i tag}, s.tag i = some tag → tag < s.next
  shared : ∀ {i j tag other}, s.tag i = some tag → s.tag j = some other → (tag = other ↔ key i = key j)

/-- Items with the key of one that has a tag have tags. -/
def Closed (key : ι → κ) (s : Tags ι) (items : List ι) : Prop :=
  ∀ {i tag}, s.tag i = some tag → ∀ j ∈ items, key j = key i → s.tag j ≠ none

variable {s : Tags ι} {items : List ι} {first i : ι} {tag : Nat}

omit [DecidableEq ι] [DecidableEq κ] in
theorem kept_start (key : ι → κ) : Kept key { tag := fun _ => none, next := 0 } := ⟨nofun, nofun⟩

theorem share_of_key_ne {tags : ι → Option Nat} (other : key i ≠ key first) : share key first tag items tags i = tags i := by
  induction items generalizing tags with
  | nil => rfl
  | cons item rest ih =>
    rw [share, ih]
    split
    case isTrue eq =>
      apply update_of_ne
      rintro rfl
      exact other eq
    case isFalse => rfl

/-- An item with the key has the tag if it had it or is in the list. -/
theorem share_of_key_eq {tags : ι → Option Nat} (same : key i = key first) :
    share key first tag items tags i = if i ∈ items then some tag else tags i := by
  induction items generalizing tags with
  | nil => rfl
  | cons item rest ih =>
    rw [share, ih]
    by_cases equal : i = item
    · subst equal
      simp [same]
    · have kept : (if key item = key first then Function.update tags item (some tag) else tags) i = tags i := by
        split
        · exact update_of_ne equal _ _
        · rfl
      simp [kept, equal]

section

variable (kept : Kept key s) (closed : Closed key s (first :: items)) (without : s.tag first = none)

include kept closed without

omit kept in
theorem renewed_cases (has : (renewed key s first items).tag i = some tag) :
    (s.tag i = some tag ∧ key i ≠ key first) ∨ (tag = s.next ∧ key i = key first ∧ i ∈ first :: items) := by
  by_cases eq : key i = key first
  · refine .inr ?_
    simp only [renewed, share_of_key_eq eq] at has
    split at has
    case isTrue mem => exact ⟨(Option.some.inj has).symm, eq, mem_cons_of_mem _ mem⟩
    case isFalse =>
      by_cases equal : i = first
      · subst equal
        rw [update_self] at has
        exact ⟨(Option.some.inj has).symm, rfl, mem_cons_self⟩
      · rw [update_of_ne equal] at has
        exact absurd without (closed has first mem_cons_self eq.symm)
  · refine .inl ⟨?_, eq⟩
    simp only [renewed, share_of_key_ne eq] at has
    rw [update_of_ne] at has
    · exact has
    · rintro rfl
      exact eq rfl

omit kept closed without in
theorem renewed_of_key_ne (other : key i ≠ key first) : (renewed key s first items).tag i = s.tag i := by
  simp only [renewed, share_of_key_ne other]
  apply update_of_ne
  rintro rfl
  exact other rfl

omit kept closed without in
theorem renewed_of_mem (same : key i = key first) (mem : i ∈ first :: items) :
    (renewed key s first items).tag i = some s.next := by
  simp only [renewed, share_of_key_eq same]
  split
  · rfl
  · rcases mem_cons.mp mem with rfl | later
    · exact update_self _ _ _
    · contradiction

theorem kept_renewed : Kept key (renewed key s first items) := by
  constructor
  · intro i tag has
    rcases renewed_cases closed without has with ⟨old, -⟩ | ⟨rfl, -⟩
    · exact (kept.below old).trans (Nat.lt_succ_self _)
    · exact Nat.lt_succ_self _
  · intro i j tag other has otherHas
    rcases renewed_cases closed without has with ⟨old, different⟩ | ⟨rfl, eq, -⟩
    · rcases renewed_cases closed without otherHas with ⟨otherOld, -⟩ | ⟨rfl, otherSame, -⟩
      · exact kept.shared old otherOld
      · refine iff_of_false (kept.below old).ne ?_
        rw [otherSame]
        exact different
    · rcases renewed_cases closed without otherHas with ⟨otherOld, otherDifferent⟩ | ⟨rfl, otherSame, -⟩
      · refine iff_of_false (kept.below otherOld).ne' ?_
        rw [eq]
        exact fun equal => otherDifferent equal.symm
      · exact iff_of_true rfl (eq.trans otherSame.symm)

omit kept in
theorem closed_renewed : Closed key (renewed key s first items) items := by
  intro i tag has j mem eq
  by_cases new : key j = key first
  · rw [renewed_of_mem new (mem_cons_of_mem _ mem)]
    exact some_ne_none _
  · rw [renewed_of_key_ne new]
    rcases renewed_cases closed without has with ⟨old, -⟩ | ⟨-, equal, -⟩
    · exact closed old j (mem_cons_of_mem _ mem) eq
    · exact absurd (eq.trans equal) new

end

/-- All items of a list get tags, and no others. -/
theorem assign_spec (kept : Kept key s) (closed : Closed key s items) :
    Kept key (assign key items s) ∧ (∀ i ∈ items, (assign key items s).tag i ≠ none) ∧
      (∀ i, s.tag i ≠ none → (assign key items s).tag i ≠ none) ∧
      ∀ i, (assign key items s).tag i ≠ none → s.tag i ≠ none ∨ i ∈ items := by
  induction items generalizing s with
  | nil => exact ⟨kept, fun i mem => absurd mem not_mem_nil, fun i has => has, fun i has => .inl has⟩
  | cons first rest ih =>
    rw [assign]
    split
    case h_1 tag has =>
      have smaller : Closed key s rest := fun old j listed => closed old j (mem_cons_of_mem _ listed)
      obtain ⟨after, all, grows, only⟩ := ih kept smaller
      refine ⟨after, ?_, grows, fun i new => (only i new).imp id (mem_cons_of_mem _)⟩
      rw [forall_mem_cons]
      exact ⟨grows first (has ▸ some_ne_none tag), all⟩
    case h_2 without =>
      obtain ⟨after, all, grows, only⟩ := ih (kept_renewed kept closed without) (closed_renewed closed without)
      have here : (renewed key s first rest).tag first ≠ none := by
        rw [renewed_of_mem rfl mem_cons_self]
        exact some_ne_none _
      refine ⟨after, ?_, ?_, ?_⟩
      · rw [forall_mem_cons]
        exact ⟨grows first here, all⟩
      · intro i had
        apply grows
        obtain ⟨tag, has⟩ := ne_none_iff_exists'.mp had
        by_cases eq : key i = key first
        · exact absurd without (closed has first mem_cons_self eq.symm)
        · rw [renewed_of_key_ne eq]
          exact had
      · intro i new
        rcases only i new with had | listed
        · obtain ⟨tag, has⟩ := ne_none_iff_exists'.mp had
          rcases renewed_cases closed without has with ⟨old, -⟩ | ⟨-, -, listed⟩
          · exact .inl (old ▸ some_ne_none tag)
          · exact .inr listed
        · exact .inr (mem_cons_of_mem _ listed)

/-- Lists without a common key, one after the other. -/
theorem foldl_assign_spec {lists : List (List ι)}
    (apart : lists.Pairwise fun items others => ∀ i ∈ items, ∀ j ∈ others, key i ≠ key j) (kept : Kept key s)
    (fresh : ∀ items ∈ lists, ∀ i ∈ items, ∀ j, s.tag j ≠ none → key i ≠ key j) :
    Kept key (lists.foldl (fun s items => assign key items s) s) ∧
      ∀ items ∈ lists, ∀ i ∈ items, (lists.foldl (fun s items => assign key items s) s).tag i ≠ none := by
  suffices whole : Kept key (lists.foldl (fun s items => assign key items s) s) ∧
      (∀ i, s.tag i ≠ none → (lists.foldl (fun s items => assign key items s) s).tag i ≠ none) ∧
      ∀ items ∈ lists, ∀ i ∈ items, (lists.foldl (fun s items => assign key items s) s).tag i ≠ none from
    ⟨whole.1, whole.2.2⟩
  induction lists generalizing s with
  | nil => exact ⟨kept, fun i has => has, fun items mem => absurd mem not_mem_nil⟩
  | cons items rest ih =>
    obtain ⟨before, later⟩ := pairwise_cons.mp apart
    obtain ⟨here, others⟩ := forall_mem_cons.mp fresh
    have closed : Closed key s items := by
      intro i tag has j listed eq
      exact absurd eq (here j listed i (has ▸ some_ne_none tag))
    obtain ⟨after, all, grows, only⟩ := assign_spec kept closed
    obtain ⟨final, finalGrows, finalAll⟩ := ih later after (by
      intro others' mem i listed j tagged
      rcases only j tagged with had | inItems
      · exact others others' mem i listed j had
      · exact (before others' mem j inItems i listed).symm)
    refine ⟨final, fun i has => finalGrows i (grows i has), ?_⟩
    rw [forall_mem_cons]
    exact ⟨fun i listed => finalGrows i (all i listed), finalAll⟩

end KeyTags
