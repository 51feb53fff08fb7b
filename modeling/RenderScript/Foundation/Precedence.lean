import Mathlib

/-!
# Arrangements of a list and finite acyclic relations

What a comparison sort promises about its result, which of two members then comes
first, and the existence of a first element above any element of a finite acyclic
relation and of a longest path to it.
-/

namespace Precedence
open List

universe u

variable {α : Type u}

/-- The result of a comparison sort: a permutation without a pair out of order. -/
structure Arranges (outOfOrder : α → α → Bool) (items sorted : List α) : Prop where
  perm : sorted ~ items
  ordered : sorted.Pairwise fun earlier later => outOfOrder earlier later = false

variable {items : List α} {edge : α → α → Prop} {outOfOrder : α → α → Bool}

theorem arranges_mergeSort (transitive : ∀ first second third, outOfOrder first second = false →
      outOfOrder second third = false → outOfOrder first third = false)
    (total : ∀ first second, outOfOrder first second = false ∨ outOfOrder second first = false) (items : List α) :
    Arranges outOfOrder items (items.mergeSort fun first second => !outOfOrder first second) where
  perm := mergeSort_perm _ _
  ordered := by
    have sorted : (items.mergeSort fun first second => !outOfOrder first second).Pairwise
        fun first second => (!outOfOrder first second) = true :=
      pairwise_mergeSort (by simpa using transitive) (by simpa using total) items
    simpa using sorted

/-- Of two members, one comes first. -/
theorem pair_sublist_or {first second : α} (ne : first ≠ second) (mem : first ∈ items) (mem' : second ∈ items) :
    [first, second] <+ items ∨ [second, first] <+ items := by
  induction items with
  | nil => cases mem
  | cons head tail ih =>
    rcases mem_cons.mp mem with eq | inTail
    · subst eq
      have rest : second ∈ tail := by
        rcases mem_cons.mp mem' with equal | found
        · exact absurd equal.symm ne
        · exact found
      exact .inl ((singleton_sublist.mpr rest).cons_cons first)
    · rcases mem_cons.mp mem' with eq | otherInTail
      · subst eq
        exact .inr ((singleton_sublist.mpr inTail).cons_cons second)
      · rcases ih inTail otherInTail with before | after
        · exact .inl (before.cons head)
        · exact .inr (after.cons head)

theorem not_pair_sublist_swap {first second : α} (unique : items.Nodup)
    (before : [first, second] <+ items) : ¬ [second, first] <+ items := by
  intro after
  induction items with
  | nil => cases before
  | cons head tail ih =>
    have fresh := (nodup_cons.mp unique).1
    cases before with
    | cons _ inTail =>
      cases after with
      | cons _ swapped => exact ih (nodup_cons.mp unique).2 inTail swapped
      | cons_cons _ swapped => exact fresh (inTail.subset (by simp))
    | cons_cons _ inTail =>
      cases after with
      | cons _ swapped => exact fresh (swapped.subset (by simp))
      | cons_cons _ swapped => exact fresh (inTail.subset (by simp))

/-- Two members that would be out of order the other way round. -/
theorem pair_sublist_of_arranges {sorted : List α}
    (arranges : Arranges outOfOrder items sorted) {first second : α} (ne : first ≠ second)
    (mem : first ∈ items) (mem' : second ∈ items)
    (wrong : outOfOrder second first = true) : [first, second] <+ sorted := by
  rcases pair_sublist_or ne (arranges.perm.mem_iff.mpr mem)
    (arranges.perm.mem_iff.mpr mem') with before | after
  · exact before
  · have kept := pairwise_iff_forall_sublist.mp arranges.ordered after
    rw [wrong] at kept
    cases kept

/-- In a finite acyclic relation every element lies below one without predecessors. -/
theorem exists_source_above (sources : Set α) (finite : sources.Finite)
    (known : ∀ {first second}, edge first second → first ∈ sources)
    (acyclic : ∀ item, ¬ Relation.TransGen edge item item) (item : α) :
    ∃ source, Relation.ReflTransGen edge source item ∧ ∀ other, ¬ edge other source := by
  -- Predecessors range over a finite set, so climbing them must stop.
  have climbs : WellFounded fun first second : sources =>
      Relation.TransGen edge first.1 second.1 := by
    have : Finite sources := finite
    have irreflexive : Std.Irrefl fun first second : sources =>
      Relation.TransGen edge first.1 second.1 := ⟨fun item => acyclic item.1⟩
    exact Finite.wellFounded_of_trans_of_irrefl _
  by_cases top : ∀ other, ¬ edge other item
  · exact ⟨item, .refl, top⟩
  · simp only [not_forall, not_not] at top
    obtain ⟨above, step⟩ := top
    let ancestors : Set sources := fun candidate => Relation.TransGen edge candidate.1 item
    obtain ⟨least, isAbove, minimal⟩ := climbs.has_min ancestors ⟨⟨above, known step⟩, .single step⟩
    refine ⟨least.1, Relation.TransGen.to_reflTransGen isAbove, ?_⟩
    intro other earlier
    exact minimal ⟨other, known earlier⟩ (.head earlier isAbove) (.single earlier)

/-- A path of the given length ends in the item. -/
inductive PathTo (edge : α → α → Prop) : Nat → α → Prop
  | start (item : α) : PathTo edge 0 item
  | step {length : Nat} {first second : α} (path : PathTo edge length first) (next : edge first second) :
      PathTo edge (length + 1) second

/-- Without cycles a path meets no item twice. -/
theorem PathTo.exists_visited (acyclic : ∀ item, ¬ Relation.TransGen edge item item)
    {length : Nat} {item : α} (path : PathTo edge length item) :
    ∃ visited : List α, visited.length = length ∧ visited.Nodup ∧
      ∀ other ∈ visited, (∃ before, edge before other) ∧ Relation.ReflTransGen edge other item := by
  induction path with
  | start item => exact ⟨[], rfl, nodup_nil, by simp⟩
  | @step length first second path next ih =>
    obtain ⟨visited, counted, unique, behind⟩ := ih
    refine ⟨second :: visited, by simp [counted], nodup_cons.mpr ⟨?_, unique⟩, ?_⟩
    · intro again
      exact acyclic second (.tail' (behind second again).2 next)
    · rw [forall_mem_cons]
      refine ⟨⟨⟨first, next⟩, .refl⟩, ?_⟩
      intro other mem
      exact ⟨(behind other mem).1, (behind other mem).2.tail next⟩

/-- In a finite acyclic relation there is a longest path to every item. -/
theorem exists_longest {targets : List α} (known : ∀ {first second}, edge first second → second ∈ targets)
    (acyclic : ∀ item, ¬ Relation.TransGen edge item item) (item : α) :
    ∃ longest, IsGreatest (fun length => PathTo edge length item) longest := by
  let lengths : Set Nat := fun length => PathTo edge length item
  have bounded : BddAbove lengths := by
    refine ⟨targets.length, ?_⟩
    intro length path
    obtain ⟨visited, rfl, unique, behind⟩ := PathTo.exists_visited acyclic path
    refine (subperm_of_subset unique ?_).length_le
    intro other mem
    obtain ⟨⟨before, last⟩, -⟩ := behind other mem
    exact known last
  exact ⟨sSup lengths, Nat.sSup_mem ⟨0, .start item⟩ bounded, fun length path => le_csSup bounded path⟩

end Precedence
