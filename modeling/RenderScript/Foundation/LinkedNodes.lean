import Mathlib

/-!
# Doubly linked lists

Nodes with pointers to their neighbours, and which list of nodes they form.
-/

namespace LinkedNodes
open List

variable {α : Type} [DecidableEq α]

structure Links (α : Type) where
  head : Option α
  prev : α → Option α
  next : α → Option α

/-- `p->prev = value`, unless `p` is null. -/
def Links.setPrev (links : Links α) (p value : Option α) : Links α :=
  { links with prev := fun node => if p = some node then value else links.prev node }

/-- `p->next = value`, unless `p` is null. -/
def Links.setNext (links : Links α) (p value : Option α) : Links α :=
  { links with next := fun node => if p = some node then value else links.next node }

/-- A node whose pointers are null becomes the first one. -/
def Links.pushFront (links : Links α) (node : α) : Links α :=
  { (links.setNext (some node) links.head).setPrev links.head (some node) with head := some node }

/-- The pointers of a node that is taken out become null. -/
def Links.unlink (links : Links α) (node : α) : Links α :=
  let links := { links with head := if links.head = some node then links.next node else links.head }
  let links := links.setNext (links.prev node) (links.next node)
  let links := links.setPrev (links.next node) (links.prev node)
  (links.setPrev (some node) none).setNext (some node) none

/-- The pointers form the list. -/
structure Links.Forms (links : Links α) (nodes : List α) : Prop where
  once : nodes.Nodup
  first : links.head = nodes.head?
  neighbours : ∀ {before node behind}, nodes = before ++ node :: behind →
    links.prev node = before.getLast? ∧ links.next node = behind.head?

variable {links : Links α} {nodes before behind : List α} {node other : α}

namespace Links

omit [DecidableEq α] in
theorem forms_nil (links : Links α) (empty : links.head = none) : links.Forms [] where
  once := nodup_nil
  first := empty
  neighbours := by simp

omit [DecidableEq α] in
theorem Forms.prev_ne (forms : links.Forms (before ++ node :: behind)) : links.prev node ≠ some node := by
  rw [(forms.neighbours rfl).1]
  intro last
  have twice := disjoint_of_nodup_append forms.once (List.mem_of_getLast? last)
  exact twice mem_cons_self

omit [DecidableEq α] in
theorem Forms.next_ne (forms : links.Forms (before ++ node :: behind)) : links.next node ≠ some node := by
  rw [(forms.neighbours rfl).2]
  intro head
  have once := (nodup_append.mp forms.once).2.1
  exact (nodup_cons.mp once).1 (List.mem_of_head? head)

theorem unlink_next : (links.unlink node).next other =
      if other = node then none else if links.prev node = some other then links.next node else links.next other := by
  by_cases eq : other = node
  · simp [unlink, setNext, eq]
  · have apart : ¬ node = other := fun equal => eq equal.symm
    simp [unlink, setNext, setPrev, eq, apart]

theorem unlink_prev (ne : links.prev node ≠ some node) : (links.unlink node).prev other =
      if other = node then none else if links.next node = some other then links.prev node else links.prev other := by
  by_cases eq : other = node
  · simp [unlink, setNext, setPrev, eq]
  · have apart : ¬ node = other := fun equal => eq equal.symm
    simp [unlink, setNext, setPrev, eq, apart, ne]

theorem Forms.pushFront (forms : links.Forms nodes) (fresh : node ∉ nodes) (null : links.prev node = none) :
    (links.pushFront node).Forms (node :: nodes) where
  once := nodup_cons.mpr ⟨fresh, forms.once⟩
  first := rfl
  neighbours := by
    intro before x behind whole
    cases before with
    | nil =>
      cases whole
      constructor
      · have notHead : links.head ≠ some node := by
          rw [forms.first]
          exact fun head => fresh (List.mem_of_head? head)
        simp [Links.pushFront, setPrev, setNext, notHead, null]
      · simp [Links.pushFront, setPrev, setNext, forms.first]
    | cons first before =>
      obtain ⟨rfl, rest⟩ := cons_eq_cons.mp whole
      obtain ⟨prev, next⟩ := forms.neighbours rest
      have ne : ¬ node = x := by
        rintro rfl
        exact fresh (rest ▸ mem_append_right _ mem_cons_self)
      constructor
      · cases before with
        | nil => simp [Links.pushFront, setPrev, setNext, forms.first, rest]
        | cons second before =>
          have notHead : ¬ second = x := by
            rintro rfl
            exact absurd (rest ▸ forms.once) (by simp)
          simp [Links.pushFront, setPrev, setNext, forms.first, rest, notHead, prev]
      · simp [Links.pushFront, setPrev, setNext, ne, next]

theorem Forms.unlink_behind {between late : List α} {x : α} (forms : links.Forms (before ++ node :: (between ++ x :: late))) :
    (links.unlink node).prev x = (before ++ between).getLast? ∧ (links.unlink node).next x = late.head? := by
  obtain ⟨nodePrev, nodeNext⟩ := forms.neighbours rfl
  have whole : before ++ node :: (between ++ x :: late) = (before ++ node :: between) ++ x :: late := by simp
  obtain ⟨prev, next⟩ := forms.neighbours whole
  have once := forms.once
  rw [whole] at once
  have fresh : x ∉ before ++ node :: between := fun mem =>
    disjoint_of_nodup_append once mem mem_cons_self
  simp only [mem_append, mem_cons, not_or] at fresh
  rw [unlink_prev forms.prev_ne, unlink_next, if_neg fresh.2.1, if_neg fresh.2.1, nodePrev, nodeNext]
  constructor
  · cases between with
    | nil => simp
    | cons second between =>
      have ne : ¬ second = x := fun eq => fresh.2.2 (eq ▸ mem_cons_self)
      simp [ne, prev, List.getLast?_append]
  · have notLast : before.getLast? ≠ some x := fun last => fresh.1 (List.mem_of_getLast? last)
    simp [notLast, next]

theorem Forms.unlink_before {early between : List α} {x : α} (forms : links.Forms ((early ++ x :: between) ++ node :: behind)) :
    (links.unlink node).prev x = early.getLast? ∧ (links.unlink node).next x = (between ++ behind).head? := by
  obtain ⟨nodePrev, nodeNext⟩ := forms.neighbours rfl
  have whole : (early ++ x :: between) ++ node :: behind = early ++ x :: (between ++ node :: behind) := by simp
  obtain ⟨prev, next⟩ := forms.neighbours whole
  have once := forms.once
  rw [whole, nodup_append] at once
  have fresh := (nodup_cons.mp once.2.1).1
  simp only [mem_append, mem_cons, not_or] at fresh
  rw [unlink_prev forms.prev_ne, unlink_next, if_neg fresh.2.1, if_neg fresh.2.1, nodePrev, nodeNext]
  constructor
  · have notHead : behind.head? ≠ some x := fun head => fresh.2.2 (List.mem_of_head? head)
    simp [notHead, prev]
  · cases between with
    | nil => simp
    | cons second between =>
      have notLast : (second :: between).getLast? ≠ some x := fun last => fresh.1 (List.mem_of_getLast? last)
      rw [List.getLast?_append_of_ne_nil _ (cons_ne_nil _ _), List.getLast?_cons_cons, if_neg notLast, next]
      rfl

theorem Forms.unlink (forms : links.Forms (before ++ node :: behind)) : (links.unlink node).Forms (before ++ behind) where
  once := forms.once.sublist (List.Sublist.append_left (sublist_cons_self _ _) _)
  first := by
    obtain ⟨-, next⟩ := forms.neighbours rfl
    have head := forms.first
    cases before with
    | nil => simpa [Links.unlink, setPrev, setNext, head] using next
    | cons first before =>
      have ne : ¬ first = node := by
        rintro rfl
        exact absurd forms.once (by simp)
      simp [Links.unlink, setPrev, setNext, head, ne]
  neighbours := by
    intro early x late whole
    rcases append_eq_append_iff.mp whole with ⟨between, rfl, rfl⟩ | ⟨between, rfl, split⟩
    · exact forms.unlink_behind
    · cases between with
      | nil =>
        cases split
        rw [append_nil] at forms
        simpa using @unlink_behind _ _ links early node [] late x forms
      | cons first between =>
        cases split
        exact forms.unlink_before

/-- Nodes outside the list keep their pointers. -/
theorem Forms.pushFront_outside (forms : links.Forms nodes) (out : other ∉ node :: nodes) :
    (links.pushFront node).prev other = links.prev other ∧ (links.pushFront node).next other = links.next other := by
  rw [mem_cons, not_or] at out
  have notHead : links.head ≠ some other := by
    rw [forms.first]
    exact fun head => out.2 (List.mem_of_head? head)
  have ne : ¬ node = other := fun eq => out.1 eq.symm
  simp [Links.pushFront, setPrev, setNext, notHead, ne]

theorem Forms.unlink_outside (forms : links.Forms (before ++ node :: behind)) (out : other ∉ before ++ node :: behind) :
    (links.unlink node).prev other = links.prev other ∧ (links.unlink node).next other = links.next other := by
  obtain ⟨nodePrev, nodeNext⟩ := forms.neighbours rfl
  simp only [mem_append, mem_cons, not_or] at out
  have notLast : before.getLast? ≠ some other := fun last => out.1 (List.mem_of_getLast? last)
  have notHead : behind.head? ≠ some other := fun head => out.2.2 (List.mem_of_head? head)
  rw [unlink_prev forms.prev_ne, unlink_next, if_neg out.2.1, if_neg out.2.1, nodePrev, nodeNext,
    if_neg notLast, if_neg notHead]
  exact ⟨rfl, rfl⟩

theorem unlink_null (ne : links.prev node ≠ some node) :
    (links.unlink node).prev node = none ∧ (links.unlink node).next node = none := by
  rw [unlink_prev ne, unlink_next, if_pos rfl, if_pos rfl]
  exact ⟨rfl, rfl⟩

end Links

end LinkedNodes
