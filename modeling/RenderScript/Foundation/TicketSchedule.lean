import RenderScript.Foundation.TicketPool

/-!
# Schedules of a ticket pool

A schedule says which worker acts next. With finitely many useful tickets every
schedule is short, and no worker is ever stuck before it left.
-/

namespace TicketPool
open List

universe u

variable {schedule : List Nat} {α : Type u} {job : Job α} {workers index : Nat} {pool next : Pool α}

/-- The action of one worker; a worker that left has none. -/
def Pool.act (job : Job α) (pool : Pool α) (index : Nat) : Option (Pool α) :=
  match pool.workers[index]? with
  | some (.busy (item :: rest)) =>
    some { pool with workers := pool.workers.set index (.busy rest), trace := pool.trace ++ [item] }
  | some (.busy []) =>
    some { pool with
      owners := pool.owners ++ [index]
      workers := pool.workers.set index
        (if job.stop pool.ticket then .done else .busy (job.work index pool.ticket)) }
  | some .done => none
  | none => none

def Pool.follow (job : Job α) (pool : Pool α) (schedule : List Nat) : Option (Pool α) :=
  schedule.foldlM (Pool.act job) pool

theorem step_of_act (acted : pool.act job index = some next) : Step job pool next := by
  unfold Pool.act at acted
  split at acted
  · rename_i item rest found
    cases acted
    exact .perform found
  · rename_i found
    cases acted
    cases stops : job.stop pool.ticket with
    | true => exact .leave found stops
    | false => exact .take found stops
  · cases acted
  · cases acted

theorem reaches_of_follow (followed : pool.follow job schedule = some next) : Reaches job pool next := by
  induction schedule generalizing pool with
  | nil =>
    cases followed
    exact .refl
  | cons i schedule ih =>
    obtain ⟨mid, acted, rest⟩ := Option.bind_eq_some_iff.mp followed
    exact .head (step_of_act acted) (ih rest)

/-- Every action draws a ticket or performs an item. -/
theorem Step.counts (step : Step job pool next) : next.ticket + next.trace.length = pool.ticket + pool.trace.length + 1 := by
  cases step with
  | perform _ =>
    rw [length_append, length_singleton]
    rfl
  | take _ _ | leave _ _ =>
    simp only [Pool.ticket, length_append, length_singleton]
    omega

theorem length_of_follow (followed : pool.follow job schedule = some next) :
    next.ticket + next.trace.length = pool.ticket + pool.trace.length + schedule.length := by
  induction schedule generalizing pool with
  | nil =>
    cases followed
    rfl
  | cons i schedule ih =>
    obtain ⟨mid, acted, rest⟩ := Option.bind_eq_some_iff.mp followed
    have one := (step_of_act acted).counts
    have others := ih rest
    rw [length_cons]
    omega

/-- All that is known of a job whose first tickets are useful and of which as many tickets
stop afterwards as there are workers. -/
structure Job.Useful (job : Job α) (workers useful : Nat) : Prop where
  uniform : ∀ worker ticket, job.work worker ticket = job.work 0 ticket
  continues : ∀ ticket, ticket < useful → job.stop ticket = false
  stops : ∀ ticket, useful ≤ ticket → ticket < useful + workers → job.stop ticket = true

section

variable {useful : Nat}

/-- Items that were handed out are items of useful tickets, in their order. -/
theorem Job.Useful.issued_sublist (shape : job.Useful workers useful) (balanced : Balanced job workers pool) :
    (job.issued pool.owners).Sublist ((List.range useful).flatMap (job.work 0)) := by
  have few := balanced.ticket_le shape.continues shape.stops
  rw [issued_eq_range shape.uniform, ← flatMap_items shape.continues shape.stops]
  exact (range_sublist.mpr few).flatMap _

/-- Whatever was performed so far is part of the useful items. -/
theorem Job.Useful.trace_subperm (shape : job.Useful workers useful) (path : Reaches job (start workers) pool) :
    pool.trace <+~ (List.range useful).flatMap (job.work 0) := by
  have performed := (sublist_append_left _ _).subperm.trans path.accounted.subperm
  exact performed.trans (shape.issued_sublist path.balanced).subperm

/-- All schedules together have a longest one. -/
theorem Job.Useful.schedule_le (shape : job.Useful workers useful) (followed : (start workers).follow job schedule = some pool) :
    schedule.length ≤ useful + workers + ((List.range useful).flatMap (job.work 0)).length := by
  have path := reaches_of_follow followed
  have drawn := path.balanced.ticket_le shape.continues shape.stops
  have performed := (shape.trace_subperm path).length_le
  have counted := length_of_follow followed
  have nothing : (start workers : Pool α).trace.length = 0 := rfl
  omega

end

/-- A worker that has not left can act. -/
theorem Reaches.done_or_act (path : Reaches job (start workers) pool) (inside : index < workers) :
    pool.workers[index]? = some .done ∨ (pool.act job index).isSome := by
  have size := path.balanced.size
  cases found : pool.workers[index]? with
  | none =>
    have out := List.getElem?_eq_none_iff.mp found
    omega
  | some worker =>
    cases worker with
    | done => exact .inl rfl
    | busy pending =>
      right
      rw [Pool.act, found]
      cases pending with
      | nil => rfl
      | cons item rest => rfl

end TicketPool
