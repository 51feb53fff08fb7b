import Mathlib

/-!
# Workers that share one ticket counter

A fixed number of workers draw consecutive tickets from an atomic counter. A
ticket either carries a list of work items or tells its worker to leave. The
items of one ticket are performed one at a time, and between any two items of
one worker the others may do anything. The recorded trace is the order in which
items were really performed.
-/

namespace TicketPool
open List

universe u v

/-- What the tickets mean: whether a ticket sends its worker away, and otherwise
the items a given worker performs for it. -/
structure Job (α : Type u) where
  stop : Nat → Bool
  work : Nat → Nat → List α

inductive Worker (α : Type u) where
  | busy (pending : List α)
  | done

/-- The counter is the length of `owners`, which remembers who drew each ticket. -/
structure Pool (α : Type u) where
  owners : List Nat
  workers : List (Worker α)
  trace : List α

variable {α : Type u} {σ : Type v} {job : Job α} {pool : Pool α} {item : α} {trace : List α}

def Pool.ticket (pool : Pool α) : Nat := pool.owners.length

variable {ticket index workers useful limit extra distance : Nat} {owners : List Nat} {worker : Worker α}

def Worker.pending : Worker α → List α
  | .busy pending => pending
  | .done => []

def Worker.isDone : Worker α → Bool
  | .busy _ => false
  | .done => true

/-- Items of one ticket when drawn by a given worker. -/
def Job.items (job : Job α) (worker ticket : Nat) : List α :=
  if job.stop ticket then [] else job.work worker ticket

theorem Job.items_of_continues (worker : Nat) (continues : job.stop ticket = false) :
    job.items worker ticket = job.work worker ticket := by
  rw [Job.items, continues, if_neg Bool.false_ne_true]

theorem Job.mem_work {worker : Nat} (mem : item ∈ job.items worker ticket) : item ∈ job.work worker ticket := by
  unfold Job.items at mem
  split at mem
  · cases mem
  · exact mem

/-- All items handed out so far, in ticket order. -/
def Job.issued (job : Job α) (owners : List Nat) : List α :=
  owners.zipIdx.flatMap fun drawn => job.items drawn.1 drawn.2

def start (workers : Nat) : Pool α where
  owners := []
  workers := List.replicate workers (.busy [])
  trace := []

/-- One atomic action of one worker. -/
inductive Step (job : Job α) : Pool α → Pool α → Prop where
  | perform {pool : Pool α} {index : Nat} {item : α} {rest : List α} :
      pool.workers[index]? = some (.busy (item :: rest)) →
      Step job pool { owners := pool.owners, workers := pool.workers.set index (.busy rest), trace := pool.trace ++ [item] }
  | take {pool : Pool α} {index : Nat} :
      pool.workers[index]? = some (.busy []) →
      job.stop pool.ticket = false →
      Step job pool {
        owners := pool.owners ++ [index], workers := pool.workers.set index (.busy (job.work index pool.ticket))
        trace := pool.trace }
  | leave {pool : Pool α} {index : Nat} :
      pool.workers[index]? = some (.busy []) →
      job.stop pool.ticket = true →
      Step job pool { owners := pool.owners ++ [index], workers := pool.workers.set index .done, trace := pool.trace }

abbrev Reaches (job : Job α) : Pool α → Pool α → Prop :=
  Relation.ReflTransGen (Step job)

def Pool.Finished (pool : Pool α) : Prop :=
  ∀ worker ∈ pool.workers, worker.isDone = true

/-- A complete run of `workers` workers performed exactly `trace`, in this order. -/
def Completes (job : Job α) (workers : Nat) (trace : List α) : Prop :=
  ∃ pool, Reaches job (start workers) pool ∧ pool.Finished ∧ pool.trace = trace

@[simp] theorem ticket_start (workers : Nat) : (start workers : Pool α).ticket = 0 := rfl

@[simp] theorem issued_nil (job : Job α) : job.issued [] = [] := rfl

theorem issued_append_singleton (job : Job α) (owners : List Nat) (worker : Nat) :
    job.issued (owners ++ [worker]) = job.issued owners ++ job.items worker owners.length := by
  simp [Job.issued, zipIdx_append]

/-- When no ticket depends on its owner, the owners can be forgotten. -/
theorem issued_eq_range (uniform : ∀ worker ticket, job.work worker ticket = job.work 0 ticket) (owners : List Nat) :
    job.issued owners = (List.range owners.length).flatMap (job.items 0) := by
  induction owners using List.reverseRecOn with
  | nil => rfl
  | append_singleton owners worker ih =>
    rw [issued_append_singleton, ih, length_append, length_singleton, range_succ, flatMap_append]
    simp [Job.items, uniform worker]

/-!
## Counting workers that left
-/

private theorem countP_set_busy {workers : List (Worker α)} {pending : List α}
    (found : workers[index]? = some (.busy pending)) (next : Worker α) :
    (workers.set index next).countP Worker.isDone = workers.countP Worker.isDone + if next.isDone then 1 else 0 := by
  obtain ⟨lt, eq⟩ := List.getElem?_eq_some_iff.mp found
  rw [countP_set lt, eq]
  rfl

/-- The facts every reachable pool satisfies, whatever the items are. -/
structure Balanced (job : Job α) (workers : Nat) (pool : Pool α) : Prop where
  size : pool.workers.length = workers
  known : ∀ owner ∈ pool.owners, owner < workers
  departures : pool.workers.countP Worker.isDone = (List.range pool.ticket).countP job.stop
  drawer : pool.ticket = 0 ∨ job.stop (pool.ticket - 1) = true ∨
    ∃ (index : Nat) (pending : List α), pool.workers[index]? = some (.busy pending)

theorem balanced_start (job : Job α) (workers : Nat) : Balanced job workers (start workers) where
  size := by simp [start]
  known := by simp [start]
  departures := by simp [start, Pool.ticket, countP_replicate, Worker.isDone]
  drawer := .inl rfl

private theorem getElem?_set_of_found {workers : List (Worker α)}
    {before after : Worker α} (found : workers[index]? = some before) :
    (workers.set index after)[index]? = some after := by
  have inside := (List.getElem?_eq_some_iff.mp found).1
  simp [inside]

theorem Balanced.known_append (balanced : Balanced job workers pool) (found : pool.workers[index]? = some worker) :
    ∀ owner ∈ pool.owners ++ [index], owner < workers := by
  intro owner mem
  rcases mem_append.mp mem with before | added
  · exact balanced.known owner before
  · rw [mem_singleton] at added
    rw [added, ← balanced.size]
    exact (List.getElem?_eq_some_iff.mp found).1

theorem Balanced.step {pool next : Pool α} (balanced : Balanced job workers pool) (step : Step job pool next) :
    Balanced job workers next := by
  cases step with
  | @perform i item rest found =>
    refine ⟨by simpa using balanced.size, balanced.known, ?_, ?_⟩
    · simpa [countP_set_busy found, Worker.isDone, Pool.ticket] using balanced.departures
    · exact .inr (.inr ⟨i, rest, getElem?_set_of_found found⟩)
  | @take i found continues =>
    refine ⟨by simpa using balanced.size, balanced.known_append found, ?_, ?_⟩
    · have onward : job.stop pool.owners.length = false := continues
      simpa [countP_set_busy found, Worker.isDone, Pool.ticket, range_succ, onward] using
        balanced.departures
    · exact .inr (.inr ⟨i, _, getElem?_set_of_found found⟩)
  | @leave i found stops =>
    have leaves : job.stop pool.owners.length = true := stops
    refine ⟨by simpa using balanced.size, balanced.known_append found, ?_, ?_⟩
    · have departures := balanced.departures
      simp only [Pool.ticket] at departures
      simp [countP_set_busy found, Worker.isDone, Pool.ticket, range_succ, leaves, departures]
    · exact .inr (.inl (by simpa [Pool.ticket] using leaves))

theorem Balanced.reaches {next : Pool α} (balanced : Balanced job workers pool) (path : Reaches job pool next) :
    Balanced job workers next := by
  induction path with
  | refl => exact balanced
  | tail _ step ih => exact ih.step step

theorem Reaches.balanced (path : Reaches job (start workers) pool) : Balanced job workers pool :=
  (balanced_start job workers).reaches path

/-- In a finished pool every worker left, each on a stopping ticket of its own. -/
theorem Balanced.departures_of_finished (balanced : Balanced job workers pool) (finished : pool.Finished) :
    (List.range pool.ticket).countP job.stop = workers := by
  rw [← balanced.departures, ← balanced.size, countP_eq_length]
  exact finished

/-- A ticket is certainly drawn when fewer workers than exist can leave before it. -/
theorem Balanced.drawn_of_countP_lt (balanced : Balanced job workers pool) (finished : pool.Finished)
    (few : (List.range ticket).countP job.stop < workers) : ticket < pool.ticket := by
  have all := balanced.departures_of_finished finished
  by_contra late
  have included : List.Sublist (List.range pool.ticket) (List.range ticket) := range_sublist.mpr (by omega)
  have fewer := included.countP_le (p := job.stop)
  omega

/-- Among the first tickets only those behind the useful ones stop. -/
theorem countP_stop_range (continues : ∀ ticket, ticket < useful → job.stop ticket = false)
    (stops : ∀ ticket, useful ≤ ticket → ticket < useful + workers → job.stop ticket = true) (bounded : extra ≤ workers) :
    (List.range (useful + extra)).countP job.stop = extra := by
  induction extra with
  | zero =>
    simp only [add_zero, countP_eq_zero, mem_range]
    intro ticket inside
    simp [continues ticket inside]
  | succ extra ih =>
    rw [← add_assoc, range_succ, countP_append, ih (by omega)]
    simp [stops (useful + extra) (by omega) (by omega)]

/-- No ticket is drawn once all workers have left. -/
theorem Balanced.ticket_le (balanced : Balanced job workers pool)
    (continues : ∀ ticket, ticket < useful → job.stop ticket = false)
    (stops : ∀ ticket, useful ≤ ticket → ticket < useful + workers → job.stop ticket = true) :
    pool.ticket ≤ useful + workers := by
  by_contra many
  have departures := balanced.departures
  have size := balanced.size
  have all := countP_le_length (p := Worker.isDone) (l := pool.workers)
  have split : List.range pool.ticket = List.range (pool.ticket - 1) ++ [pool.ticket - 1] := by
    rw [← range_succ]
    congr 1
    omega
  have included : List.Sublist (List.range (useful + workers)) (List.range (pool.ticket - 1)) := range_sublist.mpr (by omega)
  have fewer := included.countP_le (p := job.stop)
  rw [countP_stop_range continues stops (le_refl workers)] at fewer
  rw [split, countP_append] at departures
  rcases balanced.drawer with none | last | ⟨i, pending, found⟩
  · omega
  · -- A later last ticket would be one departure too many.
    simp only [countP_singleton, last, if_true] at departures
    omega
  · have full : pool.workers.countP Worker.isDone = pool.workers.length := by omega
    have everyone := countP_eq_length.mp full _ (mem_of_getElem? found)
    cases everyone

/-- With `useful` working tickets followed by enough stopping ones, a complete
run draws exactly the useful tickets and one more for every worker. -/
theorem Balanced.ticket_of_finished (balanced : Balanced job workers pool) (finished : pool.Finished) (some : 0 < workers)
    (continues : ∀ ticket, ticket < useful → job.stop ticket = false)
    (stops : ∀ ticket, useful ≤ ticket → ticket < useful + workers → job.stop ticket = true) :
    pool.ticket = useful + workers := by
  apply le_antisymm (balanced.ticket_le continues stops)
  have few : (List.range (useful + (workers - 1))).countP job.stop < workers := by
    rw [countP_stop_range continues stops (by omega)]
    omega
  have drawn := balanced.drawn_of_countP_lt finished few
  omega

/-!
## What was performed
-/

def Pool.pending (pool : Pool α) : List α := pool.workers.flatMap Worker.pending

private theorem pending_set_perm {workers : List (Worker α)}
    {before : Worker α} (found : workers[index]? = some before) (after : Worker α) :
    before.pending ++ (workers.set index after).flatMap Worker.pending ~ after.pending ++ workers.flatMap Worker.pending := by
  induction workers generalizing index with
  | nil => simp at found
  | cons head tail ih =>
    cases index with
    | zero =>
      simp only [List.getElem?_cons_zero, Option.some.injEq] at found
      subst head
      simp only [set_cons_zero, flatMap_cons, ← append_assoc]
      exact perm_append_comm.append_right _
    | succ index =>
      have recursive := @ih index (by simpa using found)
      calc before.pending ++ (head.pending ++ (tail.set index after).flatMap Worker.pending)
          ~ head.pending ++ (before.pending ++ (tail.set index after).flatMap Worker.pending) := perm_append_comm_assoc _ _ _
        _ ~ head.pending ++ (after.pending ++ tail.flatMap Worker.pending) :=
            recursive.append_left _
        _ ~ after.pending ++ (head.pending ++ tail.flatMap Worker.pending) :=
            perm_append_comm_assoc _ _ _

/-- Nothing handed out is lost or performed twice. -/
def Pool.Accounted (job : Job α) (pool : Pool α) : Prop :=
  pool.trace ++ pool.pending ~ job.issued pool.owners

theorem accounted_start (job : Job α) (workers : Nat) : (start workers).Accounted job := by
  simp [Pool.Accounted, Pool.pending, start, Worker.pending]

theorem Pool.Accounted.step {pool next : Pool α} (accounted : pool.Accounted job)
    (step : Step job pool next) : next.Accounted job := by
  cases step with
  | @perform i item rest found =>
    have moved := pending_set_perm found (.busy rest)
    simp only [Worker.pending, cons_append] at moved
    have kept : item :: (pool.workers.set i (.busy rest)).flatMap Worker.pending ~
        pool.pending := by
      refine (perm_append_left_iff rest).mp ?_
      exact perm_middle.trans moved
    simp only [Pool.Accounted, Pool.pending, append_assoc, singleton_append]
    exact (kept.append_left pool.trace).trans accounted
  | @take i found continues =>
    have moved := pending_set_perm found (.busy (job.work i pool.ticket))
    simp only [Worker.pending, nil_append] at moved
    simp only [Pool.Accounted, Pool.pending, issued_append_singleton]
    have items : job.items i pool.owners.length = job.work i pool.ticket := Job.items_of_continues i continues
    rw [items]
    refine (moved.append_left pool.trace).trans ?_
    refine List.Perm.trans ?_ (accounted.append_right _)
    rw [append_assoc]
    exact perm_append_comm.append_left _
  | @leave i found stops =>
    have moved := pending_set_perm found .done
    simp only [Worker.pending, nil_append] at moved
    simp only [Pool.Accounted, Pool.pending, issued_append_singleton]
    have items : job.items i pool.owners.length = [] := if_pos stops
    rw [items, append_nil]
    exact (moved.append_left pool.trace).trans accounted

theorem Reaches.accounted (path : Reaches job (start workers) pool) : pool.Accounted job := by
  induction path with
  | refl => exact accounted_start job workers
  | tail _ step ih => exact ih.step step

theorem Pool.Finished.pending_eq_nil (finished : pool.Finished) : pool.pending = [] := by
  rw [Pool.pending, flatMap_eq_nil_iff]
  intro worker mem
  cases worker with
  | busy pending => simpa [Worker.isDone] using finished _ mem
  | done => rfl

/-- A complete run performs what it handed out, in some order. -/
theorem Completes.perm_issued (completes : Completes job workers trace) :
    ∃ pool, Balanced job workers pool ∧ pool.Finished ∧ trace ~ job.issued pool.owners := by
  obtain ⟨pool, path, finished, rfl⟩ := completes
  refine ⟨pool, path.balanced, finished, ?_⟩
  have accounted := path.accounted
  rwa [Pool.Accounted, finished.pending_eq_nil, append_nil] at accounted

/-- What has been performed at some moment was handed out before. -/
theorem Reaches.exists_of_mem (path : Reaches job (start workers) pool)
    (mem : item ∈ pool.trace) : ∃ worker ticket, item ∈ job.work worker ticket := by
  have issued := path.accounted.mem_iff.mp (mem_append_left _ mem)
  obtain ⟨⟨worker, ticket⟩, -, drawn⟩ := mem_flatMap.mp issued
  exact ⟨worker, ticket, Job.mem_work drawn⟩

theorem Completes.exists_of_mem (completes : Completes job workers trace) (mem : item ∈ trace) :
    ∃ worker ticket, item ∈ job.work worker ticket := by
  obtain ⟨pool, path, -, rfl⟩ := completes
  exact path.exists_of_mem mem

theorem flatMap_items (continues : ∀ ticket, ticket < useful → job.stop ticket = false)
    (stops : ∀ ticket, useful ≤ ticket → ticket < useful + workers → job.stop ticket = true) :
    (List.range (useful + workers)).flatMap (job.items 0) = (List.range useful).flatMap (job.work 0) := by
  have working := flatMap_congr fun ticket mem => Job.items_of_continues 0 (continues ticket (mem_range.mp mem))
  have idle : ((List.range workers).map (useful + ·)).flatMap (job.items 0) = [] := by
    simp only [flatMap_eq_nil_iff, mem_map, mem_range]
    rintro _ ⟨extra, bounded, rfl⟩
    exact if_pos (stops (useful + extra) (by omega) (by omega))
  simp [range_add, working, idle]

/-- The shape used by a loop that stops at its first ticket out of range: only
the useful tickets contribute, however they were distributed. -/
theorem Completes.perm_range (completes : Completes job workers trace) (some : 0 < workers)
    (uniform : ∀ worker ticket, job.work worker ticket = job.work 0 ticket)
    (continues : ∀ ticket, ticket < useful → job.stop ticket = false)
    (stops : ∀ ticket, useful ≤ ticket → ticket < useful + workers → job.stop ticket = true) :
    trace ~ (List.range useful).flatMap (job.work 0) := by
  obtain ⟨pool, balanced, finished, performed⟩ := completes.perm_issued
  have drawn := balanced.ticket_of_finished finished some continues stops
  rwa [issued_eq_range uniform, show pool.owners.length = useful + workers from drawn,
    flatMap_items continues stops] at performed

/-- Items of a ticket that must be drawn are performed in every complete run. -/
theorem Completes.exists_perm_range (completes : Completes job workers trace)
    (uniform : ∀ worker ticket, job.work worker ticket = job.work 0 ticket)
    (few : (List.range ticket).countP job.stop < workers) :
    ∃ drawn, ticket < drawn ∧ trace ~ (List.range drawn).flatMap (job.items 0) := by
  obtain ⟨pool, balanced, finished, performed⟩ := completes.perm_issued
  rw [issued_eq_range uniform] at performed
  exact ⟨_, balanced.drawn_of_countP_lt finished few, performed⟩

/-!
## Effects of independent workers
-/

section

variable (act : α → σ → σ)

/-- Perform a list of items from left to right. -/
def performs (items : List α) (state : σ) : σ :=
  items.foldl (fun current item => act item current) state

@[simp] theorem performs_nil (state : σ) : performs act [] state = state := rfl

@[simp] theorem performs_cons (item : α) (items : List α) (state : σ) :
    performs act (item :: items) state = performs act items (act item state) := rfl

theorem performs_append (first second : List α) (state : σ) :
    performs act (first ++ second) state = performs act second (performs act first state) := by
  simp [performs]

/-- Two items commute when their order never shows. -/
def Commutes (left right : α) : Prop :=
  ∀ state, act left (act right state) = act right (act left state)

theorem performs_comm_item {items : List α} (commutes : ∀ other ∈ items, Commutes act item other) (state : σ) :
    performs act items (act item state) = act item (performs act items state) := by
  induction items generalizing state with
  | nil => rfl
  | cons head tail ih =>
    rw [performs_cons, performs_cons, ← commutes head mem_cons_self]
    exact ih (fun other mem => commutes other (mem_cons_of_mem head mem)) _

theorem performs_comm {first second : List α} (commutes : ∀ left ∈ first, ∀ right ∈ second, Commutes act left right) (state : σ) :
    performs act (first ++ second) state = performs act (second ++ first) state := by
  induction first generalizing state with
  | nil => simp
  | cons head tail ih =>
    have tailCommutes : ∀ left ∈ tail, ∀ right ∈ second, Commutes act left right :=
      fun left mem => commutes left (mem_cons_of_mem head mem)
    simp [performs_cons, ih tailCommutes, performs_append, performs_comm_item act (commutes head mem_cons_self)]

/-- Items that different workers perform for different tickets below a limit
commute. -/
def Independent (job : Job α) (workers limit : Nat) : Prop :=
  ∀ {first second : Nat}, first < workers → second < workers → first ≠ second →
    ∀ {before after : Nat}, before < limit → after < limit → before ≠ after →
      ∀ {left right : α}, left ∈ job.items first before → right ∈ job.items second after →
        Commutes act left right

/-- The item belongs to a ticket that the worker drew. -/
def Owned (job : Job α) (owners : List Nat) (index : Nat) (item : α) : Prop :=
  ∃ ticket, owners[ticket]? = some index ∧ item ∈ job.items index ticket

theorem Owned.append (owned : Owned job owners index item) (drawer : Nat) : Owned job (owners ++ [drawer]) index item := by
  obtain ⟨ticket, drawn, origin⟩ := owned
  have inside := (List.getElem?_eq_some_iff.mp drawn).1
  exact ⟨ticket, by rwa [List.getElem?_append_left inside], origin⟩

theorem Independent.commutes (independent : Independent act job workers limit)
    (drawnFew : owners.length ≤ limit) {first second : Nat} (inside : first < workers)
    (otherInside : second < workers) (ne : first ≠ second) {left right : α}
    (owned : Owned job owners first left) (otherOwned : Owned job owners second right) :
    Commutes act left right := by
  obtain ⟨before, drawn, origin⟩ := owned
  obtain ⟨after, alsoDrawn, otherOrigin⟩ := otherOwned
  have early := (List.getElem?_eq_some_iff.mp drawn).1
  have alsoEarly := (List.getElem?_eq_some_iff.mp alsoDrawn).1
  refine independent inside otherInside ne (by omega) (by omega) ?_ origin otherOrigin
  intro eq
  rw [eq, alsoDrawn] at drawn
  exact ne (Option.some.inj drawn).symm

/-- Performing what is left after the trace has the effect of the tickets in order. -/
structure Replays (job : Job α) (workers : Nat) (pool : Pool α) : Prop where
  size : pool.workers.length = workers
  owned : ∀ (index : Nat) (pending : List α), pool.workers[index]? = some (.busy pending) →
    ∀ item ∈ pending, Owned job pool.owners index item
  effect : ∀ state, performs act (pool.trace ++ pool.pending) state =
    performs act (job.issued pool.owners) state

theorem replays_start (job : Job α) (workers : Nat) : Replays act job workers (start workers) where
  size := by simp [start]
  owned := by
    intro i pending found item mem
    have eq := eq_of_mem_replicate (mem_of_getElem? found)
    simp only [Worker.busy.injEq] at eq
    simp [eq] at mem
  effect := by
    have idle : (start workers : Pool α).pending = [] := by
      simp [start, Pool.pending, Worker.pending]
    intro state
    rw [idle]
    rfl

/-- Split a worker list around one worker. -/
private theorem split_at {workers : List (Worker α)} (found : workers[index]? = some worker) :
    ∃ front back, workers = front ++ worker :: back ∧ front.length = index ∧
      ∀ replacement, workers.set index replacement = front ++ replacement :: back := by
  obtain ⟨inside, eq⟩ := List.getElem?_eq_some_iff.mp found
  refine ⟨workers.take index, workers.drop (index + 1), ?_, by simp; omega, ?_⟩
  · simp [← eq]
  · intro replacement
    exact set_eq_take_append_cons_drop.trans (if_pos inside)

private theorem holder_of_mem {workers : List (Worker α)} (mem : item ∈ workers.flatMap Worker.pending) :
    ∃ index pending, index < workers.length ∧ workers[index]? = some (.busy pending) ∧ item ∈ pending := by
  obtain ⟨holder, mem, held⟩ := mem_flatMap.mp mem
  obtain ⟨index, inside, eq⟩ := mem_iff_getElem.mp mem
  cases holder with
  | done => simp [Worker.pending] at held
  | busy pending => exact ⟨index, pending, inside, List.getElem?_eq_some_iff.mpr ⟨inside, eq⟩, held⟩

private theorem owned_outside {workers : List (Worker α)} {front back : List (Worker α)}
    (split : workers = front ++ worker :: back) (position : front.length = index)
    (owned : ∀ (index : Nat) (pending : List α), workers[index]? = some (.busy pending) →
      ∀ item ∈ pending, Owned job owners index item)
    (out : item ∈ front.flatMap Worker.pending ∨ item ∈ back.flatMap Worker.pending) :
    ∃ other, other < workers.length ∧ other ≠ index ∧ Owned job owners other item := by
  rcases out with out | out
  · obtain ⟨other, pending, inside, eq, held⟩ := holder_of_mem out
    have found : workers[other]? = some (.busy pending) := by
      rw [split, List.getElem?_append_left inside, eq]
    exact ⟨other, (List.getElem?_eq_some_iff.mp found).1, by omega, owned other pending found item held⟩
  · obtain ⟨other, pending, -, eq, held⟩ := holder_of_mem out
    have found : workers[index + 1 + other]? = some (.busy pending) := by
      rw [split, List.getElem?_append_right (by omega),
        show index + 1 + other - front.length = other + 1 by omega, List.getElem?_cons_succ, eq]
    exact ⟨_, (List.getElem?_eq_some_iff.mp found).1, by omega, owned _ pending found item held⟩

private theorem owned_set {workers : List (Worker α)} {replacement : Worker α}
    (owned : ∀ (index : Nat) (pending : List α), workers[index]? = some (.busy pending) →
      ∀ item ∈ pending, Owned job owners index item) (fresh : ∀ item ∈ replacement.pending, Owned job owners index item) :
    ∀ (other : Nat) (pending : List α), (workers.set index replacement)[other]? = some (.busy pending) →
      ∀ item ∈ pending, Owned job owners other item := by
  intro other pending found item mem
  by_cases eq : index = other
  · subst other
    rw [List.getElem?_set_self'] at found
    cases old : workers[index]? with
    | none => simp [old] at found
    | some previous =>
      have eq : replacement = .busy pending := by simpa [old] using found
      rw [eq] at fresh
      exact fresh item mem
  · rw [List.getElem?_set_ne eq] at found
    exact owned other pending found item mem

theorem Replays.step {pool next : Pool α}
    (replays : Replays act job workers pool) (independent : Independent act job workers limit)
    (step : Step job pool next) (drawnFew : next.owners.length ≤ limit) :
    Replays act job workers next := by
  have size := replays.size
  cases step with
  | @perform i item rest found =>
    have inside := (List.getElem?_eq_some_iff.mp found).1
    have mine : ∀ other ∈ item :: rest, Owned job pool.owners i other := replays.owned i _ found
    refine ⟨by simpa using size, owned_set replays.owned ?_, ?_⟩
    · exact fun other mem => mine other (mem_cons_of_mem item mem)
    · obtain ⟨front, back, split, pos, replace⟩ := split_at found
      intro state
      rw [← replays.effect state]
      -- The item moves from its worker's turn to the end of the trace.
      have moved : ∀ current, performs act (front.flatMap Worker.pending) (act item current) =
          act item (performs act (front.flatMap Worker.pending) current) := by
        apply performs_comm_item
        intro other mem
        obtain ⟨holder, holds, ne, origin⟩ := owned_outside split pos replays.owned (.inl mem)
        exact independent.commutes act drawnFew (size ▸ inside) (size ▸ holds) ne.symm (mine item mem_cons_self) origin
      simp only [Pool.pending]
      rw [replace, split]
      simp only [flatMap_append, flatMap_cons, Worker.pending, performs_append, performs_cons, performs_nil, moved]
  | @take i found continues =>
    have items : job.items i pool.owners.length = job.work i pool.ticket := Job.items_of_continues i continues
    have inside := (List.getElem?_eq_some_iff.mp found).1
    have before : ∀ (other : Nat) (pending : List α), pool.workers[other]? = some (.busy pending) → ∀ item ∈ pending,
          Owned job (pool.owners ++ [i]) other item :=
      fun other pending held item mem => (replays.owned other pending held item mem).append _
    have drawn : ∀ item ∈ job.work i pool.ticket, Owned job (pool.owners ++ [i]) i item :=
      fun item mem => ⟨pool.owners.length, by simp, items ▸ mem⟩
    refine ⟨by simpa using size, owned_set before drawn, ?_⟩
    · obtain ⟨front, back, split, pos, replace⟩ := split_at found
      intro state
      rw [issued_append_singleton, performs_append act (job.issued _), ← replays.effect state, items]
      -- The new items overtake whatever later workers still hold.
      have separate : ∀ left ∈ job.work i pool.ticket, ∀ right ∈ back.flatMap Worker.pending, Commutes act left right := by
        intro left mem right held
        obtain ⟨holder, holds, ne, origin⟩ := owned_outside split pos before (.inr held)
        exact independent.commutes act drawnFew (size ▸ inside) (size ▸ holds) ne.symm (drawn left mem) origin
      have moved := performs_comm act separate
      simp only [Pool.pending]
      rw [replace, split]
      simp only [flatMap_append, flatMap_cons, Worker.pending, performs_append, performs_nil] at moved ⊢
      exact moved _
  | @leave i found stops =>
    have items : job.items i pool.owners.length = [] := by
      have leaves : job.stop pool.owners.length = true := stops
      simp [Job.items, leaves]
    refine ⟨by simpa using size, owned_set ?_ (by simp [Worker.pending]), ?_⟩
    · exact fun other pending held item mem =>
        (replays.owned other pending held item mem).append _
    obtain ⟨front, back, split, _, replace⟩ := split_at found
    intro state
    rw [issued_append_singleton, items, append_nil, ← replays.effect state]
    simp only [Pool.pending]
    rw [replace, split]
    simp only [flatMap_append, flatMap_cons, Worker.pending]

theorem Step.owners_le {next : Pool α} (step : Step job pool next) : pool.owners.length ≤ next.owners.length := by
  cases step <;> simp

/-- Whatever the interleaving, independent workers have the effect of the
tickets performed one after another, each by the worker that drew it. -/
theorem Completes.performs_eq (independent : Independent act job workers limit)
    (drawnFew : ∀ pool, Balanced job workers pool → pool.Finished → pool.owners.length ≤ limit)
    (completes : Completes job workers trace) :
    ∃ pool, Balanced job workers pool ∧ pool.Finished ∧
      ∀ state, performs act trace state = performs act (job.issued pool.owners) state := by
  obtain ⟨pool, path, finished, rfl⟩ := completes
  refine ⟨pool, path.balanced, finished, ?_⟩
  have few := drawnFew pool path.balanced finished
  have replays : Replays act job workers pool := by
    clear finished
    induction path with
    | refl => exact replays_start act job workers
    | tail _ step ih => exact (ih (step.owners_le.trans few)).step act independent step few
  intro state
  have effect := replays.effect state
  rwa [finished.pending_eq_nil, append_nil] at effect

/-- The shape used by a loop that stops at its first ticket out of range. -/
theorem Completes.performs_useful (completes : Completes job workers trace) (some : 0 < workers)
    (continues : ∀ ticket, ticket < useful → job.stop ticket = false)
    (stops : ∀ ticket, useful ≤ ticket → ticket < useful + workers → job.stop ticket = true)
    (independent : Independent act job workers useful) :
    ∃ owners : List Nat, owners.length = useful ∧ (∀ owner ∈ owners, owner < workers) ∧ ∀ state, performs act trace state =
        performs act (owners.zipIdx.flatMap fun drawn => job.work drawn.1 drawn.2) state := by
  have idle : ∀ {worker ticket : Nat} {item : α}, ticket < useful + workers →
      item ∈ job.items worker ticket → ticket < useful := by
    intro worker ticket item bounded mem
    by_contra late
    simp [Job.items, stops ticket (by omega) bounded] at mem
  have wider : Independent act job workers (useful + workers) := by
    intro first second inside otherInside ne before after early otherEarly apart left right origin otherOrigin
    exact independent inside otherInside ne (idle early origin) (idle otherEarly otherOrigin) apart origin otherOrigin
  obtain ⟨pool, balanced, finished, eq⟩ := completes.performs_eq act wider fun pool balanced finished =>
      le_of_eq (balanced.ticket_of_finished finished some continues stops)
  have drawn : pool.owners.length = useful + workers := balanced.ticket_of_finished finished some continues stops
  refine ⟨pool.owners.take useful, by simp; omega,
    fun owner mem => balanced.known owner (mem_of_mem_take mem), fun state => ?_⟩
  have issued : job.issued pool.owners = (pool.owners.take useful).zipIdx.flatMap fun drawn => job.work drawn.1 drawn.2 := by
    have split : pool.owners.zipIdx = (pool.owners.take useful).zipIdx ++ (pool.owners.drop useful).zipIdx useful := by
      conv_lhs => rw [← take_append_drop useful pool.owners]
      rw [zipIdx_append]
      congr 2
      simp
      omega
    rw [Job.issued, split, flatMap_append]
    have rest : ((pool.owners.drop useful).zipIdx useful).flatMap (fun drawn => job.items drawn.1 drawn.2) = [] := by
      simp only [flatMap_eq_nil_iff]
      intro drawn mem
      have bounds := mem_zipIdx mem
      simp only [length_drop] at bounds
      simp [Job.items, stops drawn.2 (by omega) (by omega)]
    rw [rest, append_nil]
    refine flatMap_congr fun drawn mem => ?_
    have bounds := mem_zipIdx mem
    simp only [length_take] at bounds
    simp [Job.items, continues drawn.2 (by omega)]
  rw [eq state, issued]

end

/-!
## Complete runs exist
-/

/-- A worker can perform everything it holds while the others wait. -/
private theorem reaches_drained {pending : List α} (found : pool.workers[index]? = some (.busy pending)) :
    ∃ next, Reaches job pool next ∧ next.owners = pool.owners ∧
      next.workers = pool.workers.set index (.busy []) ∧ next.workers[index]? = some (.busy []) := by
  induction pending generalizing pool with
  | nil =>
    refine ⟨pool, .refl, rfl, ?_, found⟩
    obtain ⟨inside, eq⟩ := List.getElem?_eq_some_iff.mp found
    simp [← eq]
  | cons item rest ih =>
    let performed : Pool α := {
      owners := pool.owners, workers := pool.workers.set index (.busy rest)
      trace := pool.trace ++ [item] }
    have held : performed.workers[index]? = some (.busy rest) := getElem?_set_of_found found
    obtain ⟨next, path, owners, workers, idle⟩ := ih held
    exact ⟨next, .head (.perform found) path, owners, by simpa [performed] using workers, idle⟩

/-- A worker can draw tickets alone until one sends it away. -/
private theorem reaches_left {pending : List α} (found : pool.workers[index]? = some (.busy pending))
    (stops : job.stop (pool.ticket + distance) = true) :
    ∃ next, Reaches job pool next ∧ next.workers = pool.workers.set index .done := by
  induction distance generalizing pool pending with
  | zero =>
    obtain ⟨drained, path, owners, workers, idle⟩ := reaches_drained found
    have leaves : job.stop drained.ticket = true := by
      simpa [Pool.ticket, owners] using stops
    exact ⟨_, path.tail (.leave idle leaves), by simp [workers]⟩
  | succ distance ih =>
    obtain ⟨drained, path, owners, workers, idle⟩ := reaches_drained found
    cases leaves : job.stop drained.ticket with
    | true => exact ⟨_, path.tail (.leave idle leaves), by simp [workers]⟩
    | false =>
      let taken : Pool α := {
        owners := drained.owners ++ [index]
        workers := drained.workers.set index (.busy (job.work index drained.ticket))
        trace := drained.trace }
      have held : taken.workers[index]? = some (.busy _) := getElem?_set_of_found idle
      have nearer : job.stop (taken.ticket + distance) = true := by
        simpa [taken, Pool.ticket, owners, add_assoc, add_comm 1] using stops
      obtain ⟨next, onward, shape⟩ := ih held nearer
      have step : Step job drained taken := .take idle leaves
      exact ⟨next, (path.tail step).trans onward, by simpa [taken, workers] using shape⟩

/-- If stopping tickets never run out, some schedule sends every worker away. -/
theorem exists_completes (workers : Nat) (stops : ∀ ticket, ∃ later, ticket ≤ later ∧ job.stop later = true) :
    ∃ trace, Completes job workers trace := by
  have progress : ∀ (remaining : Nat) (pool : Pool α), pool.workers.countP (fun worker => !worker.isDone) = remaining →
      ∃ next, Reaches job pool next ∧ next.Finished := by
    intro remaining
    induction remaining with
    | zero =>
      intro pool idle
      refine ⟨pool, .refl, ?_⟩
      intro worker mem
      simpa using countP_eq_zero.mp idle worker mem
    | succ remaining ih =>
      intro pool active
      have pos : 0 < pool.workers.countP (fun worker => !worker.isDone) := by omega
      obtain ⟨worker, mem, busy⟩ := countP_pos_iff.mp pos
      obtain ⟨i, found⟩ := mem_iff_getElem?.mp mem
      cases worker with
      | done => simp [Worker.isDone] at busy
      | busy pending =>
        obtain ⟨later, ahead, leaves⟩ := stops pool.ticket
        obtain ⟨next, path, shape⟩ := reaches_left found
          (by rwa [Nat.add_sub_of_le ahead] : job.stop (pool.ticket + (later - pool.ticket)) = true)
        have fewer : next.workers.countP (fun worker => !worker.isDone) = remaining := by
          obtain ⟨front, back, split, _, replace⟩ := split_at found
          rw [shape, replace]
          rw [split] at active
          simp only [countP_append, countP_cons, Worker.isDone, Bool.not_true, Bool.not_false] at active ⊢
          simp only [if_true] at active
          simp
          omega
        obtain ⟨last, onward, finished⟩ := ih next fewer
        exact ⟨last, path.trans onward, finished⟩
  obtain ⟨pool, path, finished⟩ := progress _ (start workers) rfl
  exact ⟨pool.trace, pool, path, finished, rfl⟩

end TicketPool
