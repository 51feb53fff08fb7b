import Mathlib

/-!
# Runs of interleaved actions

A system has a state and actions, and an action that is not possible in a state has
no next state. A run is the list of its actions in the order in which they happened,
whoever performed them.
-/

namespace Interleaving

universe u v

variable {σ : Type u} {α : Type v}

/-- Runs of which each action meets a condition in the state it happens in. -/
inductive Run (step : σ → α → Option σ) (cond : σ → α → Prop) (start : σ) : List α → σ → Prop where
  | nil : Run step cond start [] start
  | snoc {acts : List α} {state next : σ} {act : α} (before : Run step cond start acts state)
      (meets : cond state act) (happens : step state act = some next) :
      Run step cond start (acts ++ [act]) next

/-- All runs. -/
abbrev Anyhow (_ : σ) (_ : α) : Prop := True

section

variable {step : σ → α → Option σ} {cond clean wider other : σ → α → Prop} {start final : σ} {acts more : List α}
  {Good : σ → Prop}

/-- What holds at the start and is kept by every action holds after every run. -/
theorem Run.invariant (Inv : List α → σ → Prop) (run : Run step cond start acts final) (first : Inv [] start)
    (kept : ∀ {acts : List α} {state next : σ} {act : α}, Inv acts state → cond state act →
      step state act = some next → Inv (acts ++ [act]) next) : Inv acts final := by
  induction run with
  | nil => exact first
  | snoc _ meets happens ih => exact kept ih meets happens

theorem Run.append {middle : σ} (run : Run step cond start acts middle)
    (further : Run step cond middle more final) : Run step cond start (acts ++ more) final := by
  induction further with
  | nil => rwa [List.append_nil]
  | snoc _ meets happens ih =>
    rw [← List.append_assoc]
    exact .snoc ih meets happens

/-- Actions one after another, as long as they meet the condition. -/
def perform (step : σ → α → Option σ) (cond : σ → α → Prop) [∀ state act, Decidable (cond state act)]
    (start : σ) (acts : List α) : Option σ :=
  acts.foldlM (fun state act => if cond state act then step state act else none) start

theorem run_of_perform [∀ state act, Decidable (cond state act)]
    (performed : perform step cond start acts = some final) : Run step cond start acts final := by
  induction acts generalizing start with
  | nil =>
    cases performed
    exact .nil
  | cons act rest ih =>
    obtain ⟨mid, first, later⟩ := Option.bind_eq_some_iff.mp performed
    obtain ⟨meets, happens⟩ := Option.ite_none_right_eq_some.mp first
    have one := Run.snoc .nil meets happens
    exact one.append (ih later)

theorem exists_run_of_perform [∀ state act, Decidable (cond state act)] {Goal : σ → Prop} [DecidablePred Goal]
    (shown : ((perform step cond start acts).any fun final => decide (Goal final)) = true) :
    ∃ final, Run step cond start acts final ∧ Goal final := by
  cases performed : perform step cond start acts with
  | none =>
    rw [performed] at shown
    cases shown
  | some final =>
    rw [performed] at shown
    exact ⟨final, run_of_perform performed, of_decide_eq_true shown⟩

theorem Run.mono (run : Run step cond start acts final)
    (weaker : ∀ {state act}, cond state act → wider state act) : Run step wider start acts final := by
  induction run with
  | nil => exact .nil
  | snoc _ meets happens ih => exact .snoc ih (weaker meets) happens

/-- The same actions lead to the same state. -/
theorem Run.unique {state : σ} (run : Run step cond start acts final)
    (again : Run step other start acts state) : state = final := by
  induction run generalizing state with
  | nil =>
    generalize none : [] = acts at again
    cases again with
    | nil => rfl
    | snoc _ _ _ => simp at none
  | @snoc acts _ _ act _ _ happens ih =>
    generalize same : acts ++ [act] = whole at again
    cases again with
    | nil => simp at same
    | snoc before _ happened =>
      obtain ⟨rfl, last⟩ := List.append_inj' same rfl
      cases last
      rw [ih before, happens] at happened
      exact (Option.some.inj happened).symm

/-- A property holds in all states on the way. -/
def Throughout (step : σ → α → Option σ) (cond : σ → α → Prop) (start : σ) (Good : σ → Prop)
    (acts : List α) : Prop :=
  ∀ initial state, initial <+: acts → Run step cond start initial state → Good state

theorem Throughout.initial {act : α} (throughout : Throughout step cond start Good (acts ++ [act])) :
    Throughout step cond start Good acts := fun initial state part run =>
  throughout initial state (part.trans (List.prefix_append _ _)) run

/-- A condition that makes a property hold, and that the property needs in each step, holds of
exactly the runs with the property throughout. -/
theorem Run.throughout_iff (run : Run step cond start acts final) (enough : ∀ {acts : List α} {state : σ},
      Run step (fun state act => cond state act ∧ clean state act) start acts state → Good state)
    (needed : ∀ {acts : List α} {state next : σ} {act : α},
      Run step (fun state act => cond state act ∧ clean state act) start acts state →
      cond state act → step state act = some next → Good next → clean state act) :
    Throughout step cond start Good acts ↔ Run step (fun state act => cond state act ∧ clean state act) start acts final := by
  constructor
  · intro throughout
    induction run with
    | nil => exact .nil
    | snoc before meets happens ih =>
      have good := throughout _ _ List.prefix_rfl (.snoc before meets happens)
      have cleanly := ih throughout.initial
      exact .snoc cleanly ⟨meets, needed cleanly meets happens good⟩ happens
  · intro cleanly
    induction cleanly with
    | nil =>
      intro initial state part reached
      cases List.prefix_nil.mp part
      rw [run.unique reached]
      exact enough .nil
    | @snoc _ _ _ act before meets happens ih =>
      intro initial state part reached
      rcases List.prefix_concat_iff.mp part with rfl | earlier
      · rw [Run.unique (.snoc before meets happens) reached]
        exact enough (.snoc before meets happens)
      · exact ih (before.mono And.left) initial state earlier reached

/-- The same from an invariant of the clean runs, over all runs. -/
theorem Run.throughout_iff_of_invariant (Inv : σ → Prop) (run : Run step Anyhow start acts final) (first : Inv start)
    (good : ∀ {state : σ}, Inv state → Good state)
    (kept : ∀ {state next : σ} {act : α}, Inv state → clean state act → step state act = some next → Inv next)
    (needed : ∀ {state next : σ} {act : α}, Inv state → step state act = some next → Good next → clean state act) :
    Throughout step Anyhow start Good acts ↔ Run step clean start acts final := by
  have holds {acts : List α} {state : σ}
      (cleanly : Run step (fun state act => Anyhow state act ∧ clean state act) start acts state) : Inv state :=
    Run.invariant (fun _ => Inv) cleanly first fun inv meets moved => kept inv meets.2 moved
  have both := run.throughout_iff (fun cleanly => good (holds cleanly)) fun cleanly _ moved good =>
    needed (holds cleanly) moved good
  exact both.trans ⟨fun run => run.mono And.right, fun run => run.mono fun meets => ⟨trivial, meets⟩⟩

/-- Actions that can be performed cleanly have the property throughout. -/
theorem throughout_of_perform [∀ state act, Decidable (clean state act)] (iff : ∀ {final : σ}, Run step Anyhow start acts final →
      (Throughout step Anyhow start Good acts ↔ Run step clean start acts final))
    (shown : (perform step clean start acts).isSome = true) : Throughout step Anyhow start Good acts := by
  obtain ⟨final, performed⟩ := Option.isSome_iff_exists.mp shown
  have cleanly := run_of_perform performed
  exact (iff (cleanly.mono fun _ => trivial)).mpr cleanly

end

end Interleaving
