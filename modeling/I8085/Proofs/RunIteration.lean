/-
Module: I8085.Proofs.RunIteration
Layer: Proofs
Purpose: A run is one step after another. The machine after a number of steps is given by the step
  alone (`Machine.after`), and so are the places where a run has an end: a halted machine, a
  breakpoint where the run did not start, the end of the budget, a step that fails. A run goes on to
  the first of these places and ends in the machine that stands there, or in the one that the
  failing step leaves; its outcome says which it was, and after how many steps. A session tells a
  front-end the same outcome for every budget of 32 bits (`Machine.run_iterates`).
Imports: I8085.Proofs.RunSlices, I8085.Proofs.StepEquation, I8085.Session
Main exports: Machine.breakpoints_step, Machine.after, Machine.EndsAfter, Machine.Ending,
  Machine.exists_ending, Machine.Iterates, Session.run_eq, Machine.run_iterates
-/
import I8085.Proofs.RunSlices
import I8085.Proofs.StepEquation
import I8085.Session

namespace I8085

namespace Machine

variable {m : Machine} {budget : Nat}

/-! ### What a step keeps -/

theorem breakpoints_set (m : Machine) (register : Register) (value : Byte) :
    (m.set register value).breakpoints = m.breakpoints := by
  cases register <;> rfl

/-- No instruction changes the breakpoints. -/
theorem breakpoints_completed (m : Machine) (instruction : Instruction) :
    (m.completed instruction).breakpoints = m.breakpoints := by
  cases instruction
  case mov target source => exact breakpoints_set m target _
  case mvi target value => exact breakpoints_set m target value
  case inr target => exact breakpoints_set m target _
  case dcr target => exact breakpoints_set m target _
  case jump condition target =>
    by_cases taken : m.takes condition <;> simp [completed, taken, withPc]
  case call condition target =>
    by_cases taken : m.takes condition <;> simp [completed, taken, called]
  case ret condition =>
    by_cases taken : m.takes condition <;> simp [completed, taken, returned]
  all_goals rfl

/-- No step changes the breakpoints, whether it succeeds or fails. -/
theorem breakpoints_step (m : Machine) : m.step.1.breakpoints = m.breakpoints := by
  rcases m.step_cases with ⟨_, step⟩ | ⟨_, address, fault, step⟩ | ⟨_, instruction, _, _, step⟩
  · rw [step]
  · rw [step]
    rfl
  · rw [step, breakpoints_completed]
    rfl

/-- A running machine executes an instruction unless the step fails. -/
theorem step_answer_of_running (running : m.cpu.halted = false)
    (succeeds : ¬∃ fault, m.step.2 = .error fault) : m.step.2 = .ok true := by
  rcases m.step_cases with ⟨halted, _⟩ | ⟨_, address, fault, step⟩ | ⟨_, instruction, _, _, step⟩
  · rw [running] at halted
    cases halted
  · exact absurd ⟨fault, by rw [step]⟩ succeeds
  · rw [step]

/-! ### Steps one after another -/

/-- The machine after a number of steps. A step that fails counts as well. -/
def after (m : Machine) : Nat → Machine
  | 0 => m
  | steps + 1 => (m.after steps).step.1

theorem breakpoints_after (m : Machine) (steps : Nat) :
    (m.after steps).breakpoints = m.breakpoints := by
  induction steps with
  | zero => rfl
  | succ steps ih => rw [after, breakpoints_step, ih]

/-- Whether a run has an end after a number of steps. -/
def EndsAfter (m : Machine) (budget steps : Nat) : Prop :=
  (m.after steps).cpu.halted = true ∨
    (steps < budget ∧ 1 ≤ steps ∧ m.breakpoints.contains (m.after steps).cpu.pc = true) ∨
    steps = budget ∨
    ∃ fault, (m.after steps).step.2 = .error fault

/-- A run has an end after its budget at the latest. -/
theorem le_of_not_endsAfter {last : Nat}
    (goesOn : ∀ earlier, earlier < last → ¬m.EndsAfter budget earlier) : last ≤ budget := by
  apply Nat.le_of_not_lt
  intro past
  exact goesOn budget past (.inr (.inr (.inl rfl)))

/-- How a run ends that has its end after a number of steps. A halted machine is told before the end
of the budget, and both are told before a breakpoint. A run that has none of these ends has come to
a step that fails. -/
inductive Ending (m : Machine) (budget steps : Nat) : Machine × Except Fault Stop → Prop where
  | halted (halted : (m.after steps).cpu.halted = true) :
      Ending m budget steps (m.after steps, .ok (.halted steps))
  | stepLimit (running : (m.after steps).cpu.halted = false) (used : steps = budget) :
      Ending m budget steps (m.after steps, .ok (.stepLimit steps))
  | breakpoint (running : (m.after steps).cpu.halted = false) (left : steps ≠ budget)
      (started : 1 ≤ steps) (present : m.breakpoints.contains (m.after steps).cpu.pc = true) :
      Ending m budget steps
        (m.after steps, .ok (.breakpoint (m.after steps).cpu.pc steps))
  | fault {next : Machine} {fault : Fault} (running : (m.after steps).cpu.halted = false)
      (left : steps ≠ budget)
      (passes : ¬(1 ≤ steps ∧ m.breakpoints.contains (m.after steps).cpu.pc = true))
      (failed : (m.after steps).step = (next, .error fault)) :
      Ending m budget steps (next, .error fault)

/-- A run that stops does so in the machine after the steps that it counts, and one that fails in
the machine after one step more. -/
theorem Ending.exists_after {steps : Nat} {ended : Machine × Except Fault Stop}
    (ending : m.Ending budget steps ended) : ∃ taken, ended.1 = m.after taken := by
  cases ending with
  | halted | stepLimit | breakpoint => exact ⟨steps, rfl⟩
  | fault _ _ _ failed => exact ⟨steps + 1, by rw [after, failed]⟩

theorem Ending.steps_eq {steps : Nat} {last : Machine} {stop : Stop}
    (ending : m.Ending budget steps (last, .ok stop)) : stop.steps = steps := by
  cases ending <;> rfl

/-- A run that has a budget left where it has an end stops or fails there. -/
theorem ending_of_endsAfter {steps left : Nat} (sum : steps + (left + 1) = budget)
    (ends : m.EndsAfter budget steps) :
    m.Ending budget steps (runAfter steps (left + 1) (m.after steps)) := by
  have unused : steps ≠ budget := by omega
  have kept := m.breakpoints_after steps
  rcases running : (m.after steps).cpu.halted with _ | _
  · by_cases stops : (m.after steps).stopsHere steps (left + 1)
    · rw [runAfter_of_stops running stops]
      obtain ⟨started, _, present⟩ := stops
      rw [kept] at present
      exact .breakpoint running unused started present
    · have passes : ¬(1 ≤ steps ∧ m.breakpoints.contains (m.after steps).cpu.pc = true) := by
        rintro ⟨started, present⟩
        rw [← kept] at present
        exact stops ⟨started, Nat.succ_pos left, present⟩
      obtain ⟨fault, failed⟩ : ∃ fault, (m.after steps).step.2 = .error fault := by
        rcases ends with halted | ⟨_, here⟩ | used | failed
        · rw [running] at halted
          cases halted
        · exact absurd here passes
        · exact absurd used unused
        · exact failed
      rcases stepped : (m.after steps).step with ⟨next, answer⟩
      rw [stepped] at failed
      obtain rfl : answer = .error fault := failed
      rw [runAfter_succ running stops, stepped]
      exact .fault running unused passes stepped
  · rw [runAfter_of_halted running]
    exact .halted running

/-- A run that has no end where it is takes a step and goes on. -/
theorem runAfter_of_not_endsAfter {steps left : Nat} (sum : steps + (left + 1) = budget)
    (goesOn : ¬m.EndsAfter budget steps) :
    runAfter steps (left + 1) (m.after steps) = runAfter (steps + 1) left (m.after (steps + 1)) ∧
      (m.after steps).step.2 = .ok true := by
  simp only [EndsAfter, not_or] at goesOn
  obtain ⟨notHalted, notStopped, _, succeeds⟩ := goesOn
  have running : (m.after steps).cpu.halted = false := Bool.eq_false_iff.2 notHalted
  have passes : ¬(m.after steps).stopsHere steps (left + 1) := by
    rintro ⟨started, _, present⟩
    rw [breakpoints_after] at present
    exact notStopped ⟨by omega, started, present⟩
  have answer := step_answer_of_running running succeeds
  refine ⟨?_, answer⟩
  rw [runAfter_succ running passes, after]
  rcases stepped : (m.after steps).step with ⟨next, result⟩
  rw [stepped] at answer
  obtain rfl : result = .ok true := answer
  rfl

/-- A run that has had no end so far ends at the first end that comes. -/
theorem exists_ending {steps left : Nat} (sum : steps + left = budget)
    (goesOn : ∀ earlier, earlier < steps → ¬m.EndsAfter budget earlier) :
    ∃ last, m.EndsAfter budget last ∧
      (∀ earlier, earlier < last → ¬m.EndsAfter budget earlier) ∧
      m.Ending budget last (runAfter steps left (m.after steps)) := by
  -- Either the run has an end here, or it goes on with a budget that is one less.
  induction left generalizing steps with
  | zero =>
    have used : steps = budget := sum
    refine ⟨steps, .inr (.inr (.inl used)), goesOn, ?_⟩
    rcases running : (m.after steps).cpu.halted with _ | _
    · rw [runAfter_zero running]
      exact .stepLimit running used
    · rw [runAfter_of_halted running]
      exact .halted running
  | succ left ih =>
    by_cases ends : m.EndsAfter budget steps
    · exact ⟨steps, ends, goesOn, ending_of_endsAfter sum ends⟩
    · rw [(runAfter_of_not_endsAfter sum ends).1]
      apply ih (by omega)
      intro earlier before
      rcases Nat.lt_succ_iff_lt_or_eq.1 before with less | rfl
      · exact goesOn earlier less
      · exact ends

/-- What it is for a run to be a number of steps one after another. -/
structure Iterates (m : Machine) (budget steps : Nat) (ended : Machine × Except Fault Stop) :
    Prop where
  ends : m.EndsAfter budget steps
  /-- The run has no end before. -/
  goes_on : ∀ earlier, earlier < steps → ¬m.EndsAfter budget earlier
  /-- Each step before the end executes an instruction. -/
  executed : ∀ earlier, earlier < steps → (m.after earlier).step.2 = .ok true
  ending : m.Ending budget steps ended
  breakpoints_eq : ended.1.breakpoints = m.breakpoints

theorem exists_iterates (m : Machine) (budget : Nat) :
    ∃ steps, m.Iterates budget steps (m.run budget) := by
  obtain ⟨last, ends, goesOn, ending⟩ :=
    exists_ending (m := m) (Nat.zero_add budget) fun earlier before => nomatch before
  refine ⟨last, ends, goesOn, ?_, ending, ?_⟩
  · intro earlier before
    have most := le_of_not_endsAfter goesOn
    obtain ⟨left, rfl⟩ : ∃ left, budget = earlier + (left + 1) :=
      ⟨budget - earlier - 1, by omega⟩
    exact (runAfter_of_not_endsAfter rfl (goesOn earlier before)).2
  · obtain ⟨taken, same⟩ := ending.exists_after
    change (runAfter 0 budget (m.after 0)).1.breakpoints = m.breakpoints
    rw [same, breakpoints_after]

/-- A run counts no more steps than its budget. -/
theorem steps_run_le {last : Machine} {stop : Stop} (ran : m.run budget = (last, .ok stop)) :
    stop.steps ≤ budget := by
  obtain ⟨steps, iterates⟩ := m.exists_iterates budget
  have most := le_of_not_endsAfter iterates.goes_on
  have ending := iterates.ending
  rw [ran] at ending
  rwa [ending.steps_eq]

end Machine

/-! ### Sessions -/

/-- A count below the limit of 32 bits is told as it is. -/
theorem Session.reported_eq {stop : Stop} (counted : stop.steps < UInt32.size) :
    reported stop = stop := by
  have same (steps : Nat) (less : steps < UInt32.size) : (UInt32.ofNat steps).toNat = steps :=
    UInt32.toNat_ofNat_of_lt' less
  cases stop with
  | halted steps => rw [reported, same steps counted]
  | breakpoint address steps => rw [reported, same steps counted]
  | stepLimit steps => rw [reported, same steps counted]

/-- For a budget of 32 bits, a session runs as its machine does. -/
theorem Session.run_eq (session : Session) (budget : UInt32) :
    session.run budget.toNat =
      ({ session with machine := (session.machine.run budget.toNat).1 },
        (session.machine.run budget.toNat).2) := by
  rcases ran : session.machine.run budget.toNat with ⟨last, fault | stop⟩
  · simp [Session.run, ran, Except.map]
  · have most := Machine.steps_run_le ran
    have counted : stop.steps < UInt32.size := Nat.lt_of_le_of_lt most budget.toNat_lt_size
    simp [Session.run, ran, Except.map, reported_eq counted]

/-- A run executes one instruction after another up to the first place where it has an end, and ends
as that place says, with the breakpoints as they were. For a budget of 32 bits, a session tells the
outcome of the run of its machine, no count being cut off. -/
theorem Machine.run_iterates (m : Machine) (budget : Nat) :
    (∃ steps, m.Iterates budget steps (m.run budget)) ∧
      ∀ (session : Session) (limit : UInt32),
        session.run limit.toNat =
          ({ session with machine := (session.machine.run limit.toNat).1 },
            (session.machine.run limit.toNat).2) := by
  constructor
  · exact m.exists_iterates budget
  · exact Session.run_eq

end I8085
