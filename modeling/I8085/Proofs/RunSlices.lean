/-
Module: I8085.Proofs.RunSlices
Layer: Proofs
Purpose: A run in slices against a run in one go. A run counts its steps, and it looks for a
  breakpoint before every step but the first, so a run that goes on after a number of steps differs
  from one that starts afresh in the count and in that first look (`Machine.runAfter_eq`). Where a
  slice ends at a breakpoint with budget left over, the single run stops and the next slice takes a
  step and goes on (`Machine.pastStep`); everywhere else the two agree
  (`Machine.run_add_of_stepLimit`).
Imports: I8085.Machine.Run
Main exports: Stop.after, Machine.delayed, Machine.runAfter_add, Machine.runAfter_eq,
  Machine.pastStep, Machine.run_eq_pastStep, Machine.run_add_of_stepLimit
-/
import I8085.Machine.Run

namespace I8085

/-- The same outcome with steps that came before. -/
def Stop.after (earlier : Nat) : Stop → Stop
  | .halted steps => .halted (earlier + steps)
  | .breakpoint address steps => .breakpoint address (earlier + steps)
  | .stepLimit steps => .stepLimit (earlier + steps)

namespace Machine

/-- The same end of a run with steps that came before. -/
def delayed (earlier : Nat) (ended : Machine × Except Fault Stop) : Machine × Except Fault Stop :=
  (ended.1, ended.2.map (Stop.after earlier))

/-- Whether a run with budget left stops at the breakpoint at which the machine stands. -/
def stopsHere (m : Machine) (steps budget : Nat) : Prop :=
  0 < steps ∧ 0 < budget ∧ m.breakpoints.contains m.cpu.pc = true

instance (m : Machine) (steps budget : Nat) : Decidable (m.stopsHere steps budget) :=
  inferInstanceAs (Decidable (_ ∧ _ ∧ _))

/-! ### One step of a run -/

/-- A run does not stop before its first step. -/
theorem not_stopsHere_zero (m : Machine) {budget : Nat} : ¬m.stopsHere 0 budget :=
  fun stop => Nat.lt_irrefl 0 stop.1

theorem runAfter_of_halted {m : Machine} (halted : m.cpu.halted = true) (steps budget : Nat) :
    runAfter steps budget m = (m, .ok (.halted steps)) := by
  cases budget with
  | zero => simp [runAfter, halted]
  | succ budget => simp [runAfter, halted]

theorem runAfter_zero {m : Machine} (running : m.cpu.halted = false) (steps : Nat) :
    runAfter steps 0 m = (m, .ok (.stepLimit steps)) := by
  simp [runAfter, running]

theorem runAfter_of_stops {m : Machine} (running : m.cpu.halted = false) {steps budget : Nat}
    (stops : m.stopsHere steps budget) :
    runAfter steps budget m = (m, .ok (.breakpoint m.cpu.pc steps)) := by
  obtain ⟨later, left, present⟩ := stops
  obtain ⟨rest, rfl⟩ := Nat.exists_eq_add_one_of_ne_zero (Nat.ne_of_gt left)
  simp [runAfter, running, later, present]

/-- A run that does not stop where it is takes a step, and goes on if the step succeeds. -/
theorem runAfter_succ {m : Machine} (running : m.cpu.halted = false) {steps budget : Nat}
    (passes : ¬ m.stopsHere steps (budget + 1)) :
    runAfter steps (budget + 1) m =
      match m.step with
      | (next, .ok _) => runAfter (steps + 1) budget next
      | (next, .error fault) => (next, .error fault) := by
  have noStop : ¬ (0 < steps ∧ m.breakpoints.contains m.cpu.pc = true) := by
    intro stop
    exact passes ⟨stop.1, Nat.succ_pos budget, stop.2⟩
  rcases stepped : m.step with ⟨next, fault | proceeded⟩
  · simp [runAfter, running, noStop, stepped]
  · simp [runAfter, running, noStop, stepped]

/-! ### Runs -/

/-- A run with two budgets is the run with the first, continued with the second where the first was
used up. -/
theorem runAfter_add (first second steps : Nat) (m : Machine) :
    runAfter steps (first + second) m =
      match runAfter steps first m with
      | (middle, .ok (.stepLimit used)) => runAfter used second middle
      | ended => ended := by
  induction first generalizing steps m with
  | zero =>
    rcases running : m.cpu.halted with _ | _
    · rw [runAfter_zero running, Nat.zero_add]
    · rw [runAfter_of_halted running, runAfter_of_halted running]
  | succ first ih =>
    have shift : first + 1 + second = (first + second) + 1 := by omega
    rcases running : m.cpu.halted with _ | _
    · by_cases stops : m.stopsHere steps (first + 1)
      · have alsoStops : m.stopsHere steps (first + 1 + second) :=
          ⟨stops.1, by omega, stops.2.2⟩
        rw [runAfter_of_stops running stops, runAfter_of_stops running alsoStops]
      · have passes : ¬ m.stopsHere steps (first + second + 1) := by
          intro stop
          exact stops ⟨stop.1, Nat.succ_pos first, stop.2.2⟩
        rw [shift, runAfter_succ running passes, runAfter_succ running stops]
        rcases m.step with ⟨next, fault | proceeded⟩
        · rfl
        · exact ih (steps + 1) next
    · rw [runAfter_of_halted running, runAfter_of_halted running]

/-- Where a run ends for want of budget, it has used all of it and is not halted. -/
theorem runAfter_stepLimit {budget steps used : Nat} {m middle : Machine}
    (limited : runAfter steps budget m = (middle, .ok (.stepLimit used))) :
    used = steps + budget ∧ middle.cpu.halted = false := by
  induction budget generalizing steps m with
  | zero =>
    rcases running : m.cpu.halted with _ | _
    · rw [runAfter_zero running] at limited
      cases limited
      exact ⟨rfl, running⟩
    · rw [runAfter_of_halted running] at limited
      cases limited
  | succ budget ih =>
    rcases running : m.cpu.halted with _ | _
    · by_cases stops : m.stopsHere steps (budget + 1)
      · rw [runAfter_of_stops running stops] at limited
        cases limited
      · rw [runAfter_succ running stops] at limited
        rcases stepped : m.step with ⟨next, fault | proceeded⟩
        · rw [stepped] at limited
          cases limited
        · rw [stepped] at limited
          obtain ⟨count, quiet⟩ := ih limited
          exact ⟨by omega, quiet⟩
    · rw [runAfter_of_halted running] at limited
      cases limited

/-- Once a run looks for breakpoints, how many steps it counts makes no other difference. -/
theorem runAfter_delayed (earlier steps budget : Nat) (started : 0 < steps) (m : Machine) :
    runAfter (earlier + steps) budget m = delayed earlier (runAfter steps budget m) := by
  induction budget generalizing steps m with
  | zero =>
    rcases running : m.cpu.halted with _ | _
    · rw [runAfter_zero running, runAfter_zero running]
      rfl
    · rw [runAfter_of_halted running, runAfter_of_halted running]
      rfl
  | succ budget ih =>
    rcases running : m.cpu.halted with _ | _
    · by_cases stops : m.stopsHere steps (budget + 1)
      · have alsoStops : m.stopsHere (earlier + steps) (budget + 1) :=
          ⟨by omega, stops.2.1, stops.2.2⟩
        rw [runAfter_of_stops running stops, runAfter_of_stops running alsoStops]
        rfl
      · have passes : ¬ m.stopsHere (earlier + steps) (budget + 1) := by
          intro stop
          exact stops ⟨started, stop.2.1, stop.2.2⟩
        rw [runAfter_succ running stops, runAfter_succ running passes]
        rcases m.step with ⟨next, fault | proceeded⟩
        · rfl
        · exact ih (steps + 1) (Nat.succ_pos steps) next
    · rw [runAfter_of_halted running, runAfter_of_halted running]
      rfl

/-- A run that goes on after some steps, unless it stops at once, is a fresh run with these steps
before it. -/
theorem runAfter_eq (m : Machine) (earlier budget : Nat) :
    runAfter earlier budget m =
      if m.cpu.halted = false ∧ m.stopsHere earlier budget then
        (m, .ok (.breakpoint m.cpu.pc earlier))
      else delayed earlier (m.run budget) := by
  rcases running : m.cpu.halted with _ | _
  · by_cases stops : m.stopsHere earlier budget
    · rw [if_pos ⟨rfl, stops⟩, runAfter_of_stops running stops]
    · rw [if_neg fun stop => stops stop.2, run]
      cases budget with
      | zero =>
        rw [runAfter_zero running, runAfter_zero running]
        rfl
      | succ budget =>
        rw [runAfter_succ running stops, runAfter_succ running m.not_stopsHere_zero]
        rcases m.step with ⟨next, fault | proceeded⟩
        · rfl
        · exact runAfter_delayed earlier 1 budget Nat.one_pos next
  · rw [if_neg (by simp), run, runAfter_of_halted running, runAfter_of_halted running]
    rfl

/-! ### A run in slices -/

/-- The end of a run that takes a step even at a breakpoint. After the step it ends if the machine
has come to a breakpoint and there is budget left, and otherwise as a run from there does, with one
step more. -/
def pastStep (m : Machine) (budget : Nat) : Machine × Except Fault Stop :=
  match m.step with
  | (next, .error fault) => (next, .error fault)
  | (next, .ok _) =>
      if next.cpu.halted = false ∧ 0 < budget ∧ next.breakpoints.contains next.cpu.pc = true then
        (next, .ok (.breakpoint next.cpu.pc 1))
      else delayed 1 (next.run budget)

/-- A run does not look for a breakpoint where it starts. -/
theorem run_eq_pastStep {m : Machine} (running : m.cpu.halted = false) {budget : Nat}
    (left : 0 < budget) : m.run budget = m.pastStep (budget - 1) := by
  obtain ⟨rest, rfl⟩ := Nat.exists_eq_add_one_of_ne_zero (Nat.ne_of_gt left)
  rw [run, Nat.add_sub_cancel, runAfter_succ running m.not_stopsHere_zero, pastStep]
  rcases m.step with ⟨next, fault | proceeded⟩
  · rfl
  · simp only [runAfter_eq, stopsHere, Nat.zero_add, Nat.one_pos, true_and]

/-- A run that has used up its budget, followed by another one, against a single run with both
budgets. The single run stops if there is budget on both sides and the machine stands at a
breakpoint in between. In every other case the second run ends as the single run does: in the same
machine and with the same outcome, the steps of both counted together. The second run does not look
at that breakpoint in any case: it takes the step at which the single run may stop, and goes on. -/
theorem run_add_of_stepLimit {m middle : Machine} {first steps : Nat}
    (limited : m.run first = (middle, .ok (.stepLimit steps))) (second : Nat) :
    steps = first ∧
      (m.run (first + second) =
        if 0 < first ∧ 0 < second ∧ middle.breakpoints.contains middle.cpu.pc = true then
          (middle, .ok (.breakpoint middle.cpu.pc first))
        else
          ((middle.run second).1, (middle.run second).2.map (Stop.after first))) ∧
      middle.cpu.halted = false ∧
      (0 < second → middle.run second = middle.pastStep (second - 1)) := by
  obtain ⟨count, running⟩ := runAfter_stepLimit limited
  obtain rfl : steps = first := by omega
  have continued := runAfter_add steps second 0 m
  rw [← run, ← run, limited] at continued
  refine ⟨rfl, ?_, running, run_eq_pastStep running⟩
  rw [continued]
  change runAfter steps second middle = _
  rw [runAfter_eq, running]
  simp only [true_and, stopsHere, delayed]

/-- A machine in blank memory, which is full of instructions that do nothing, with a breakpoint
after the first of them. -/
def idlingToBreakpoint : Machine := Machine.addBreakpoint {} 0x8001

/-- A slice of one step ends at the breakpoint, and the single run stops there. The next slice
executes the instruction at the breakpoint. -/
theorem run_add_at_breakpoint :
    ∃ middle next,
      idlingToBreakpoint.run 1 = (middle, .ok (.stepLimit 1)) ∧
      idlingToBreakpoint.run (1 + 1) = (middle, .ok (.breakpoint 0x8001 1)) ∧
      middle.step = (next, .ok true) ∧
      middle.run 1 = (next, .ok (.stepLimit 1)) := by
  have limited : idlingToBreakpoint.run 1 =
      ((idlingToBreakpoint.run 1).1, .ok (.stepLimit 1)) := rfl
  obtain ⟨_, single, _, onward⟩ := run_add_of_stepLimit limited 1
  refine ⟨_, _, limited, ?_, rfl, ?_⟩
  · rw [single, if_pos (by decide +kernel)]
    rfl
  · rw [onward Nat.one_pos]
    rfl

/-- Two slices of one step each do not end as a single run of two steps does: they pass the
breakpoint at which the single run stops. -/
theorem slices_pass_breakpoint :
    ∃ middle,
      idlingToBreakpoint.run 1 = (middle, .ok (.stepLimit 1)) ∧
      (middle.run 1).2 = .ok (.stepLimit 1) ∧
      (middle.run 1).1.cpu.pc = 0x8002 ∧
      (idlingToBreakpoint.run (1 + 1)).2 = .ok (.breakpoint 0x8001 1) ∧
      (idlingToBreakpoint.run (1 + 1)).1.cpu.pc = 0x8001 := by
  refine ⟨(idlingToBreakpoint.run 1).1, ?_, ?_, ?_, ?_, ?_⟩
  all_goals rfl

end Machine

end I8085
