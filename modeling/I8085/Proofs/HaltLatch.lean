/-
Module: I8085.Proofs.HaltLatch
Layer: Proofs
Purpose: A halted machine stays halted until it is reset. No edit of a register, of memory or of the
  breakpoints wakes it, and no step or run does anything to it, whatever stands at the program
  counter and whatever the budget is. And only one thing halts a machine: a step, be it asked for
  alone or made by a run, that finds the opcode 0x76 (`Machine.halts_for_good`).
Imports: I8085.Machine.Request, I8085.Proofs.RunIteration
Main exports: Machine.HaltsBy, Machine.HaltsForGood, Machine.halted_completed,
  Machine.opcode_of_halted_step, Machine.halted_serve, Machine.haltsBy_of_halted_serve,
  Machine.halted_serveAll, Machine.halts_for_good
-/
import I8085.Machine.Request
import I8085.Proofs.RunIteration

namespace I8085.Machine

variable {m : Machine}

/-- Whether a request on a running machine comes to a step that finds the opcode 0x76. A run has
made the steps before it without halting, and ends with this one. -/
def HaltsBy (m : Machine) : Request → Prop
  | .command .step => m.nextOpcode = 0x76
  | .command (.run budget) =>
      ∃ steps, steps < budget ∧
        (∀ earlier, earlier ≤ steps → (m.after earlier).cpu.halted = false) ∧
        (m.after steps).nextOpcode = 0x76 ∧
        (m.run budget).1 = m.after (steps + 1)
  | _ => False

/-- What it is for requests on a machine to leave its halt latch to the halting instruction. -/
structure HaltsForGood (m : Machine) (requests : List Request) : Prop where
  stays : ∀ before between after, requests = before ++ between ++ after →
    (m.serveAll before).cpu.halted = true →
    (m.serveAll (before ++ between)).cpu.halted = true
  /-- Nothing comes of a step or a run in between. -/
  idles : ∀ before between after, requests = before ++ between ++ after →
    (m.serveAll before).cpu.halted = true →
    (m.serveAll (before ++ between)).perform .step =
        (m.serveAll (before ++ between), .stepped (.ok false)) ∧
      ∀ budget, (m.serveAll (before ++ between)).perform (.run budget) =
        (m.serveAll (before ++ between), .ran (.ok (.halted 0)))
  caused : ∀ before request after, requests = before ++ request :: after →
    (m.serveAll before).cpu.halted = false →
    (m.serveAll (before ++ [request])).cpu.halted = true →
    (m.serveAll before).HaltsBy request

/-! ### Instructions and steps -/

theorem halted_set (m : Machine) (register : Register) (value : Byte) :
    (m.set register value).cpu.halted = m.cpu.halted := by
  cases register <;> rfl

theorem halted_setPair (m : Machine) (pair : RegisterPair) (value : Word) :
    (m.setPair pair value).cpu.halted = m.cpu.halted := by
  cases pair <;> rfl

/-- No instruction but the halting one sets the latch. -/
theorem halted_completed (m : Machine) {instruction : Instruction} (apart : instruction ≠ .hlt) :
    (m.completed instruction).cpu.halted = m.cpu.halted := by
  cases instruction
  case hlt => exact absurd rfl apart
  case mov target source => exact halted_set m target _
  case mvi target value => exact halted_set m target value
  case inr target => exact halted_set m target _
  case dcr target => exact halted_set m target _
  case lxi target value => exact halted_setPair m target value
  case inx target => exact halted_setPair m target _
  case dcx target => exact halted_setPair m target _
  case pop target => exact halted_setPair _ target _
  case jump condition target =>
    rw [completed]
    split <;> rfl
  case call condition target =>
    rw [completed]
    split <;> rfl
  case ret condition =>
    rw [completed]
    split <;> rfl
  all_goals rfl

/-- The halting instruction has one opcode. -/
theorem opcode_of_cell_hlt {opcode : Byte}
    (cell : Opcode.cell? opcode = some Instruction.hlt.entry) : opcode = 0x76 := by
  have each : ∀ code : Fin 256,
      Opcode.cell? (UInt8.ofNat code) = some Instruction.hlt.entry → UInt8.ofNat code = 0x76 := by
    decide +kernel
  simpa using each opcode.toFin (by simpa using cell)

/-- A step that halts a running machine finds the opcode 0x76. -/
theorem opcode_of_halted_step (running : m.cpu.halted = false)
    (halted : m.step.1.cpu.halted = true) : m.nextOpcode = 0x76 := by
  rcases m.step_cases with ⟨before, _⟩ | ⟨_, address, fault, step⟩ | ⟨_, instruction, cell, _, step⟩
  · rw [running] at before
    cases before
  · rw [step] at halted
    exact absurd (running.symm.trans halted) Bool.false_ne_true
  · by_cases halts : instruction = .hlt
    · rw [halts] at cell
      exact opcode_of_cell_hlt cell
    · rw [step, halted_completed _ halts] at halted
      exact absurd (running.symm.trans halted) Bool.false_ne_true

/-- A step that fails does not halt the machine. -/
theorem halted_of_failed_step {next : Machine} {fault : Fault} (running : m.cpu.halted = false)
    (failed : m.step = (next, .error fault)) : next.cpu.halted = false := by
  rcases m.step_cases with ⟨_, step⟩ | ⟨_, address, _, step⟩ | ⟨_, _, _, _, step⟩
  · rw [step] at failed
    cases failed
  · rw [step] at failed
    obtain rfl := (Prod.mk.inj failed).1
    exact running
  · rw [step] at failed
    cases failed

/-- A run that halts a running machine does so with its last step. -/
theorem haltsBy_of_halted_run {budget : Nat} (running : m.cpu.halted = false)
    (halted : (m.run budget).1.cpu.halted = true) : m.HaltsBy (.command (.run budget)) := by
  obtain ⟨taken, iterates⟩ := m.exists_iterates budget
  have most := le_of_not_endsAfter iterates.goes_on
  have ending := iterates.ending
  rcases ran : m.run budget with ⟨last, result⟩
  rw [ran] at halted ending
  cases ending with
  | halted now =>
    -- The run has made a step, since the machine was running when it began.
    rcases taken with _ | steps
    · exact absurd (running.symm.trans now) Bool.false_ne_true
    · have before : ∀ earlier, earlier ≤ steps → (m.after earlier).cpu.halted = false := by
        intro earlier less
        apply Bool.eq_false_iff.2
        intro already
        exact iterates.goes_on earlier (Nat.lt_succ_of_le less) (.inl already)
      refine ⟨steps, most, before, ?_, congrArg Prod.fst ran⟩
      exact opcode_of_halted_step (before steps (Nat.le_refl steps)) now
  | stepLimit now => exact absurd (now.symm.trans halted) Bool.false_ne_true
  | breakpoint now => exact absurd (now.symm.trans halted) Bool.false_ne_true
  | fault now _ _ failed =>
    exact absurd ((halted_of_failed_step now failed).symm.trans halted) Bool.false_ne_true

/-! ### Requests -/

theorem halted_edit (m : Machine) (change : Cpu.Edit) :
    (m.edit change).cpu.halted = m.cpu.halted := by
  cases change <;> rfl

/-- A change of memory leaves the processor alone. -/
theorem cpu_perform_edit (m : Machine) (change : Memory.Edit) :
    (m.perform (.edit change)).1.cpu = m.cpu := by
  rw [perform]
  split <;> rfl

theorem perform_step_of_halted (halted : m.cpu.halted = true) :
    m.perform .step = (m, .stepped (.ok false)) := by
  rw [perform, step_of_halted halted]

theorem perform_run_of_halted (halted : m.cpu.halted = true) (budget : Nat) :
    m.perform (.run budget) = (m, .ran (.ok (.halted 0))) := by
  rw [perform, run, runAfter_of_halted halted]

/-- No request but a reset wakes a halted machine. -/
theorem halted_serve {request : Request} (apart : request ≠ .reset)
    (halted : m.cpu.halted = true) : (m.serve request).cpu.halted = true := by
  cases request with
  | command command =>
    cases command with
    | edit change => rw [serve, cpu_perform_edit, halted]
    | step => rw [serve, perform_step_of_halted halted, halted]
    | run budget => rw [serve, perform_run_of_halted halted budget, halted]
  | edit change => rw [serve, halted_edit, halted]
  | reset => exact absurd rfl apart
  | clearMemory | exchangeMemory | observe | unobserve | addBreakpoint | removeBreakpoint
    | clearBreakpoints => exact halted

/-- A request that halts a running machine is a step or a run, and finds the opcode 0x76. -/
theorem haltsBy_of_halted_serve {request : Request} (running : m.cpu.halted = false)
    (halted : (m.serve request).cpu.halted = true) : m.HaltsBy request := by
  cases request with
  | command command =>
    cases command with
    | edit change =>
      rw [serve, cpu_perform_edit] at halted
      exact absurd (running.symm.trans halted) Bool.false_ne_true
    | step => exact opcode_of_halted_step running halted
    | run budget => exact haltsBy_of_halted_run running halted
  | edit change =>
    rw [serve, halted_edit] at halted
    exact absurd (running.symm.trans halted) Bool.false_ne_true
  | clearMemory | exchangeMemory | observe | unobserve | addBreakpoint | removeBreakpoint
    | clearBreakpoints => exact absurd (running.symm.trans halted) Bool.false_ne_true
  | reset => cases halted

theorem serveAll_append (m : Machine) (before after : List Request) :
    m.serveAll (before ++ after) = (m.serveAll before).serveAll after :=
  List.foldl_append ..

/-- A halted machine stays halted along requests none of which is a reset. -/
theorem halted_serveAll {requests : List Request}
    (apart : ∀ request ∈ requests, request ≠ .reset) (halted : m.cpu.halted = true) :
    (m.serveAll requests).cpu.halted = true := by
  induction requests generalizing m with
  | nil => exact halted
  | cons request rest ih =>
    rw [List.forall_mem_cons] at apart
    exact ih apart.2 (halted_serve apart.1 halted)

/-- Whatever is done to a machine short of a reset, once it is halted it stays so, and steps and runs
leave it exactly as it is. It was halted by a step that found the opcode 0x76. -/
theorem halts_for_good (m : Machine) {requests : List Request}
    (apart : ∀ request ∈ requests, request ≠ .reset) : m.HaltsForGood requests := by
  have stays : ∀ before between after, requests = before ++ between ++ after →
      (m.serveAll before).cpu.halted = true →
      (m.serveAll (before ++ between)).cpu.halted = true := by
    rintro before between after rfl halted
    rw [serveAll_append]
    apply halted_serveAll _ halted
    intro request member
    exact apart request (by simp [member])
  constructor
  case stays => exact stays
  case idles =>
    intro before between after split halted
    have still := stays before between after split halted
    exact ⟨perform_step_of_halted still, perform_run_of_halted still⟩
  case caused =>
    intro before request after _ running halted
    rw [serveAll_append] at halted
    exact haltsBy_of_halted_serve running halted

/-- A machine that is about to halt. -/
def aboutToHalt : Machine where
  memory := Memory.blank.write 0x8000 0x76

/-- After the halt the program counter is set back and the instruction there overwritten. -/
def wakingAttempts : List Request :=
  [.edit (.pc 0x8000), .command (.edit (.write 0x8000 0x00)), .edit (.flags {}),
    .removeBreakpoint 0x8000, .clearMemory]

def runThenWake : List Request := [.command (.run 5)] ++ wakingAttempts

/-- The machine halts at once, and none of the attempts wakes it. -/
theorem halts_for_good_attempts :
    (∀ request ∈ runThenWake, request ≠ .reset) ∧
      aboutToHalt.HaltsBy (.command (.run 5)) ∧
      (aboutToHalt.serveAll runThenWake).cpu.halted = true ∧
      (aboutToHalt.serveAll runThenWake).perform (.run 9) =
        (aboutToHalt.serveAll runThenWake, .ran (.ok (.halted 0))) := by
  have apart : ∀ request ∈ runThenWake, request ≠ .reset := by
    simp [runThenWake, wakingAttempts]
  have halts := halts_for_good aboutToHalt apart
  have halted : (aboutToHalt.serveAll [.command (.run 5)]).cpu.halted = true := by
    decide +kernel
  have whole : runThenWake = [.command (.run 5)] ++ wakingAttempts ++ [] :=
    (List.append_nil _).symm
  exact ⟨apart, halts.caused [] (.command (.run 5)) wakingAttempts rfl rfl halted,
    halts.stays [.command (.run 5)] wakingAttempts [] whole halted,
    (halts.idles [.command (.run 5)] wakingAttempts [] whole halted).2 9⟩

end I8085.Machine
