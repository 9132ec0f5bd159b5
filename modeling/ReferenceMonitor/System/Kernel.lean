import ReferenceMonitor.Library.Runs
import ReferenceMonitor.Monitor.Intercept

/-!
# The monitor, its tracee and the host kernel

A state of the system is the monitor's world, whether the tracee is in user code or in a system
call, the calls the host kernel has executed, and whether the monitor is still running. A step is
one report of `waitpid`, with the tracee as it is at that stop: the monitor handles it
(`interceptStop`), and the tracee is resumed, by `ptrace` or because the monitor has ended.

Of the kernel it is assumed that

* a tracee resumed from a syscall-entry stop executes the call in `orig_rax`, with the arguments in
  its registers;
* syscall-entry and syscall-exit stops alternate, with any number of other stops between them, and
  an exit stop shows the `orig_rax` of its entry stop;
* `exit` and `exit_group` do not return;
* a tracee whose tracer ends is resumed from where it stopped, unless `PTRACE_O_EXITKILL` was set.
-/

namespace ReferenceMonitor

/-! ### Options and stops -/

/-- Options of `PTRACE_SETOPTIONS`. -/
inductive PtraceOption where
  | traceSysGood
  | traceExit
  | exitKill
  | traceClone
  | traceFork
  | traceVfork
  deriving DecidableEq

/-- The options `intercept_calls` sets. -/
def ptraceOptions : List PtraceOption := [.traceSysGood, .traceExit]

/-- The signal a syscall stop shows. -/
def syscallTrap : ℕ := if .traceSysGood ∈ ptraceOptions then SIGTRAP ||| 0x80 else SIGTRAP

/-- The kinds of reports. -/
inductive Stop where
  /-- A syscall-entry stop. -/
  | entry
  /-- A syscall-exit stop. -/
  | exit
  /-- Any other stop: a signal, the trap of `execve`, `PTRACE_EVENT_EXIT`. -/
  | other (sig : Fin 128)
  /-- The tracee has exited. -/
  | exited
  /-- The tracee was killed by a signal. -/
  | killed (status : ℤ)
  deriving DecidableEq

/-- The status `waitpid` stores. -/
def Stop.status : Stop → WaitStatus
  | entry => .stopped syscallTrap
  | exit => .stopped syscallTrap
  | other sig => .stopped sig
  | exited => .exited
  | killed status => .terminated status

/-- A report: its kind, the tracee at the stop, and the environment in which it is handled. -/
structure Report where
  stop : Stop
  tracee : Tracee
  env : Env

/-! ### The system -/

/-- A system call as the host kernel executes it. -/
structure HostCall where
  number : Word
  args : List Word
  deriving DecidableEq

/-- The call in the registers of a tracee. -/
def UserRegs.call (r : UserRegs) : HostCall :=
  ⟨r.orig_rax, [r.rdi, r.rsi, r.rdx, r.r10, r.r8, r.r9]⟩

/-- Where the tracee is. -/
inductive Phase where
  /-- In user code. -/
  | user
  /-- In a system call, which it entered with these registers. -/
  | kernel (regs : UserRegs)

/-- A state of the whole system. -/
structure Sys where
  world : World
  phase : Phase
  /-- The calls the host kernel was made to execute, newest first. -/
  executed : List HostCall
  /-- The monitor is running. -/
  alive : Bool

/-- At the start the flag says that an entry stop comes next, and nothing has happened. -/
structure Initial (s : Sys) : Prop where
  alive : s.alive = true
  phase : s.phase = .user
  executed : s.executed = []
  entering : s.world.entering = true
  requests : s.world.requests = []
  mappings : s.world.mappings = []
  trace : s.world.trace = []

/-- Did the loop of `intercept_calls` go on? -/
def goesOn : Outcome Halt World Bool → Bool
  | .done b _ => b
  | .halt _ _ => false

/-- The monitor's round on a report. -/
def Sys.round (acts : Actions) (s : Sys) (rep : Report) : Outcome Halt World Bool :=
  interceptStop acts rep.stop.status rep.env { s.world with tracee := rep.tracee }

/-- The tracee is resumed from the stop, with the registers the monitor left it. -/
def Sys.resume (s : Sys) (stop : Stop) : Sys :=
  match stop with
  | .entry =>
    { s with
      executed := s.world.tracee.regs.call :: s.executed
      phase := .kernel s.world.tracee.regs }
  | .exit => { s with phase := .user }
  | _ => s

/-- One step: the monitor's round, and what becomes of the tracee after it. -/
def Sys.step (acts : Actions) (s : Sys) (rep : Report) : Sys :=
  let o := s.round acts rep
  let t := { s with world := o.state, alive := goesOn o }
  if t.alive ∨ .exitKill ∉ ptraceOptions then t.resume rep.stop else t

@[simp] theorem resume_world (s : Sys) (stop : Stop) : (s.resume stop).world = s.world := by
  cases stop <;> rfl

@[simp] theorem resume_alive (s : Sys) (stop : Stop) : (s.resume stop).alive = s.alive := by
  cases stop <;> rfl

/-- The tracee is resumed after every round: the monitor does not ask for it to be killed. -/
theorem step_eq (acts : Actions) (s : Sys) (rep : Report) :
    s.step acts rep =
      { s with
        world := (s.round acts rep).state
        alive := goesOn (s.round acts rep) : Sys }.resume rep.stop :=
  if_pos (.inr (by decide))

theorem step_world (acts : Actions) (s : Sys) (rep : Report) :
    (s.step acts rep).world = (s.round acts rep).state := by
  rw [step_eq, resume_world]

theorem step_alive (acts : Actions) (s : Sys) (rep : Report) :
    (s.step acts rep).alive = goesOn (s.round acts rep) := by
  rw [step_eq, resume_alive]

/-- A call is executed when its entry stop is left, with what the round left in the registers. -/
theorem step_entry (acts : Actions) (s : Sys) {rep : Report} (h : rep.stop = .entry) :
    (s.step acts rep).phase = .kernel (s.round acts rep).state.tracee.regs ∧
      (s.step acts rep).executed =
        (s.round acts rep).state.tracee.regs.call :: s.executed := by
  rw [step_eq, h]
  exact ⟨rfl, rfl⟩

theorem step_exit (acts : Actions) (s : Sys) {rep : Report} (h : rep.stop = .exit) :
    (s.step acts rep).phase = .user ∧ (s.step acts rep).executed = s.executed := by
  rw [step_eq, h]
  exact ⟨rfl, rfl⟩

theorem step_other (acts : Actions) (s : Sys) {rep : Report} (h : rep.stop ≠ .entry)
    (h' : rep.stop ≠ .exit) :
    (s.step acts rep).phase = s.phase ∧ (s.step acts rep).executed = s.executed := by
  rw [step_eq]
  cases hs : rep.stop with
  | entry => exact absurd hs h
  | exit => exact absurd hs h'
  | other sig => exact ⟨rfl, rfl⟩
  | exited => exact ⟨rfl, rfl⟩
  | killed status => exact ⟨rfl, rfl⟩

/-- The numbers of the calls that do not return. -/
def NeverReturns (n : Word) : Prop := n = 60 ∨ n = 231

instance (n : Word) : Decidable (NeverReturns n) := inferInstanceAs (Decidable (_ ∨ _))

/-- The reports a state allows. -/
def Legal (s : Sys) (rep : Report) : Prop :=
  match rep.stop, s.phase with
  | .entry, .user => True
  | .exit, .kernel r => rep.tracee.regs.orig_rax = r.orig_rax ∧ ¬ NeverReturns r.orig_rax
  | .other _, _ => True
  | .exited, _ => True
  | .killed _, _ => True
  | _, _ => False

theorem phase_of_legal_entry {s : Sys} {rep : Report} (h : Legal s rep) (hs : rep.stop = .entry) :
    s.phase = .user := by
  rw [Legal, hs] at h
  cases hp : s.phase with
  | user => rfl
  | kernel r =>
    rw [hp] at h
    exact h.elim

theorem phase_of_legal_exit {s : Sys} {rep : Report} (h : Legal s rep) (hs : rep.stop = .exit) :
    ∃ r, s.phase = .kernel r ∧ rep.tracee.regs.orig_rax = r.orig_rax ∧
      ¬ NeverReturns r.orig_rax := by
  rw [Legal, hs] at h
  cases hp : s.phase with
  | user =>
    rw [hp] at h
    exact h.elim
  | kernel r =>
    rw [hp] at h
    exact ⟨r, rfl, h⟩

/-- The steps of the system under a policy. -/
def Step (acts : Actions) (s : Sys) (rep : Report) (t : Sys) : Prop :=
  s.alive ∧ Legal s rep ∧ t = s.step acts rep

/-! ### A small system

The inputs on which the results of this development are instantiated. -/

/-- An environment in which Lind gives one answer to everything, the Repy table is what
`map_native_to_lind` made of it, and the monitor has nothing mapped but its own objects. -/
def steadyEnv (answer : Option Response) : Env where
  heap _ _ := 0
  around _ _ := 0
  aroundString _ := []
  heapAddr n := BitVec.ofNat 64 (4096 * (n + 1))
  own _ := none
  ownString _ := none
  vararg := 0
  lind _ := answer
  tail _ := 0
  lookup table fd :=
    match table.find? fun m ↦ m.2 = fd with
    | some m => some (.int m.1)
    | none => some .none

/-- The policy that leaves everything to the host. -/
def osActs : Actions := fun _ ↦ ALLOW_OS

/-- Registers that are zero but for the number of the call. -/
def callRegs (n : Word) : UserRegs := ⟨n, 0, 0, 0, 0, 0, 0, 0, []⟩

/-- A memory with nothing in it. -/
def nullMemory : ByteMemory := ⟨fun _ ↦ none, fun _ ↦ false⟩

/-- The system before the first report. -/
def bootSys : Sys where
  world := {
    regs := argsOf (callRegs 0)
    entering := true
    tracee := ⟨callRegs 0, nullMemory⟩
    requests := []
    mappings := []
    errno := 0
    trace := [] }
  phase := .user
  executed := []
  alive := true

theorem initial_bootSys : Initial bootSys := ⟨rfl, rfl, rfl, rfl, rfl, rfl, rfl⟩

end ReferenceMonitor
