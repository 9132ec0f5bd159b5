import ReferenceMonitor.System.TableIndices

/-!
# The tasks of the program

The program is a growing tree of tasks. `init_ptrace` starts the first of them, and the loop of
`intercept_calls` waits for that one alone. A task that another one creates is traced only if the
tracer has asked for it with the option for this kind of creation, and `ptraceOptions` has none of
them: whatever such a task calls, the host kernel executes at once.

A state is the monitor with the first task (`Sys`), the tasks created since, and the calls issued so
far. A call of the first task counts as dispatched where the round at its entry stop looks its
action up, and a call of another task where the loop would wait for its stop.
-/

namespace ReferenceMonitor

/-! ### Creating tasks -/

/-- The calls that create a task. -/
inductive Spawn where
  | clone
  | fork
  | vfork
  deriving DecidableEq

namespace Spawn

/-- `__NR_*`. -/
def nr : Spawn → Word
  | clone => 56
  | fork => 57
  | vfork => 58

/-- The option that makes `ptrace` trace the tasks it creates. -/
def option : Spawn → PtraceOption
  | clone => .traceClone
  | fork => .traceFork
  | vfork => .traceVfork

/-- A task created in this way by a traced task is traced. -/
def attached (k : Spawn) : Bool := k.option ∈ ptraceOptions

end Spawn

/-- The task the loop waits for: `waitpid (tracee, &status, 0)`, the first one. -/
def tracee : ℕ := 0

/-- A call, the task that issued it, and whether it was dispatched by the policy. -/
structure Issued where
  task : ℕ
  call : HostCall
  dispatched : Bool

/-- The monitor, and all tasks of the program. Task `0` is the first one, and task `i + 1` the one
created as number `i`. -/
structure Program where
  sys : Sys
  /-- For every other task, in the order of creation: is it traced? -/
  others : List Bool
  /-- The calls issued so far, newest first. -/
  issued : List Issued

/-- The task is traced; the first one always is. -/
def Program.traced (p : Program) : ℕ → Bool
  | 0 => true
  | i + 1 => p.others.getD i false

/-- The round consults the policy. -/
def consults (acts : Actions) (s : Sys) (rep : Report) : Bool :=
  s.world.tableIndices.length < (s.round acts rep).state.tableIndices.length

/-! ### Steps -/

/-- What can happen next. -/
inductive TaskAct where
  /-- A report for the first task. -/
  | report (rep : Report)
  /-- A task creates another one. -/
  | spawn (parent : ℕ) (kind : Spawn)
  /-- A task other than the first one issues a call. -/
  | issue (task : ℕ) (call : HostCall)

/-- The calls of the first task that a report shows. -/
def issuedAt (acts : Actions) (s : Sys) (rep : Report) : List Issued :=
  if rep.stop = .entry then [⟨tracee, rep.tracee.regs.call, consults acts s rep⟩] else []

/-- One step of the program. -/
inductive TaskStep (acts : Actions) : Program → TaskAct → Program → Prop
  | report {p : Program} {rep : Report} {s : Sys} : Step acts p.sys rep s →
      TaskStep acts p (.report rep)
        { p with sys := s, issued := issuedAt acts p.sys rep ++ p.issued }
  | spawn {p : Program} {parent : ℕ} {kind : Spawn} {e : Issued} : e ∈ p.issued →
      e.task = parent → e.call.number = kind.nr →
      TaskStep acts p (.spawn parent kind)
        { p with others := p.others ++ [p.traced parent && kind.attached] }
  | issue {p : Program} {i : ℕ} {call : HostCall} : i < p.others.length →
      TaskStep acts p (.issue (i + 1) call)
        { p with issued := ⟨i + 1, call, p.traced (i + 1) && i + 1 == tracee⟩ :: p.issued }

/-- At the start there is one task, and nothing was issued. -/
structure InitialProgram (p : Program) : Prop where
  sys : Initial p.sys
  others : p.others = []
  issued : p.issued = []

/-! ### Runs -/

/-- No task that `ptrace` attaches by itself: the options are not set. -/
theorem attached_eq_false (k : Spawn) : k.attached = false := by cases k <;> decide

/-- The round at a syscall stop looks the action up. -/
theorem consults_of_isSyscall {acts : Actions} {s : Sys} {rep : Report}
    (hstop : rep.stop.IsSyscall) : consults acts s rep = true := by
  rw [consults, tableIndices_round acts s hstop]
  simp only [List.length_append, List.length_singleton, decide_eq_true_eq]
  omega

/-- What one step adds to the issued calls: dispatched ones by the first task, and others by the
rest. -/
theorem dispatched_step {acts : Actions} {p q : Program} {a : TaskAct} (h : TaskStep acts p a q) :
    ∃ new, q.issued = new ++ p.issued ∧
      ((∀ e ∈ new, e.dispatched = true) ↔ ∀ task call, a ≠ .issue task call) := by
  cases h with
  | report hstep =>
    rename_i rep s
    refine ⟨_, rfl, iff_of_true (fun e he ↦ ?_) fun task call ↦ by simp⟩
    rw [issuedAt] at he
    split_ifs at he with hentry
    · rw [List.mem_singleton.1 he]
      exact consults_of_isSyscall (.inl hentry)
    · exact absurd he List.not_mem_nil
  | spawn _ _ _ =>
    exact ⟨[], rfl, iff_of_true (fun e he ↦ absurd he List.not_mem_nil) fun task call ↦ by simp⟩
  | issue hi =>
    rename_i i call
    refine ⟨[_], rfl, iff_of_false (fun hall ↦ ?_) fun hnone ↦ hnone (i + 1) call rfl⟩
    have hd := hall _ (List.mem_singleton_self _)
    simp [tracee] at hd

/-- **Only the first task is monitored.** Every call issued in a run was dispatched by the policy
exactly where no other task has issued one. -/
theorem dispatched_iff {acts : Actions} {start p : Program} {as : List TaskAct}
    (hstart : InitialProgram start) (hrun : Run (TaskStep acts) start as p) :
    (∀ e ∈ p.issued, e.dispatched = true) ↔ ∀ a ∈ as, ∀ task call, a ≠ .issue task call := by
  induction hrun with
  | nil => simp [hstart.issued]
  | snoc _ hstep ih =>
    obtain ⟨new, hnew, hdispatched⟩ := dispatched_step hstep
    simp only [hnew, List.mem_append, or_imp, forall_and, ih, hdispatched, List.mem_singleton,
      forall_eq]
    exact and_comm

/-- Without a task of its own the program has no calls but those of the first task. -/
theorem others_run {acts : Actions} {start p : Program} {as : List TaskAct}
    (hstart : InitialProgram start) (hrun : Run (TaskStep acts) start as p)
    (hspawn : ∀ a ∈ as, ∀ parent kind, a ≠ .spawn parent kind) :
    p.others = [] ∧ ∀ a ∈ as, ∀ task call, a ≠ .issue task call := by
  induction hrun with
  | nil => exact ⟨hstart.others, fun a ha ↦ absurd ha List.not_mem_nil⟩
  | snoc hrun hstep ih =>
    rename_i as p q a
    obtain ⟨hothers, hnone⟩ := ih fun a ha ↦ hspawn a (List.mem_append_left _ ha)
    have hlast := hspawn a (List.mem_append_right _ (List.mem_singleton_self a))
    cases hstep with
    | report _ =>
      refine ⟨hothers, fun a ha ↦ ?_⟩
      rcases List.mem_append.1 ha with hbefore | heq
      · exact hnone a hbefore
      · rw [List.mem_singleton.1 heq]
        simp
    | spawn _ _ _ => exact absurd rfl (hlast _ _)
    | issue hi =>
      rw [hothers] at hi
      exact absurd hi (Nat.not_lt_zero _)

/-! ### A thread -/

/-- The program before its first report. -/
def bootProgram : Program := ⟨bootSys, [], []⟩

theorem initialProgram_bootProgram : InitialProgram bootProgram := ⟨initial_bootSys, rfl, rfl⟩

/-- The entry stop of `clone`. -/
def cloneEntry : Report := ⟨.entry, ⟨callRegs 56, nullMemory⟩, steadyEnv none⟩

/-- The program after its first task has called `clone`. -/
def clonedProgram : Program :=
  ⟨bootSys.step osActs cloneEntry, [], issuedAt osActs bootSys cloneEntry⟩

theorem run_cloneEntry :
    Run (TaskStep osActs) bootProgram ([] ++ [.report cloneEntry]) clonedProgram :=
  .snoc .nil (.report ⟨rfl, trivial, rfl⟩)

theorem dispatched_iff_clone : (∀ e ∈ clonedProgram.issued, e.dispatched = true) ↔
    ∀ a ∈ [] ++ [TaskAct.report cloneEntry], ∀ task call, a ≠ .issue task call :=
  dispatched_iff initialProgram_bootProgram run_cloneEntry

/-- The system once the thread runs. -/
def threadProgram : Program :=
  { clonedProgram with others := [clonedProgram.traced 0 && Spawn.clone.attached] }

/-- A thread that calls `unlink`, under a policy that leaves `clone` to the host. -/
theorem not_dispatched : ¬ ∀ (acts : Actions) (start p : Program) (as : List TaskAct),
    InitialProgram start → Run (TaskStep acts) start as p →
      ∀ e ∈ p.issued, e.dispatched = true := by
  intro h
  have hspawn : TaskStep osActs clonedProgram (.spawn 0 .clone) threadProgram :=
    .spawn (List.mem_singleton_self _) rfl rfl
  have hissue : TaskStep osActs threadProgram (.issue 1 (callRegs 87).call) _ :=
    .issue (show 0 < 1 by decide)
  have hrun := (run_cloneEntry.snoc hspawn).snoc hissue
  have hd := h osActs bootProgram _ _ initialProgram_bootProgram hrun _ List.mem_cons_self
  simp [tracee] at hd

end ReferenceMonitor
