import ReferenceMonitor.System.Rounds

/-!
# Signals

A traced task stops before a signal is delivered to it, and the tracer decides what becomes of the
signal when it resumes the task: `ptrace` discards it where its last argument is zero, and delivers
the signal that argument names otherwise. `intercept_calls` resumes every stop by one and the same
`ptrace (PTRACE_SYSCALL, tracee, 0, 0)`.

An `Arrival` is a report with the signal that is pending at it, if it is a signal-delivery stop. The
other stops that are no syscall stops, the trap of `execve` and `PTRACE_EVENT_EXIT`, show `SIGTRAP`
to the loop and have nothing pending.
-/

namespace ReferenceMonitor

/-- A signal. -/
abbrev Signal := Fin 128

/-- The signal with which `intercept_calls` resumes a stop. -/
def resumeSignal : ℕ := 0

/-- What is delivered when a stop is resumed with `data`. -/
def resumption (data : ℕ) : Option Signal → List ℕ
  | some _ => if data = 0 then [] else [data]
  | none => []

/-- A report, and the signal pending at it. -/
structure Arrival where
  report : Report
  pending : Option Signal

/-- A pending signal is what the stop shows; a stop with nothing pending is one that `ptrace`
causes. -/
def Arrival.Fits (a : Arrival) : Prop :=
  match a.pending with
  | some sig => (sig : ℕ) ≠ 0 ∧ a.report.stop = .other sig
  | none => ∀ sig, a.report.stop = .other sig → (sig : ℕ) = SIGTRAP

/-- The system, with the signals the tracee has received through its stops, newest first. -/
structure Signalled where
  sys : Sys
  delivered : List ℕ

/-- The steps with their signals: after a round that goes on, the loop resumes the stop. -/
def SignalStep (acts : Actions) (d : Signalled) (a : Arrival) (d' : Signalled) : Prop :=
  a.Fits ∧ Step acts d.sys a.report d'.sys ∧
    d'.delivered =
      (if goesOn (d.sys.round acts a.report) then resumption resumeSignal a.pending else []) ++
        d.delivered

/-- The signals at whose delivery stops the tracee was, in order. -/
def shown (as : List Arrival) : List ℕ := as.filterMap fun a ↦ a.pending.map Fin.val

/-- Every round at a signal-delivery stop goes on: the signal is the loop's to pass on. -/
theorem goesOn_of_pending {acts : Actions} {s : Sys} {a : Arrival} {sig : Signal} (hfits : a.Fits)
    (hpending : a.pending = some sig) : goesOn (s.round acts a.report) = true := by
  rw [Arrival.Fits, hpending] at hfits
  rw [round_other acts s hfits.2]
  rfl

/-- A step delivers nothing. -/
theorem delivered_step {acts : Actions} {d d' : Signalled} {a : Arrival}
    (h : SignalStep acts d a d') : d'.delivered = d.delivered := by
  have hnone : resumption resumeSignal a.pending = [] := by cases a.pending <;> rfl
  rw [h.2.2, hnone, ite_self, List.nil_append]

/-- A run delivers nothing. -/
theorem delivered_run {acts : Actions} {start d : Signalled} {as : List Arrival}
    (hrun : Run (SignalStep acts) start as d) : d.delivered = start.delivered := by
  induction hrun with
  | nil => rfl
  | snoc _ hstep ih => rw [delivered_step hstep, ih]

/-- **Signals are lost.** The tracee has received the signals its delivery stops showed, each once
and in order, exactly in the runs without such a stop. -/
theorem delivered_eq_shown_iff {acts : Actions} {start d : Signalled} {as : List Arrival}
    (hstart : start.delivered = []) (hrun : Run (SignalStep acts) start as d) :
    d.delivered.reverse = shown as ↔ ∀ a ∈ as, a.pending = none := by
  rw [delivered_run hrun, hstart, List.reverse_nil, eq_comm, shown, List.filterMap_eq_nil_iff]
  simp only [Option.map_eq_none_iff]

/-! ### One signal -/

/-- The signal-delivery stop of `SIGALRM`. -/
def alarmArrival : Arrival := ⟨⟨.other 14, ⟨callRegs 0, nullMemory⟩, steadyEnv none⟩, some 14⟩

/-- The stop of the trap of `execve`. -/
def trapArrival : Arrival := ⟨⟨.other 5, ⟨callRegs 0, nullMemory⟩, steadyEnv none⟩, none⟩

/-- The system before the first report. -/
def bootSignalled : Signalled := ⟨bootSys, []⟩

theorem run_trapArrival (acts : Actions) : Run (SignalStep acts) bootSignalled ([] ++ [trapArrival])
    ⟨bootSys.step acts trapArrival.report, []⟩ := by
  refine .snoc .nil ⟨fun sig h ↦ ?_, ⟨rfl, trivial, rfl⟩, ?_⟩
  · cases h
    rfl
  · rw [show resumption resumeSignal trapArrival.pending = [] from rfl, ite_self]
    rfl

theorem delivered_eq_shown_iff_trap :
    ([] : List ℕ).reverse = shown ([] ++ [trapArrival]) ↔
      ∀ a ∈ [] ++ [trapArrival], a.pending = none :=
  delivered_eq_shown_iff rfl (run_trapArrival osActs)

/-- `SIGALRM` does not arrive. -/
theorem not_delivered_eq_shown : ¬ ∀ (acts : Actions) (start d : Signalled) (as : List Arrival),
    Initial start.sys → start.delivered = [] → Run (SignalStep acts) start as d →
      d.delivered.reverse = shown as := by
  intro h
  have hrun : Run (SignalStep osActs) bootSignalled ([] ++ [alarmArrival])
      ⟨bootSys.step osActs alarmArrival.report, []⟩ := by
    refine .snoc .nil ⟨⟨by decide, rfl⟩, ⟨rfl, trivial, rfl⟩, ?_⟩
    rw [show resumption resumeSignal alarmArrival.pending = [] from rfl, ite_self]
    rfl
  exact absurd (h _ _ _ _ initial_bootSys rfl hrun) (by decide)

end ReferenceMonitor
