import ReferenceMonitor.System.Denial

/-!
# Emulated calls and the host kernel

At the entry stop of an emulated call the monitor changes nothing, so the host kernel executes the
call as the tracee made it, and Lind does so again at the exit stop. The handlers of `open` and its
kind rely on this, to enter the descriptor of the host beside that of Lind. Over a whole run the
host kernel has executed an emulated call as often as the tracee has entered it (`count_executed`).
-/

namespace ReferenceMonitor

open Halting

/-- The calls that return a new descriptor. -/
def LindCall.OpensDescriptor : LindCall → Bool
  | .open | openat | dup | dup2 | dup3 | epoll_create | epoll_create1 | socket | accept
  | socketpair => true
  | _ => false

/-- The policy emulates the call, and the call creates no descriptor. -/
def EmulatedOnly (acts : Actions) (n : Word) : Prop :=
  choice acts n = .lind ∧ ∀ c, LindCall.ofNr (cInt n) = some c → c.OpensDescriptor = false

/-- The report is an entry stop at which the tracee makes this call. -/
def Enters (call : HostCall) (rep : Report) : Prop :=
  rep.stop = .entry ∧ rep.tracee.regs.call = call

instance (call : HostCall) (rep : Report) : Decidable (Enters call rep) :=
  inferInstanceAs (Decidable (_ ∧ _))

/-- One step: an entry stop of an emulated call adds it to what the host kernel has executed, and no
other step does. -/
theorem count_executed_step {acts : Actions} {start s t : Sys} {reps : List Report} {rep : Report}
    (hstart : Initial start) (hrun : Run (Step acts) start reps s) (hstep : Step acts s rep t)
    {call : HostCall} (hlind : choice acts call.number = .lind) :
    t.executed.count call = s.executed.count call + if Enters call rep then 1 else 0 := by
  by_cases hentry : rep.stop = .entry
  · have hflag := entering_of_run hstart hrun hstep hentry
    obtain ⟨-, -, rfl⟩ := hstep
    rw [(step_entry acts s hentry).2, round_entry_call (.inl hentry) hflag, List.count_cons]
    -- only a call left to the host is executed with another `r8` than it was entered with
    by_cases hnum : rep.tracee.regs.orig_rax = call.number
    · rw [entryR8_of_lind (by rw [hnum, hlind])]
      simp [Enters, hentry]
    · have hne (v : Word) : ¬ { rep.tracee.regs with r8 := v }.call = call :=
        fun h ↦ hnum (by rw [← h]; rfl)
      have hne' : ¬ Enters call rep := fun h ↦ hnum (by rw [← h.2]; rfl)
      simp [hne, hne']
  · have hkeep : t.executed = s.executed := by
      rw [hstep.2.2]
      by_cases hexit : rep.stop = .exit
      · exact (step_exit acts s hexit).2
      · exact (step_other acts s hentry hexit).2
    rw [hkeep, if_neg fun h ↦ hentry h.1, Nat.add_zero]

/-- **Emulated calls are executed by the host too**: over a run, the host kernel executes such a
call exactly as often as the tracee enters it. -/
theorem count_executed {acts : Actions} {start s : Sys} {reps : List Report}
    (hstart : Initial start)
    (hrun : Run (Step acts) start reps s) {call : HostCall}
    (hcall : EmulatedOnly acts call.number) :
    s.executed.count call = reps.countP fun rep ↦ Enters call rep := by
  induction hrun with
  | nil => simp [hstart.executed]
  | snoc hrun hstep ih =>
    rw [count_executed_step hstart hrun hstep hcall.1, ih, List.countP_append,
      List.countP_singleton]
    simp only [decide_eq_true_eq]

/-- `unlink` under a policy that emulates everything. -/
def unlinkActs : Actions := fun _ ↦ ALLOW_LIND

theorem emulatedOnly_unlink : EmulatedOnly unlinkActs (callRegs 87).call.number := by
  refine ⟨by decide, fun c hc ↦ ?_⟩
  have hu : LindCall.ofNr (cInt (callRegs 87).call.number) = some .unlink := by decide
  rw [hu] at hc
  cases hc
  rfl

theorem run_unlinkEntry (acts : Actions) :
    Run (Step acts) bootSys ([] ++ [unlinkEntry]) (bootSys.step acts unlinkEntry) :=
  .snoc .nil (step_unlinkEntry acts)

theorem count_executed_unlink :
    (bootSys.step unlinkActs unlinkEntry).executed.count (callRegs 87).call =
      ([] ++ [unlinkEntry]).countP fun rep ↦ Enters (callRegs 87).call rep :=
  count_executed initial_bootSys (run_unlinkEntry unlinkActs) emulatedOnly_unlink

/-- The host kernel executes an emulated `unlink`. -/
theorem not_emulated_only : ¬ ∀ (acts : Actions) (start s : Sys) (reps : List Report),
    Initial start → Run (Step acts) start reps s → ∀ call : HostCall,
      EmulatedOnly acts call.number → call ∉ s.executed := fun h ↦
  h unlinkActs bootSys _ _ initial_bootSys (run_unlinkEntry unlinkActs) (callRegs 87).call
    emulatedOnly_unlink (by decide)

end ReferenceMonitor
