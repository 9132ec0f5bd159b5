import ReferenceMonitor.Monitor.Conversation
import ReferenceMonitor.Monitor.HostCalls
import ReferenceMonitor.System.Leaving

/-!
# The conversation with Lind over a run

Only the exit stops of emulated calls are heard by Lind, and each of them sends what the protocol
has for the call and the registers at that stop. So the requests of a whole run, of any number of
calls and with other stops between them, are those of its exit stops one after the other
(`conversation_run`); where the monitor ends in the middle of a call, the conversation breaks off
there.
-/

namespace ReferenceMonitor

open Halting

/-- The requests Lind may expect of the monitor's round on a report. -/
def Report.forms (acts : Actions) (rep : Report) : List Form :=
  if rep.stop = .exit ∧ choice acts rep.tracee.regs.orig_rax = .lind then
    match LindCall.ofNr (cInt rep.tracee.regs.orig_rax) with
    | some c => c.forms (argsOf rep.tracee.regs)
    | none => []
  else []

section Round

variable {acts : Actions} {s t : Sys} {rep : Report}

theorem tolerates_asking : Tolerates (SameLog World.requests) where
  branch _ _ := keeps_modify fun _ ↦ rfl
  read _ := asksNothing_fetch _
  setEntering _ := keeps_modify fun _ ↦ rfl
  setRetval _ := keeps_modify fun _ ↦ rfl
  setArgs := keeps_modify fun _ ↦ rfl

/-- The handlers of calls that are not emulated ask nothing. -/
theorem asksNothing_handler {ch : Choice} (h : ch ≠ .lind) (n : Word) :
    AsksNothing (ch.handler n) := by
  have hname (i : ℤ) : AsksNothing (record (.namesAt i)) := keeps_modify fun _ ↦ rfl
  cases ch with
  | deny => exact tolerates_asking.monitorDeny hname
  | os =>
    exact tolerates_asking.osHandlerOf hname fun _ ↦ tolerates_asking.monitorMmap fun _ _ ↦ rfl
  | lind => exact absurd rfl h
  | nothing => exact keeps_pure _

/-- Everything but the exit stop of an emulated call goes unheard. -/
theorem requests_round_of_unheard (hflag : FlagFits acts s) (hlegal : Legal s rep)
    (h : ¬ (rep.stop = .exit ∧ choice acts rep.tracee.regs.orig_rax = .lind)) :
    (s.round acts rep).state.requests = s.world.requests := by
  by_cases hentry : rep.stop = .entry
  · exact (round_at_entry acts (.inl hentry) (entering_at_entry hflag hlegal hentry)).1
  by_cases hexit : rep.stop = .exit
  · rw [state_round_syscall acts s (.inr hexit)]
    exact asksNothing_handler (fun hlind ↦ h ⟨hexit, hlind⟩) _ rep.env (s.world.atStop rep.tracee)
  · have hstop : ¬ rep.stop.IsSyscall := not_or.2 ⟨hentry, hexit⟩
    obtain ⟨regs, hstate⟩ := state_round_of_not_syscall acts s hstop
    rw [hstate]

/-- The emulation a round runs says what its report lets Lind expect. -/
theorem sends_emulationOf (h : LeavesEmulated acts s rep) :
    Sends (rep.forms acts)
      (emulationOf (cInt rep.tracee.regs.orig_rax) (argsOf rep.tracee.regs)) := by
  rw [Report.forms, if_pos ⟨h.exit, h.lind⟩]
  cases hc : LindCall.ofNr (cInt rep.tracee.regs.orig_rax) with
  | some c =>
    rw [emulationOf_of_ofNr hc]
    exact sends_emulation _ c
  | none =>
    have hname (i : ℤ) : AsksNothing (record (.namesAt i)) := keeps_modify fun _ ↦ rfl
    rw [emulationOf, hc]
    exact ((hname _).bind fun _ ↦ keeps_pure _).writes

/-- The monitor goes on after such a round exactly where the emulation returned. -/
theorem requests_round_of_leaving (h : LeavesEmulated acts s rep) :
    (s.round acts rep).state.requests = (s.emulate rep).state.requests ∧
      (goesOn (s.round acts rep) = true ↔ (s.emulate rep).Returns) := by
  cases he : s.emulate rep with
  | done res u =>
    have hround := round_of_done h he
    exact ⟨hround.2.2.1, iff_of_true hround.1 trivial⟩
  | halt e u =>
    have hround := round_of_halt h he
    refine ⟨hround.2.2, iff_of_false ?_ id⟩
    rw [hround.1]
    decide

/-- What one step adds to the conversation. -/
theorem conversation_step (hflag : FlagFits acts s) (hstep : Step acts s rep t)
    (hleave : rep.stop = .exit → choice acts rep.tracee.regs.orig_rax = .lind →
      LeavesEmulated acts s rep) :
    ∃ entries, t.world.requests = entries.reverse ++ s.world.requests ∧
      WorksOff Form.Admits (t.alive = true) (rep.forms acts) entries := by
  obtain ⟨-, hlegal, rfl⟩ := hstep
  rw [step_world, step_alive]
  by_cases h : rep.stop = .exit ∧ choice acts rep.tracee.regs.orig_rax = .lind
  · have hleaves := hleave h.1 h.2
    obtain ⟨hreq, hgo⟩ := requests_round_of_leaving hleaves
    obtain ⟨entries, hlog, hoff⟩ :=
      sends_emulationOf hleaves rep.env (s.world.atLeave rep.tracee)
    exact ⟨entries, hreq.trans hlog, hoff.mono hgo.1⟩
  · rw [Report.forms, if_neg h]
    exact ⟨[], requests_round_of_unheard hflag hlegal h, worksOff_nil⟩

end Round

/-- **The conversation of a run.** What Lind hears is, call after call, what the protocol has for
the exit stops of the run, in their order; nothing is missing, doubled or added while the monitor
goes on, and where it ends in the middle of a call the rest of that call is all that is missing. -/
theorem conversation_run {acts : Actions} {start s : Sys} {reps : List Report}
    (hstart : Initial start) (hrun : Run (Step acts) start reps s) :
    WorksOff Form.Admits (s.alive = true) (reps.flatMap (Report.forms acts))
      s.world.requests.reverse := by
  refine Run.worksOff (fun s : Sys ↦ s.world.requests) (fun s ↦ s.alive = true) hstart.requests
    (fun {s rep t} hstep ↦ hstep.1) (fun {_ s rep t} hrun' hstep ↦ ?_) hrun
  exact conversation_step (flagFits_run hstart hrun' hstep.1) hstep fun hexit hlind ↦
    leavesEmulated_of_run hstart hrun' hstep hexit hlind

/-- The conversation of a `getuid`. -/
theorem conversation_run_getuid :
    WorksOff Form.Admits
      (((bootSys.step lindActs getuidEntry).step lindActs getuidExit).alive = true)
      [⟨LIND_safe_sys_getuid, []⟩]
      ((bootSys.step lindActs getuidEntry).step lindActs getuidExit).world.requests.reverse :=
  conversation_run initial_bootSys (run_getuid.mono And.left)

end ReferenceMonitor
