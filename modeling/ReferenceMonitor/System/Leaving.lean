import ReferenceMonitor.Monitor.Replies
import ReferenceMonitor.System.Phases

/-!
# The round that leaves an emulated call

At the exit stop of an emulated call the tracee is changed in one place, `finish`, and only by the
result of the emulation. `round_of_done` and `round_of_halt` carry the two ways an emulation ends
over to the round.
-/

namespace ReferenceMonitor

open Halting

/-- An exit stop at which the monitor runs the leaving branch of an emulated call. -/
structure LeavesEmulated (acts : Actions) (s : Sys) (rep : Report) : Prop where
  exit : rep.stop = .exit
  flag : s.world.entering = false
  lind : choice acts rep.tracee.regs.orig_rax = .lind

/-- In a run, every exit stop of an emulated call is one of these. -/
theorem leavesEmulated_of_run {acts : Actions} {start s t : Sys} {reps : List Report}
    {rep : Report} (hstart : Initial start) (hrun : Run (Step acts) start reps s)
    (hstep : Step acts s rep t) (hexit : rep.stop = .exit)
    (hlind : choice acts rep.tracee.regs.orig_rax = .lind) : LeavesEmulated acts s rep where
  exit := hexit
  flag := by
    have h := (entering_at_exit (flagFits_run hstart hrun hstep.1) hstep.2.1 hexit).2
    have hphases : HasPhases acts rep.tracee.regs.orig_rax := by rw [HasPhases, hlind]; trivial
    rwa [decide_eq_true hphases]
      at h
  lind := hlind

/-- The emulation the round runs. -/
def Sys.emulate (s : Sys) (rep : Report) : Outcome Halt World Result :=
  emulationOf (cInt rep.tracee.regs.orig_rax) (argsOf rep.tracee.regs) rep.env
    (s.world.atLeave rep.tracee)

/-- The registers of the tracee after a result. -/
def regsAfter (u : World) (t : Tracee) : Result → UserRegs
  | none => t.regs
  | some (ret, _) => { u.regs with retval := ret }.toRegs

/-- The memory of the tracee after a result. -/
def memAfter (env : Env) (m : ByteMemory) : Result → ByteMemory
  | none => m
  | some (_, backs) => copyMem env m backs

section Round

variable {acts : Actions} {s : Sys} {rep : Report}

theorem round_eq_emulate (h : LeavesEmulated acts s rep) :
    s.round acts rep = (s.emulate rep).andThen fun res u ↦
      (finish res rep.env u).andThen fun _ w ↦ .done true { w with entering := true } := by
  rw [round_leaving (.inr h.exit) h.flag h.lind, leave]
  have hregs : (s.world.atLeave rep.tracee).regs = argsOf rep.tracee.regs := rfl
  simp only [bind_apply, getRegs, get_apply, pure_apply, Outcome.andThen_done, hregs]
  rw [← Sys.emulate]
  cases s.emulate rep <;> rfl

theorem tracee_emulate (s : Sys) (rep : Report) : (s.emulate rep).state.tracee = rep.tracee :=
  (frame_emulationOf _ _ rep.env (s.world.atLeave rep.tracee)).tracee

/-- The emulation returned: the tracee is resumed, as its result says. -/
theorem round_of_done (h : LeavesEmulated acts s rep) {res : Result} {u : World}
    (he : s.emulate rep = .done res u) :
    goesOn (s.round acts rep) = true ∧
      (s.round acts rep).state.tracee =
        ⟨regsAfter u rep.tracee res, memAfter rep.env rep.tracee.mem res⟩ ∧
      (s.round acts rep).state.requests = u.requests ∧
      (s.round acts rep).state.mappings = u.mappings := by
  have ht : u.tracee = rep.tracee := by
    have := tracee_emulate s rep
    rwa [he] at this
  rw [round_eq_emulate h, he, Outcome.andThen_done]
  cases res with
  | none => exact ⟨rfl, ht, rfl, rfl⟩
  | some p =>
    obtain ⟨ret, backs⟩ := p
    rw [finish_some_apply, Outcome.andThen_done, ht]
    exact ⟨rfl, rfl, rfl, rfl⟩

/-- The emulation halted: the monitor has ended, and the tracee is as it was. -/
theorem round_of_halt (h : LeavesEmulated acts s rep) {e : Halt} {u : World}
    (he : s.emulate rep = .halt e u) :
    goesOn (s.round acts rep) = false ∧ (s.round acts rep).state.tracee = rep.tracee ∧
      (s.round acts rep).state.requests = u.requests := by
  have ht : u.tracee = rep.tracee := by
    have := tracee_emulate s rep
    rwa [he] at this
  rw [round_eq_emulate h, he]
  exact ⟨rfl, ht, rfl⟩

/-- `rax` after a result: a result without `set_args` leaves the native one. -/
theorem rax_regsAfter (u : World) (t : Tracee) (res : Result) :
    (regsAfter u t res).rax = (res.map Prod.fst).getD t.regs.rax := by
  cases res <;> rfl

end Round

/-! ### Lind's answers -/

/-- Lind answers the requests sent from `w` on one after the other. -/
def Env.answering (env : Env) (w : World) (answers : ℕ → Option Response) : Env :=
  { env with lind := fun l ↦ answers (l.length - w.requests.length) }

/-- The report, with the answers Lind gives to the requests sent while it is handled. -/
def Report.answering (rep : Report) (s : Sys) (answers : ℕ → Option Response) : Report :=
  { rep with env := rep.env.answering s.world answers }

/-- Request `k` of the call was sent. -/
def Asked (s : Sys) (o : Outcome Halt World Bool) (k : ℕ) : Prop :=
  s.world.requests.length + k ≤ o.state.requests.length

theorem emulationOf_of_ofNr {n : ℤ} {c : LindCall} (h : LindCall.ofNr n = some c) :
    emulationOf n = c.emulation := by rw [emulationOf, h]

/-- The emulation of a call with a handler. -/
theorem emulate_of_ofNr {s : Sys} {rep : Report} {c : LindCall}
    (h : LindCall.ofNr (cInt rep.tracee.regs.orig_rax) = some c) :
    s.emulate rep =
      c.emulation (argsOf rep.tracee.regs) rep.env (s.world.atLeave rep.tracee) := by
  rw [Sys.emulate, emulationOf_of_ofNr h]

/-- The exchange at the exit stop of a call that asks once. -/
theorem exchange_emulate {s : Sys} {rep : Report} {c : LindCall}
    (h : LindCall.ofNr (cInt rep.tracee.regs.orig_rax) = some c) (hown : c.own = 1) :
    Exchange rep.env (fun v ↦ c.reply rep.env rep.tracee.mem (argsOf rep.tracee.regs) v)
      (fun v ↦ c.entered (argsOf rep.tracee.regs) v) s.world.requests s.world.mappings
      (s.emulate rep) := by
  rw [emulate_of_ofNr h]
  exact exchange_emulation hown _ _ (s.world.atLeave rep.tracee)

/-- The emulation of a call without one. -/
theorem emulate_of_ofNr_none {s : Sys} {rep : Report}
    (h : LindCall.ofNr (cInt rep.tracee.regs.orig_rax) = none) :
    ∃ u, s.emulate rep = .done (some (einval, [])) u := by
  rw [Sys.emulate, emulationOf, h]
  exact ⟨_, rfl⟩

end ReferenceMonitor
