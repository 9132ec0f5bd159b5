import ReferenceMonitor.Monitor.Config
import ReferenceMonitor.Monitor.Frames
import ReferenceMonitor.System.Kernel

/-!
# One round of the monitor

What a round does is said once, for the two kinds of stops. At a stop that is no syscall stop the
monitor reads the registers and does nothing else (`round_other`). At a syscall stop it runs the
handler the policy chooses (`round_syscall`), and that handler takes the branch its flag tells it to
(`Toggles`): `monitor_exit` and `monitor_exit_group` aside, every handler toggles the flag.
-/

namespace ReferenceMonitor

open Halting

/-! ### Dispatch -/

/-- What the policy does with a call. -/
inductive Choice where
  | deny
  | os
  | lind
  /-- No handler runs. -/
  | nothing
  deriving DecidableEq

/-- The choice for a number, as `intercept_calls` narrows it. -/
def choice (acts : Actions) (n : Word) : Choice :=
  if acts (cInt n) = DENY_LIND then .deny
  else if acts (cInt n) = ALLOW_OS then .os
  else if acts (cInt n) = ALLOW_LIND then .lind
  else .nothing

/-- The handler that runs. -/
def Choice.handler : Choice → Word → M Unit
  | deny, _ => monitorDeny
  | os, n => osHandlerOf (cInt n)
  | lind, n => emulated (emulationOf (cInt n))
  | nothing, _ => pure ()

/-- The monitor at a stop, its globals as `get_args` leaves them, about to run a handler. -/
def World.atStop (w : World) (t : Tracee) : World :=
  { w with
    tracee := t
    regs := argsOf t.regs
    trace := .actionsAt (cInt t.regs.orig_rax) :: w.trace }

/-- A report of a syscall stop. -/
def Stop.IsSyscall (s : Stop) : Prop := s = .entry ∨ s = .exit

theorem round_syscall (acts : Actions) (s : Sys) {rep : Report} (h : rep.stop.IsSyscall) :
    s.round acts rep =
      ((choice acts rep.tracee.regs.orig_rax).handler rep.tracee.regs.orig_rax rep.env
        (s.world.atStop rep.tracee)).andThen fun _ w ↦
          .done (decide (choice acts rep.tracee.regs.orig_rax ≠ .deny)) w := by
  have hstatus : rep.stop.status = .stopped (SIGTRAP ||| 0x80) := by
    rcases h with h | h <;> rw [h] <;> rfl
  rw [Sys.round, hstatus, choice]
  simp only [interceptStop, dispatch, getArgs, getRegs, bind_apply, modify_apply, get_apply,
    pure_apply, Outcome.andThen_done, record_apply, if_true, argsOf, ite_run]
  split
  · rfl
  split
  · rfl
  split
  · rfl
  · rfl

theorem round_other (acts : Actions) (s : Sys) {rep : Report} {sig : Fin 128}
    (h : rep.stop = .other sig) :
    s.round acts rep = .done true
      { s.world with tracee := rep.tracee, regs := argsOf rep.tracee.regs } := by
  have hsig : (sig : ℕ) ≠ SIGTRAP ||| 0x80 := by
    have hlt := sig.isLt
    have htrap : SIGTRAP ||| 0x80 = 133 := rfl
    omega
  rw [Sys.round, h]
  simp only [Stop.status, interceptStop, bind_apply, getArgs, modify_apply, Outcome.andThen_done,
    if_neg hsig]
  rfl

/-- The state after a round at a syscall stop is the one the handler reaches. -/
theorem state_round_syscall (acts : Actions) (s : Sys) {rep : Report} (h : rep.stop.IsSyscall) :
    (s.round acts rep).state =
      ((choice acts rep.tracee.regs.orig_rax).handler rep.tracee.regs.orig_rax rep.env
        (s.world.atStop rep.tracee)).state := by
  rw [round_syscall acts s h]
  cases (choice acts rep.tracee.regs.orig_rax).handler rep.tracee.regs.orig_rax rep.env
    (s.world.atStop rep.tracee) <;> rfl

/-- At the other reports the registers are read at most. -/
theorem state_round_of_not_syscall (acts : Actions) (s : Sys) {rep : Report}
    (h : ¬ rep.stop.IsSyscall) :
    ∃ regs, (s.round acts rep).state = { s.world with tracee := rep.tracee, regs := regs } := by
  rw [Stop.IsSyscall, not_or] at h
  cases hs : rep.stop with
  | entry => exact absurd hs h.1
  | exit => exact absurd hs h.2
  | other sig =>
    rw [round_other acts s hs]
    exact ⟨_, rfl⟩
  | exited | killed =>
    rw [Sys.round, hs]
    exact ⟨s.world.regs, rfl⟩

/-! ### What the two branches of a handler keep -/

/-- What an entering branch keeps. -/
structure EntryKeeps (w w' : World) : Prop where
  requests : w'.requests = w.requests
  mem : w'.tracee.mem = w.tracee.mem
  marks : w'.marks = w.marks
  entering : w'.entering = w.entering

instance : Std.Refl EntryKeeps := ⟨fun _ ↦ ⟨rfl, rfl, rfl, rfl⟩⟩

instance : IsTrans World EntryKeeps :=
  ⟨fun _ _ _ h h' ↦ ⟨h'.requests.trans h.requests, h'.mem.trans h.mem, h'.marks.trans h.marks,
    h'.entering.trans h.entering⟩⟩

/-- The events of a branch taken. -/
def Event.isBranch : Event → Bool
  | branch _ _ => true
  | _ => false

/-- The branches in a trace, newest first. -/
def World.branches (w : World) : List Event := w.trace.filter Event.isBranch

/-- What a leaving branch keeps. -/
structure LeaveKeeps (w w' : World) : Prop where
  branches : w'.branches = w.branches
  entering : w'.entering = w.entering

instance : Std.Refl LeaveKeeps := ⟨fun _ ↦ ⟨rfl, rfl⟩⟩

instance : IsTrans World LeaveKeeps :=
  ⟨fun _ _ _ h h' ↦ ⟨h'.branches.trans h.branches, h'.entering.trans h.entering⟩⟩

theorem branches_eq_filter_marks (w : World) : w.branches = w.marks.filter Event.isBranch := by
  rw [World.branches, World.marks, List.filter_filter]
  congr 1
  funext e
  cases e <;> rfl

theorem Frame.leaveKeeps {p : Prop} {w w' : World} (h : Frame p w w') : LeaveKeeps w w' :=
  ⟨by rw [branches_eq_filter_marks, branches_eq_filter_marks, h.marks], h.entering⟩

theorem entry_fetch {α : Type} (f : Fetch α) : Keeps EntryKeeps (fetch f) :=
  keeps_focus f fun _ _ ↦ ⟨rfl, rfl, by
    simp [World.marks, List.filter_append, List.filter_eq_nil_iff, Event.marks], rfl⟩

theorem entry_getRegs : Keeps EntryKeeps getRegs := keeps_get.bind fun _ ↦ keeps_pure _

theorem entry_getMapping (fd : ℤ) : Keeps EntryKeeps (getMapping fd) := by
  refine keeps_ask.bind fun env ↦ keeps_get.bind fun w ↦ ?_
  split
  · exact keeps_stop _
  · exact keeps_pure _

theorem leave_finish (res : Option (Word × List CopyBack)) : Keeps LeaveKeeps (finish res) := by
  have hback (bs : List CopyBack) : Keeps LeaveKeeps (copyBacks bs) := by
    induction bs with
    | nil => exact keeps_pure _
    | cons b bs ih =>
      exact Keeps.bind ((keeps_modify fun _ ↦ ⟨rfl, rfl⟩).bind fun _ ↦ keeps_ask.bind fun _ ↦
        keeps_modify fun _ ↦ ⟨rfl, rfl⟩) fun _ ↦ ih
  unfold finish
  split
  · exact keeps_pure _
  · exact (keeps_modify fun _ ↦ ⟨rfl, rfl⟩).bind fun _ ↦ (hback _).bind fun _ ↦
      keeps_modify fun _ ↦ ⟨rfl, rfl⟩

theorem leave_emulationOf (n : ℤ) : Keeps LeaveKeeps (leave (emulationOf n)) :=
  (keeps_get.bind fun _ ↦ keeps_pure _).bind fun r ↦
    ((frame_emulationOf n r).mono fun _ _ h ↦ h.leaveKeeps).bind fun res ↦ leave_finish res

/-! ### Toggling -/

/-- A handler takes the branch the flag names, records it, and toggles the flag. An entering branch
sends nothing and writes nothing to the tracee. -/
structure Toggles (h : M Unit) : Prop where
  enter : ∀ env w, w.entering = true →
    let w' := (h env w).state
    w'.requests = w.requests ∧ w'.tracee.mem = w.tracee.mem ∧
      w'.marks = .branch true w.regs.syscall :: w.marks ∧ w'.entering = false
  leave : ∀ env w, w.entering = false →
    (h env w).state.branches = .branch false w.regs.syscall :: w.branches ∧
      ((h env w).Returns → (h env w).state.entering = true)

/-- The round that enters an emulated call clears the flag, and that is all. -/
theorem round_entering {acts : Actions} {s : Sys} {rep : Report} (hstop : rep.stop.IsSyscall)
    (hflag : s.world.entering = true) (hlind : choice acts rep.tracee.regs.orig_rax = .lind) :
    s.round acts rep = .done true
      { s.world.atStop rep.tracee with
        trace := .branch true rep.tracee.regs.orig_rax :: (s.world.atStop rep.tracee).trace
        entering := false } := by
  rw [round_syscall acts s hstop, hlind, Choice.handler, emulated, phased_of_entering _ _ _
    (show (s.world.atStop rep.tracee).entering = true from hflag)]
  rfl

/-- The monitor at a stop, about to run the leaving branch of a handler. -/
def World.atLeave (w : World) (t : Tracee) : World :=
  { w.atStop t with trace := .branch false t.regs.orig_rax :: (w.atStop t).trace }

@[simp] theorem atLeave_tracee (w : World) (t : Tracee) : (w.atLeave t).tracee = t := rfl

@[simp] theorem atLeave_requests (w : World) (t : Tracee) :
    (w.atLeave t).requests = w.requests := rfl

@[simp] theorem atLeave_mappings (w : World) (t : Tracee) :
    (w.atLeave t).mappings = w.mappings := rfl

/-- The round that leaves an emulated call. -/
theorem round_leaving {acts : Actions} {s : Sys} {rep : Report} (hstop : rep.stop.IsSyscall)
    (hflag : s.world.entering = false) (hlind : choice acts rep.tracee.regs.orig_rax = .lind) :
    s.round acts rep =
      (leave (emulationOf (cInt rep.tracee.regs.orig_rax)) rep.env
        (s.world.atLeave rep.tracee)).andThen fun _ w ↦ .done true { w with entering := true } := by
  rw [round_syscall acts s hstop, hlind, Choice.handler, emulated, phased_of_leaving _ _ _
    (show (s.world.atStop rep.tracee).entering = false from hflag)]
  have hregs : (s.world.atStop rep.tracee).regs.syscall = rep.tracee.regs.orig_rax := rfl
  rw [hregs, ← World.atLeave]
  cases leave (emulationOf (cInt rep.tracee.regs.orig_rax)) rep.env
    (s.world.atLeave rep.tracee) <;> rfl

/-- The handlers written with `if (entering)` toggle. -/
theorem toggles_phased {enter leave : M Unit} (henter : Keeps EntryKeeps enter)
    (hleave : Keeps LeaveKeeps leave) : Toggles (phased enter leave) where
  enter env w h := by
    rw [phased_of_entering _ _ _ h]
    have hk := henter env { w with
      trace := .branch true w.regs.syscall :: w.trace, entering := false }
    exact ⟨hk.requests, hk.mem, hk.marks, hk.entering⟩
  leave env w h := by
    rw [phased_of_leaving _ _ _ h]
    have hk := hleave env { w with trace := .branch false w.regs.syscall :: w.trace }
    cases ho : leave env { w with trace := .branch false w.regs.syscall :: w.trace } with
    | done u t =>
      rw [ho] at hk
      exact ⟨hk.branches, fun _ ↦ rfl⟩
    | halt e t =>
      rw [ho] at hk
      exact ⟨hk.branches, fun hr ↦ hr.elim⟩

theorem toggles_emulated (n : ℤ) : Toggles (emulated (emulationOf n)) :=
  toggles_phased (keeps_pure _) (leave_emulationOf n)

theorem toggles_logged : Toggles logged := toggles_phased (keeps_pure _) (keeps_pure _)

theorem toggles_monitorOs : Toggles monitorOs :=
  toggles_phased (keeps_pure _) ((keeps_get.bind fun _ ↦ keeps_pure _).bind fun _ ↦
    keeps_modify fun _ ↦ ⟨rfl, rfl⟩)

theorem toggles_monitorExecve : Toggles monitorExecve :=
  toggles_phased (entry_getRegs.bind fun _ ↦ entry_fetch _) (keeps_pure _)

theorem toggles_monitorMmap : Toggles monitorMmap :=
  toggles_phased
    (entry_getRegs.bind fun _ ↦ Keeps.ite
      ((entry_getMapping _).bind fun _ ↦ (keeps_modify fun _ ↦ ⟨rfl, rfl, rfl, rfl⟩).bind fun _ ↦
        keeps_modify fun _ ↦ ⟨rfl, rfl, rfl, rfl⟩)
      (keeps_pure _))
    (keeps_pure _)

theorem toggles_monitorDeny : Toggles monitorDeny :=
  toggles_phased
    ((keeps_modify fun _ ↦ ⟨rfl, rfl, rfl, rfl⟩).bind fun _ ↦
      (keeps_modify fun _ ↦ ⟨rfl, rfl, rfl, rfl⟩).bind fun _ ↦ entry_getRegs.bind fun _ ↦
        (keeps_modify fun _ ↦ ⟨rfl, rfl, rfl, rfl⟩).bind fun _ ↦ keeps_stop _)
    ((keeps_get.bind fun _ ↦ keeps_pure _).bind fun _ ↦ keeps_modify fun _ ↦ ⟨rfl, rfl⟩)

/-- The calls whose handlers have no phases. -/
def Phaseless (n : ℤ) : Prop := n = OsCall.exit.nr ∨ n = OsCall.exit_group.nr

instance (n : ℤ) : Decidable (Phaseless n) := inferInstanceAs (Decidable (_ ∨ _))

theorem toggles_osHandlerOf {n : ℤ} (h : ¬ Phaseless n) : Toggles (osHandlerOf n) := by
  unfold osHandlerOf
  cases hc : OsCall.ofNr n with
  | none => exact toggles_monitorOs
  | some c =>
    have hn := OsCall.nr_of_ofNr hc
    cases c with
    | exit => exact absurd (.inl hn.symm) h
    | exit_group => exact absurd (.inr hn.symm) h
    | execve => exact toggles_monitorExecve
    | mmap => exact toggles_monitorMmap
    | getcwd =>
      exact toggles_phased (keeps_pure _) ((keeps_get.bind fun _ ↦ keeps_pure _).bind fun r ↦
        ((frame_emulation .getcwd r).mono fun _ _ h ↦ h.leaveKeeps).bind fun res ↦
          leave_finish res)
    | tgkill | arch_prctl | munmap | mprotect | gettid | brk => exact toggles_logged

theorem osHandlerOf_of_phaseless {n : ℤ} (h : Phaseless n) : osHandlerOf n = pure () := by
  rcases h with h | h <;> subst h <;> rfl

end ReferenceMonitor
