import ReferenceMonitor.Monitor.Survival
import ReferenceMonitor.System.Conversations
import ReferenceMonitor.System.Denial
import ReferenceMonitor.System.Transparency

/-!
# What ends the monitor

The tracee chooses its registers and its memory, and Lind its answers; either may end the monitor,
and with it the confinement of the tracee. `alive_step_iff` says exactly how, for every stop of
every run: the monitor goes on if and only if the policy and the tracee's state bear it (`Bears`)
and each request of this stop has been answered with a payload that is taken.
-/

namespace ReferenceMonitor

open Halting

/-! ### What a stop must be like -/

/-- What the handler of a host call reads and looks up on entry. -/
def OsCall.Enterable (env : Env) (table : List (ℤ × ℤ)) (t : Tracee) : OsCall → Prop
  | execve => PathEnds t.mem t.regs.rdi ∧ ArgvEnds t.mem t.regs.rsi
  | mmap => 0 ≤ t.regs.r8.toInt → (lookupFd env table (cInt t.regs.r8)).isSome
  | _ => True

/-- What it reads on exit. -/
def OsCall.Leavable (t : Tracee) : OsCall → Prop
  | getcwd => PathEnds t.mem t.regs.rdi
  | _ => True

/-- The policy and the tracee's state at a stop let the monitor go on. -/
def Bears (acts : Actions) (s : Sys) (rep : Report) : Prop :=
  let t := rep.tracee
  let n := cInt t.regs.orig_rax
  match rep.stop, choice acts t.regs.orig_rax with
  | .exited, _ | .killed _, _ | .entry, .deny | .exit, .deny => False
  | .entry, .os => ∀ c ∈ OsCall.ofNr n, c.Enterable rep.env s.world.mappings t
  | .exit, .os => ∀ c ∈ OsCall.ofNr n, c.Leavable t
  | .exit, .lind => ∀ c ∈ LindCall.ofNr n, c.Readable rep.env t.mem (argsOf t.regs)
  | _, _ => True

/-- The payload of a success in answer to a request of this stop is taken. -/
def Report.takes (rep : Report) : Request → List Byte → Prop :=
  match LindCall.ofNr (cInt rep.tracee.regs.orig_rax) with
  | some c => c.TakesOf rep.env rep.tracee.mem (argsOf rep.tracee.regs)
  | none => fun _ _ ↦ True

/-! ### Handlers of host calls -/

theorem returns_phased_entering_iff {enter leave : M Unit} {env : Env} {w : World}
    (h : w.entering = true) :
    (phased enter leave env w).Returns ↔ (enter env { w with
      trace := .branch true w.regs.syscall :: w.trace, entering := false }).Returns := by
  rw [phased_of_entering _ _ _ h]

theorem returns_phased_leaving_iff {enter leave : M Unit} {env : Env} {w : World}
    (h : w.entering = false) :
    (phased enter leave env w).Returns ↔ (leave env { w with
      trace := .branch false w.regs.syscall :: w.trace }).Returns := by
  rw [phased_of_leaving _ _ _ h, Outcome.returns_andThen_iff]
  simp only [Outcome.returns_done, and_true]
  exact Outcome.returns_iff.symm

theorem returns_monitorMmap_iff {env : Env} {w : World} (h : w.entering = true) :
    (monitorMmap env w).Returns ↔
      (0 ≤ w.regs.arg5.toInt → (lookupFd env w.mappings (cInt w.regs.arg5)).isSome) := by
  rw [monitorMmap, returns_phased_entering_iff h]
  simp only [bind_apply, getRegs, get_apply, pure_apply, Outcome.andThen_done, ite_run]
  split
  · rename_i hfd
    rw [imp_iff_right hfd]
    simp only [getMapping, bind_apply, ask_apply, get_apply, Outcome.andThen_done]
    cases lookupFd env w.mappings (cInt w.regs.arg5) with
    | none => exact iff_of_false id (by simp)
    | some v => exact iff_of_true trivial rfl
  · rename_i hfd
    exact iff_of_true trivial fun h ↦ absurd h hfd

/-- The handler of a host call at an entry stop. -/
theorem returns_osHandlerOf_entering_iff {n : ℤ} {env : Env} {w : World} (h : w.entering = true)
    (hregs : w.regs = argsOf w.tracee.regs) :
    (osHandlerOf n env w).Returns ↔
      ∀ c ∈ OsCall.ofNr n, c.Enterable env w.mappings w.tracee := by
  have hquiet {leave : M Unit} : (phased (pure ()) leave env w).Returns :=
    (returns_phased_entering_iff h).2 trivial
  unfold osHandlerOf
  cases OsCall.ofNr n with
  | none => exact iff_of_true hquiet fun c hc ↦ by cases hc
  | some c =>
    rw [show (∀ c' ∈ some c, c'.Enterable env w.mappings w.tracee) ↔
      c.Enterable env w.mappings w.tracee by simp]
    cases c with
    | exit | exit_group => exact iff_of_true trivial trivial
    | tgkill | arch_prctl | munmap | mprotect | gettid | brk | getcwd =>
      exact iff_of_true hquiet trivial
    | mmap =>
      refine (returns_monitorMmap_iff h).trans ?_
      rw [hregs]
      exact Iff.rfl
    | execve =>
      refine (returns_phased_entering_iff h).trans ?_
      simp only [bind_apply, getRegs, get_apply, pure_apply, Outcome.andThen_done]
      rw [fetch_returns_iff, hregs]
      exact returnsIff_execve (argsOf w.tracee.regs) []

/-- The handler of a host call at an exit stop. -/
theorem returns_osHandlerOf_leaving_iff {n : ℤ} {env : Env} {w : World} (h : w.entering = false)
    (hregs : w.regs = argsOf w.tracee.regs) :
    (osHandlerOf n env w).Returns ↔ ∀ c ∈ OsCall.ofNr n, c.Leavable w.tracee := by
  have hquiet {enter : M Unit} : (phased enter (pure ()) env w).Returns :=
    (returns_phased_leaving_iff h).2 trivial
  unfold osHandlerOf
  cases OsCall.ofNr n with
  | none => exact iff_of_true ((returns_phased_leaving_iff h).2 trivial) fun c hc ↦ by cases hc
  | some c =>
    rw [show (∀ c' ∈ some c, c'.Leavable w.tracee) ↔ c.Leavable w.tracee by simp]
    cases c with
    | exit | exit_group => exact iff_of_true trivial trivial
    | tgkill | arch_prctl | munmap | mprotect | gettid | brk | mmap | execve =>
      exact iff_of_true hquiet trivial
    | getcwd =>
      refine (returns_phased_leaving_iff h).trans (leave_getcwd_returns_iff.trans ?_)
      rw [hregs]
      exact Iff.rfl

/-! ### One round -/

section Round

variable {acts : Actions} {s : Sys} {rep : Report}

/-- At a syscall stop the monitor goes on where the handler returns, unless the call is denied. -/
theorem goesOn_round_iff (hstop : rep.stop.IsSyscall) :
    goesOn (s.round acts rep) = true ↔ choice acts rep.tracee.regs.orig_rax ≠ .deny ∧
      ((choice acts rep.tracee.regs.orig_rax).handler rep.tracee.regs.orig_rax rep.env
        (s.world.atStop rep.tracee)).Returns := by
  rw [round_syscall acts s hstop]
  cases (choice acts rep.tracee.regs.orig_rax).handler rep.tracee.regs.orig_rax rep.env
    (s.world.atStop rep.tracee) with
  | done u w => exact decide_eq_true_iff.trans (and_iff_left trivial).symm
  | halt e w => exact iff_of_false (by simp [goesOn]) fun h ↦ h.2

theorem goesOn_entry_iff (hentry : rep.stop = .entry) (hflag : s.world.entering = true) :
    goesOn (s.round acts rep) = true ↔ Bears acts s rep := by
  have hent : (s.world.atStop rep.tracee).entering = true := hflag
  rw [goesOn_round_iff (.inl hentry), Bears, hentry]
  cases hc : choice acts rep.tracee.regs.orig_rax with
  | deny => exact iff_of_false (fun h ↦ h.1 rfl) id
  | nothing => exact iff_of_true ⟨by simp, trivial⟩ trivial
  | lind => exact iff_of_true ⟨by simp, (returns_phased_entering_iff hent).2 trivial⟩ trivial
  | os =>
    exact (and_iff_right (by simp)).trans (returns_osHandlerOf_entering_iff hent rfl)

theorem goesOn_exit_iff (hexit : rep.stop = .exit)
    (hflag : s.world.entering = !decide (HasPhases acts rep.tracee.regs.orig_rax))
    (hlind : choice acts rep.tracee.regs.orig_rax ≠ .lind) :
    goesOn (s.round acts rep) = true ↔ Bears acts s rep := by
  rw [goesOn_round_iff (.inr hexit), Bears, hexit]
  cases hc : choice acts rep.tracee.regs.orig_rax with
  | deny => exact iff_of_false (fun h ↦ h.1 rfl) id
  | nothing => exact iff_of_true ⟨by simp, trivial⟩ trivial
  | lind => exact absurd hc hlind
  | os =>
    refine (and_iff_right (by simp)).trans ?_
    by_cases hph : HasPhases acts rep.tracee.regs.orig_rax
    · rw [decide_eq_true hph] at hflag
      exact returns_osHandlerOf_leaving_iff (show (s.world.atStop rep.tracee).entering = false
        from hflag) rfl
    · -- `exit` and `exit_group`, whose handlers do nothing
      rw [HasPhases, hc, not_not] at hph
      rw [Choice.handler, osHandlerOf_of_phaseless hph]
      refine iff_of_true trivial fun c hof ↦ ?_
      rcases hph with hn | hn <;> rw [hn] at hof <;> cases hof <;> trivial

/-- The round that leaves an emulated call. -/
theorem goesOn_leaving_iff (h : LeavesEmulated acts s rep) :
    ∃ new, (s.round acts rep).state.requests = new ++ s.world.requests ∧
      (goesOn (s.round acts rep) = true ↔ Bears acts s rep ∧
        Approved (Answered rep.takes rep.env) s.world.requests new) := by
  obtain ⟨hsame, hgo⟩ := requests_round_of_leaving h
  rw [hsame, hgo, Bears, h.exit, h.lind, Report.takes]
  cases hof : LindCall.ofNr (cInt rep.tracee.regs.orig_rax) with
  | some c =>
    obtain ⟨-, new, hlog, hret⟩ := survives_emulation rep.env rep.tracee.mem
      (argsOf rep.tracee.regs) c (s.world.atLeave rep.tracee) rfl
    rw [emulate_of_ofNr hof]
    refine ⟨new, hlog, hret.trans (and_congr_left fun _ ↦ ?_)⟩
    simp
  | none =>
    obtain ⟨u, hdone⟩ := emulate_of_ofNr_none hof
    have hlog : (s.emulate rep).state.requests = s.world.requests := by
      rw [Sys.emulate, emulationOf, hof]
      rfl
    refine ⟨[], hlog, ?_⟩
    rw [hdone]
    exact iff_of_true trivial ⟨fun c hc ↦ (by cases hc), trivial⟩

end Round

/-! ### Every run -/

/-- A stop at which nothing is asked of Lind. -/
theorem alive_of_unheard {acts : Actions} {s : Sys} {rep : Report} (hflag : FlagFits acts s)
    (hlegal : Legal s rep)
    (hunheard : ¬ (rep.stop = .exit ∧ choice acts rep.tracee.regs.orig_rax = .lind))
    (h : goesOn (s.round acts rep) = true ↔ Bears acts s rep) :
    ∃ new, (s.round acts rep).state.requests = new ++ s.world.requests ∧
      (goesOn (s.round acts rep) = true ↔ Bears acts s rep ∧
        Approved (Answered rep.takes rep.env) s.world.requests new) :=
  ⟨[], requests_round_of_unheard hflag hlegal hunheard, h.trans (and_iff_left trivial).symm⟩

end ReferenceMonitor
