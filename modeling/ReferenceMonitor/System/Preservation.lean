import ReferenceMonitor.Monitor.Outcomes
import ReferenceMonitor.System.Denial

/-!
# The registers across a system call

A completed call is an entry stop, any number of other stops, and its exit stop. The kernel keeps
the argument registers between the two, so what the tracee finds in them afterwards is what the two
rounds left there: `monitor_mmap` changes `r8` on entry, and `monitor_getsockname` changes `rdx` on
exit.
-/

namespace ReferenceMonitor

open Halting

/-- The handler of `getsockname` reaches its `set_args`. -/
def GetsocknameReplies (env : Env) (w : World) (r : SyscallArgs) : Prop :=
  match verdictOn env w (getsocknameRequest w.tracee.mem r) with
  | none => False
  | some (.success _ data) => Fits sizeofSockaddr (socklenAt w.tracee.mem r.arg3) data
  | some _ => True

/-- The leaving branch of `monitor_getsockname` leaves the address of its copy of the length. -/
theorem leave_getsockname (env : Env) {w : World} {t : Tracee} (hregs : w.regs = argsOf t.regs)
    (ht : w.tracee = t) :
    (GetsocknameReplies env w w.regs →
      (leave monitorGetsockname env w).state.tracee.regs.call =
        { t.regs with rdx := env.heapAddr 1 }.call) ∧
    (¬ GetsocknameReplies env w w.regs →
      (leave monitorGetsockname env w).state.tracee.regs.call = t.regs.call) := by
  have hleave : leave monitorGetsockname env w =
      (monitorGetsockname w.regs env w).andThen fun a u ↦ finish a env u := rfl
  rw [hleave, monitorGetsockname_apply, fillWith_apply (fetch_pure _ _ _), GetsocknameReplies,
    show verdictOn env { w with regs.arg3 := env.heapAddr 1 }
      (getsocknameRequest w.tracee.mem w.regs) =
        verdictOn env w (getsocknameRequest w.tracee.mem w.regs) from rfl]
  have hcall : t.regs.call = w.tracee.regs.call := by rw [ht]
  have hdone (ret : Word) (bs : List CopyBack) (u : World)
      (hu : u.regs = { w.regs with arg3 := env.heapAddr 1 }) :
      (finish (some (ret, bs)) env u).state.tracee.regs.call =
        { t.regs with rdx := env.heapAddr 1 }.call := by
    rw [finish_some_apply, Outcome.state_done, hu, hregs]
    rfl
  cases hv : verdictOn env w (getsocknameRequest w.tracee.mem w.regs) with
  | none => exact ⟨fun h ↦ h.elim, fun _ ↦ hcall.symm⟩
  | some v =>
    cases v with
    | failed => exact ⟨fun _ ↦ hdone _ _ _ rfl, fun h ↦ absurd trivial h⟩
    | error code => exact ⟨fun _ ↦ hdone _ _ _ rfl, fun h ↦ absurd trivial h⟩
    | success code data =>
      dsimp only [received]
      rw [length_malloc]
      by_cases hfit : Fits sizeofSockaddr (socklenAt w.tracee.mem w.regs.arg3) data
      · rw [if_pos hfit]
        exact ⟨fun _ ↦ hdone _ _ _ rfl, fun h ↦ absurd hfit h⟩
      · rw [if_neg hfit]
        exact ⟨fun h ↦ absurd h hfit, fun _ ↦ hcall.symm⟩

/-! ### The round at the exit stop -/

/-- The exit stop of an emulated `getsockname`. -/
def IsGetsockname (acts : Actions) (n : Word) : Prop :=
  choice acts n = .lind ∧ cInt n = LindCall.getsockname.nr

theorem round_exit_getsockname {acts : Actions} {s : Sys} {rep : Report}
    (hstop : rep.stop.IsSyscall) (hflag : s.world.entering = false)
    (hg : IsGetsockname acts rep.tracee.regs.orig_rax) :
    let w := s.world.atStop rep.tracee
    (GetsocknameReplies rep.env w w.regs →
      (s.round acts rep).state.tracee.regs.call =
        { rep.tracee.regs with rdx := rep.env.heapAddr 1 }.call) ∧
    (¬ GetsocknameReplies rep.env w w.regs →
      (s.round acts rep).state.tracee.regs.call = rep.tracee.regs.call) := by
  have he : emulationOf (cInt rep.tracee.regs.orig_rax) = monitorGetsockname := by rw [hg.2]; rfl
  rw [round_leaving hstop hflag hg.1, he]
  have hl := leave_getsockname rep.env (w := s.world.atLeave rep.tracee) (t := rep.tracee) rfl rfl
  cases ho : leave monitorGetsockname rep.env (s.world.atLeave rep.tracee) <;>
    rw [ho] at hl <;> exact hl

/-- Every other handler keeps the call at an exit stop. -/
theorem round_exit_call {acts : Actions} {s : Sys} {rep : Report} (hstop : rep.stop.IsSyscall)
    (hflag : s.world.entering = !decide (HasPhases acts rep.tracee.regs.orig_rax))
    (hg : ¬ IsGetsockname acts rep.tracee.regs.orig_rax) :
    (s.round acts rep).state.tracee.regs.call = rep.tracee.regs.call := by
  by_cases hmmap : choice acts rep.tracee.regs.orig_rax = .os ∧
      cInt rep.tracee.regs.orig_rax = OsCall.mmap.nr
  · have hh : osHandlerOf (cInt rep.tracee.regs.orig_rax) = monitorMmap := by rw [hmmap.2]; rfl
    have hph : HasPhases acts rep.tracee.regs.orig_rax := by
      rw [HasPhases, hmmap.1, hmmap.2]
      decide
    rw [decide_eq_true hph] at hflag
    rw [round_syscall acts s hstop, hmmap.1, Choice.handler, hh, monitorMmap,
      phased_of_leaving _ _ _ (show (s.world.atStop rep.tracee).entering = false from hflag)]
    rfl
  · refine round_regs ignoresRax_call acts s hstop ?_
    rintro (⟨h, h', -⟩ | ⟨h, h', -⟩)
    · exact hg ⟨h, h'⟩
    · exact hmmap ⟨h, h'⟩

/-! ### Completed calls -/

/-- A stop that is no syscall stop, between the two of a call. -/
def BetweenStep (acts : Actions) (s : Sys) (rep : Report) (t : Sys) : Prop :=
  Step acts s rep t ∧ ∃ sig, rep.stop = .other sig

/-- A call that is not denied, from its entry stop `rep` in `s` to its exit stop `rep'`, after which
the tracee is resumed in `t`. The kernel keeps the registers of the call. -/
structure CompletedCall (acts : Actions) (s : Sys) (rep rep' : Report) (s' t : Sys) : Prop where
  entry : rep.stop = .entry
  exit : rep'.stop = .exit
  allowed : choice acts rep.tracee.regs.orig_rax ≠ .deny
  between : ∃ reps, Run (BetweenStep acts) (s.step acts rep) reps s'
  enters : Step acts s rep (s.step acts rep)
  leaves : Step acts s' rep' t
  kernel : ∀ r, s'.phase = .kernel r → rep'.tracee.regs.call = r.call

variable {acts : Actions} {start s s' t : Sys} {reps : List Report} {rep rep' : Report}

/-- What the other stops of a call keep. -/
theorem between_keeps {mid : List Report} (hrun : Run (BetweenStep acts) s mid s')
    (hflag : s.alive = true → FlagFits acts s) :
    s'.phase = s.phase ∧ (s'.alive = true → FlagFits acts s') := by
  refine hrun.invariant
    (I := fun _ u ↦ u.phase = s.phase ∧ (u.alive = true → FlagFits acts u)) ⟨rfl, hflag⟩ ?_
  rintro ls u rep v - ⟨hp, hf⟩ ⟨hstep, sig, hsig⟩
  refine ⟨?_, flagFits_step (hf hstep.1) hstep⟩
  rw [hstep.2.2, (step_other acts u (by simp [hsig]) (by simp [hsig])).1, hp]

/-- The call at the exit stop is the one the entry stop was left with. -/
theorem CompletedCall.call_at_exit (h : CompletedCall acts s rep rep' s' t)
    (hflag : FlagFits acts s) :
    rep'.tracee.regs.call = { rep.tracee.regs with r8 := entryR8 acts s rep }.call ∧
      FlagFits acts s' := by
  obtain ⟨mid, hmid⟩ := h.between
  obtain ⟨hphase, hflag'⟩ := between_keeps hmid (flagFits_step hflag h.enters)
  rw [(step_entry acts s h.entry).1] at hphase
  refine ⟨?_, hflag' h.leaves.1⟩
  rw [h.kernel _ hphase]
  exact round_entry_call (.inl h.entry) (entering_at_entry hflag h.enters.2.1 h.entry)

theorem call_r8_eq_iff (r : UserRegs) (v : Word) : { r with r8 := v }.call = r.call ↔ v = r.r8 := by
  simp [UserRegs.call]

theorem call_rdx_eq_iff (r : UserRegs) (v : Word) :
    { r with rdx := v }.call = r.call ↔ v = r.rdx := by
  simp [UserRegs.call]

/-- **The registers across a call.** They are preserved unless `monitor_mmap` put a mapped
descriptor into `r8` on entry, or `monitor_getsockname` replied on exit, with the address of its
copy of the length in `rdx`. -/
theorem registers_preserved_iff (hstart : Initial start) (hrun : Run (Step acts) start reps s)
    (h : CompletedCall acts s rep rep' s' t) :
    t.world.tracee.regs.call = rep.tracee.regs.call ↔
      ¬ (choice acts rep.tracee.regs.orig_rax = .os ∧
          cInt rep.tracee.regs.orig_rax = OsCall.mmap.nr ∧ MapsAway s rep) ∧
        ¬ (IsGetsockname acts rep.tracee.regs.orig_rax ∧
          GetsocknameReplies rep'.env (s'.world.atStop rep'.tracee) (argsOf rep'.tracee.regs) ∧
          rep'.env.heapAddr 1 ≠ rep.tracee.regs.rdx) := by
  obtain ⟨hcall, hflag'⟩ := h.call_at_exit (flagFits_run hstart hrun h.enters.1)
  obtain ⟨-, hent⟩ := entering_at_exit hflag' h.leaves.2.1 h.exit
  have horig : rep'.tracee.regs.orig_rax = rep.tracee.regs.orig_rax :=
    congrArg HostCall.number hcall
  rw [← entryR8_ne_iff, not_not, h.leaves.2.2, step_world]
  by_cases hg : IsGetsockname acts rep.tracee.regs.orig_rax
  · -- `getsockname`: nothing happened on entry
    have hr8 : entryR8 acts s rep = rep.tracee.regs.r8 := entryR8_of_lind hg.1
    have hph : HasPhases acts rep'.tracee.regs.orig_rax := by
      rw [horig, HasPhases, hg.1]
      trivial
    rw [decide_eq_true hph] at hent
    rw [hr8] at hcall
    obtain ⟨hyes, hno⟩ := round_exit_getsockname (.inr h.exit) hent (horig ▸ hg)
    by_cases hr : GetsocknameReplies rep'.env (s'.world.atStop rep'.tracee)
        (argsOf rep'.tracee.regs)
    · have hrdx : { rep'.tracee.regs with rdx := rep'.env.heapAddr 1 }.call =
          { rep.tracee.regs with rdx := rep'.env.heapAddr 1 }.call := by
        simp only [UserRegs.call, HostCall.mk.injEq, List.cons.injEq] at hcall ⊢
        exact ⟨hcall.1, hcall.2.1, hcall.2.2.1, trivial, hcall.2.2.2.2⟩
      rw [hyes hr, hrdx, call_rdx_eq_iff]
      simp [hg, hr, hr8]
    · rw [hno hr, hcall]
      simp [hr, hr8]
  · rw [round_exit_call (.inr h.exit) hent (horig ▸ hg), hcall, call_r8_eq_iff]
    simp [hg]

/-- The completed call of `getuidEntry` and `getuidExit`. -/
theorem completedCall_getuid : CompletedCall lindActs bootSys getuidEntry getuidExit
    (bootSys.step lindActs getuidEntry)
    ((bootSys.step lindActs getuidEntry).step lindActs getuidExit) where
  entry := rfl
  exit := rfl
  allowed := by decide
  between := ⟨[], .nil⟩
  enters := ⟨rfl, trivial, rfl⟩
  leaves := ⟨rfl, ⟨rfl, by decide⟩, rfl⟩
  kernel := by
    rintro r h
    cases h
    rfl

theorem registers_preserved_iff_getuid :
    let s' := bootSys.step lindActs getuidEntry
    (s'.step lindActs getuidExit).world.tracee.regs.call = getuidEntry.tracee.regs.call ↔
      ¬ (choice lindActs getuidEntry.tracee.regs.orig_rax = .os ∧
          cInt getuidEntry.tracee.regs.orig_rax = OsCall.mmap.nr ∧
          MapsAway bootSys getuidEntry) ∧
        ¬ (IsGetsockname lindActs getuidEntry.tracee.regs.orig_rax ∧
          GetsocknameReplies getuidExit.env (s'.world.atStop getuidExit.tracee)
            (argsOf getuidExit.tracee.regs) ∧
          getuidExit.env.heapAddr 1 ≠ getuidEntry.tracee.regs.rdx) :=
  registers_preserved_iff initial_bootSys .nil completedCall_getuid

/-- The registers of an `mmap` of descriptor 3, and after the table gave no descriptor for it. -/
def mmapRegs (fd : Word) : UserRegs := { callRegs 9 with r8 := fd }

/-- The entry stop of an `mmap` of descriptor 3. -/
def mmapEntry : Report := ⟨.entry, ⟨mmapRegs 3, nullMemory⟩, steadyEnv none⟩

/-- Its exit stop. -/
def mmapExit : Report := ⟨.exit, ⟨mmapRegs (-1), nullMemory⟩, steadyEnv none⟩

theorem completedCall_mmap : CompletedCall osActs bootSys mmapEntry mmapExit
    (bootSys.step osActs mmapEntry) ((bootSys.step osActs mmapEntry).step osActs mmapExit) where
  entry := rfl
  exit := rfl
  allowed := by decide
  between := ⟨[], .nil⟩
  enters := ⟨rfl, trivial, rfl⟩
  leaves := ⟨rfl, ⟨rfl, by decide⟩, rfl⟩
  kernel := by
    rintro r h
    cases h
    rfl

/-- Registers are not always preserved: after `mmap` of descriptor 3, `r8` is `-1`. -/
theorem not_registers_preserved : ¬ ∀ (acts : Actions) (start s s' t : Sys) (reps : List Report)
    (rep rep' : Report), Initial start → Run (Step acts) start reps s →
      CompletedCall acts s rep rep' s' t →
      t.world.tracee.regs.call = rep.tracee.regs.call := fun h ↦
  absurd (h osActs bootSys bootSys _ _ [] mmapEntry mmapExit initial_bootSys .nil
    completedCall_mmap) (by decide)

end ReferenceMonitor
