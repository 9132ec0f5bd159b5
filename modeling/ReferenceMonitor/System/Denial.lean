import ReferenceMonitor.System.Phases

/-!
# What the host kernel executes

A call is executed when its entry stop is left, with the registers as the round left them, whether
the monitor is still running or not. At an entry stop the flag is set, so that only an entering
branch can have changed the registers, and the only one that touches a call is that of
`monitor_mmap` (`round_entry_call`). It follows that a denied call is executed, and that a call
without an action is executed too.
-/

namespace ReferenceMonitor

open Halting

/-! ### The call after an entering branch -/

/-- `r8` when the entry stop is left: `monitor_mmap` puts the mapped descriptor there. -/
def entryR8 (acts : Actions) (s : Sys) (rep : Report) : Word :=
  let r := rep.tracee.regs
  if choice acts r.orig_rax = .os ∧ cInt r.orig_rax = OsCall.mmap.nr ∧ 0 ≤ r.r8.toInt then
    match lookupFd rep.env s.world.mappings (cInt r.r8) with
    | some v => ofInt v
    | none => r.r8
  else r.r8

/-- Only a call of `mmap` that is left to the host gets another `r8`. -/
theorem entryR8_of_not_mmap {acts : Actions} {s : Sys} {rep : Report}
    (h : ¬ (choice acts rep.tracee.regs.orig_rax = .os ∧
      cInt rep.tracee.regs.orig_rax = OsCall.mmap.nr)) :
    entryR8 acts s rep = rep.tracee.regs.r8 := if_neg fun hc ↦ h ⟨hc.1, hc.2.1⟩

theorem entryR8_of_lind {acts : Actions} {s : Sys} {rep : Report}
    (h : choice acts rep.tracee.regs.orig_rax = .lind) :
    entryR8 acts s rep = rep.tracee.regs.r8 := entryR8_of_not_mmap (by simp [h])

/-- `monitor_mmap` at an entry stop. -/
theorem monitorMmap_entering (env : Env) {s : Sys} {t : Tracee} (h : s.world.entering = true) :
    (monitorMmap env (s.world.atStop t)).state.tracee.regs.call =
      { t.regs with
        r8 := if 0 ≤ t.regs.r8.toInt then
            match lookupFd env s.world.mappings (cInt t.regs.r8) with
            | some v => ofInt v
            | none => t.regs.r8
          else t.regs.r8 }.call := by
  rw [monitorMmap, phased_of_entering _ _ _ (show (s.world.atStop t).entering = true from h)]
  simp only [bind_apply, getRegs, get_apply, pure_apply, Outcome.andThen_done, ite_run,
    World.atStop, argsOf]
  split
  · simp only [getMapping, bind_apply, ask_apply, get_apply, Outcome.andThen_done]
    cases lookupFd env s.world.mappings (cInt t.regs.r8) <;> rfl
  · rfl

/-- The call in the registers when an entry stop is left. -/
theorem round_entry_call {acts : Actions} {s : Sys} {rep : Report} (hstop : rep.stop.IsSyscall)
    (hflag : s.world.entering = true) :
    (s.round acts rep).state.tracee.regs.call =
      { rep.tracee.regs with r8 := entryR8 acts s rep }.call := by
  by_cases hlind : choice acts rep.tracee.regs.orig_rax = .lind
  · rw [round_entering hstop hflag hlind, entryR8_of_lind hlind]
    rfl
  by_cases hmmap : choice acts rep.tracee.regs.orig_rax = .os ∧
      cInt rep.tracee.regs.orig_rax = OsCall.mmap.nr
  · have hh : osHandlerOf (cInt rep.tracee.regs.orig_rax) = monitorMmap := by rw [hmmap.2]; rfl
    have hm := monitorMmap_entering rep.env (t := rep.tracee) hflag
    rw [state_round_syscall acts s hstop, hmmap.1, Choice.handler, hh]
    simp only [entryR8, hmmap.1, hmmap.2, true_and]
    exact hm
  · rw [entryR8_of_not_mmap hmmap]
    refine round_regs ignoresRax_call acts s hstop ?_
    rintro (⟨h, -, -⟩ | ⟨h, h', -⟩)
    · exact hlind h
    · exact hmmap ⟨h, h'⟩

/-! ### Execution -/

/-- The host kernel executed the call between the two states. -/
def ExecutedIn (s t : Sys) (c : HostCall) : Prop := ∃ cs, t.executed = cs ++ s.executed ∧ c ∈ cs

/-- The call was refused between the two states. -/
def Refused (s t : Sys) (c : HostCall) : Prop := ¬ ExecutedIn s t c

theorem executedIn_cons_iff {s t : Sys} {c d : HostCall} (h : t.executed = d :: s.executed) :
    ExecutedIn s t c ↔ c = d := by
  constructor
  · rintro ⟨cs, hcs, hc⟩
    have hd : [d] = cs := List.append_cancel_right (by rw [← hcs, h]; rfl)
    rw [← hd] at hc
    exact List.mem_singleton.1 hc
  · rintro rfl
    exact ⟨[c], h, List.mem_singleton_self c⟩

/-- The flag at an entry stop of a run. -/
theorem entering_of_run {acts : Actions} {start s t : Sys} {reps : List Report} {rep : Report}
    (hstart : Initial start) (hrun : Run (Step acts) start reps s) (hstep : Step acts s rep t)
    (hentry : rep.stop = .entry) : s.world.entering = true :=
  entering_at_entry (flagFits_run hstart hrun hstep.1) hstep.2.1 hentry

/-- What is executed when an entry stop is left. -/
theorem executedIn_entry_iff {acts : Actions} {start s t : Sys} {reps : List Report} {rep : Report}
    (hstart : Initial start) (hrun : Run (Step acts) start reps s) (hstep : Step acts s rep t)
    (hentry : rep.stop = .entry) {c : HostCall} :
    ExecutedIn s t c ↔ c = { rep.tracee.regs with r8 := entryR8 acts s rep }.call := by
  have hflag := entering_of_run hstart hrun hstep hentry
  obtain ⟨-, -, rfl⟩ := hstep
  rw [executedIn_cons_iff (step_entry acts s hentry).2, round_entry_call (.inl hentry) hflag]

/-- A call is refused exactly when `monitor_mmap` changed its descriptor. -/
theorem refused_iff {acts : Actions} {start s t : Sys} {reps : List Report} {rep : Report}
    (hstart : Initial start) (hrun : Run (Step acts) start reps s) (hstep : Step acts s rep t)
    (hentry : rep.stop = .entry) :
    Refused s t rep.tracee.regs.call ↔ entryR8 acts s rep ≠ rep.tracee.regs.r8 := by
  rw [Refused, executedIn_entry_iff hstart hrun hstep hentry, not_iff_not]
  constructor
  · intro h
    simp only [UserRegs.call, HostCall.mk.injEq, List.cons.injEq, true_and, and_true] at h
    exact h.symm
  · intro h
    rw [h]

/-! ### Denied calls -/

/-- **A denied call is executed.** Every call whose action is `DENY_LIND` is executed by the host
kernel, once the monitor has ended. -/
theorem denied_not_refused {acts : Actions} {start s t : Sys} {reps : List Report} {rep : Report}
    (hstart : Initial start) (hrun : Run (Step acts) start reps s) (hstep : Step acts s rep t)
    (hentry : rep.stop = .entry) (hdeny : choice acts rep.tracee.regs.orig_rax = .deny) :
    t.alive = false ∧ ¬ Refused s t rep.tracee.regs.call := by
  refine ⟨?_, ?_⟩
  · rw [hstep.2.2, step_alive, not_goesOn_of_deny (.inl hentry) hdeny]
  · rw [refused_iff hstart hrun hstep hentry, not_not]
    exact if_neg (by simp [hdeny])

/-- The entry stop of `unlink`. -/
def unlinkEntry : Report := ⟨.entry, ⟨callRegs 87, nullMemory⟩, steadyEnv none⟩

/-- The policy that denies everything. -/
def denyActs : Actions := fun _ ↦ DENY_LIND

theorem step_unlinkEntry (acts : Actions) :
    Step acts bootSys unlinkEntry (bootSys.step acts unlinkEntry) := ⟨rfl, trivial, rfl⟩

theorem denied_not_refused_unlink :
    (bootSys.step denyActs unlinkEntry).alive = false ∧
      ¬ Refused bootSys (bootSys.step denyActs unlinkEntry) (callRegs 87).call :=
  denied_not_refused initial_bootSys .nil (step_unlinkEntry denyActs) rfl (by decide)

/-- Denied calls are not always refused: `unlink` under a policy that denies it. -/
theorem not_denied_refused : ¬ ∀ (acts : Actions) (start s t : Sys) (reps : List Report)
    (rep : Report), Initial start → Run (Step acts) start reps s → Step acts s rep t →
      rep.stop = .entry → choice acts rep.tracee.regs.orig_rax = .deny →
      Refused s t rep.tracee.regs.call := fun h ↦
  h denyActs bootSys bootSys _ [] unlinkEntry initial_bootSys .nil (step_unlinkEntry denyActs) rfl
    (by decide) ⟨[(callRegs 87).call], by decide, by decide⟩

/-! ### Calls without an action -/

/-- The descriptor of an `mmap` is mapped to another one. -/
def MapsAway (s : Sys) (rep : Report) : Prop :=
  0 ≤ rep.tracee.regs.r8.toInt ∧
    ∃ v, lookupFd rep.env s.world.mappings (cInt rep.tracee.regs.r8) = some v ∧
      ofInt v ≠ rep.tracee.regs.r8

theorem entryR8_ne_iff {acts : Actions} {s : Sys} {rep : Report} :
    entryR8 acts s rep ≠ rep.tracee.regs.r8 ↔
      choice acts rep.tracee.regs.orig_rax = .os ∧
        cInt rep.tracee.regs.orig_rax = OsCall.mmap.nr ∧ MapsAway s rep := by
  rw [entryR8, MapsAway]
  by_cases hc : choice acts rep.tracee.regs.orig_rax = .os ∧
      cInt rep.tracee.regs.orig_rax = OsCall.mmap.nr ∧ 0 ≤ rep.tracee.regs.r8.toInt
  · rw [if_pos hc]
    cases lookupFd rep.env s.world.mappings (cInt rep.tracee.regs.r8) <;> simp [hc]
  · rw [if_neg hc]
    simp only [ne_eq, not_true_eq_false, false_iff]
    exact fun h ↦ hc ⟨h.1, h.2.1, h.2.2.1⟩

/-- **Calls without an action are executed.** A call that the configuration gives no action, or
whose number lies outside the table, is refused only by accident: where its low half is the number
of `mmap`, which the policy leaves to the host, and the descriptor it passes is mapped away. -/
theorem unassigned_refused_iff {around acts : Actions} {file : List Char}
    (hload : loadConfig around file = .ok acts) {start s t : Sys} {reps : List Report}
    {rep : Report} (hstart : Initial start) (hrun : Run (Step acts) start reps s)
    (hstep : Step acts s rep t) (hentry : rep.stop = .entry)
    (hnone : ¬ Names file rep.tracee.regs.orig_rax.toInt ∨
      ¬ InTable rep.tracee.regs.orig_rax.toInt) :
    Refused s t rep.tracee.regs.call ↔
      ¬ InTable rep.tracee.regs.orig_rax.toInt ∧ choice acts rep.tracee.regs.orig_rax = .os ∧
        cInt rep.tracee.regs.orig_rax = OsCall.mmap.nr ∧ MapsAway s rep := by
  rw [refused_iff hstart hrun hstep hentry, entryR8_ne_iff]
  refine ⟨fun h ↦ ⟨fun hin ↦ ?_, h⟩, And.right⟩
  -- in the table, the entry is still `NO_VAL`, and no handler runs
  have hacts := loadConfig_eq_noVal hload (hnone.resolve_right (not_not.2 hin)) hin
  rw [choice, cInt_of_inTable hin, hacts] at h
  exact absurd h.1 (by decide)

theorem loadConfig_nil (around : Actions) : loadConfig around [] = .ok (emptyActions around) := rfl

theorem not_names_nil (n : ℤ) : ¬ Names [] n := by
  rintro ⟨buff, h, -⟩
  exact absurd h (List.not_mem_nil)

theorem unassigned_refused_iff_unlink :
    let n := unlinkEntry.tracee.regs.orig_rax
    Refused bootSys (bootSys.step (emptyActions lindActs) unlinkEntry)
        unlinkEntry.tracee.regs.call ↔
      ¬ InTable n.toInt ∧ choice (emptyActions lindActs) n = .os ∧ cInt n = OsCall.mmap.nr ∧
        MapsAway bootSys unlinkEntry :=
  unassigned_refused_iff (loadConfig_nil lindActs) initial_bootSys .nil (step_unlinkEntry _) rfl
    (.inl (not_names_nil _))

theorem unlink_executed (acts : Actions) :
    ¬ Refused bootSys (bootSys.step acts unlinkEntry) unlinkEntry.tracee.regs.call := by
  rw [refused_iff initial_bootSys .nil (step_unlinkEntry acts) rfl, not_not]
  exact if_neg fun hm ↦ absurd hm.2.1 (by decide)

/-- Calls without an action are not refused: `unlink` under an empty configuration. -/
theorem not_unassigned_refused : ¬ ∀ (around acts : Actions) (file : List Char) (start s t : Sys)
    (reps : List Report) (rep : Report), loadConfig around file = .ok acts → Initial start →
      Run (Step acts) start reps s → Step acts s rep t → rep.stop = .entry →
      (¬ Names file rep.tracee.regs.orig_rax.toInt ∨
        ¬ InTable rep.tracee.regs.orig_rax.toInt) →
      Refused s t rep.tracee.regs.call := fun h ↦
  unlink_executed (emptyActions lindActs) (h lindActs (emptyActions lindActs) [] bootSys bootSys
    (bootSys.step (emptyActions lindActs) unlinkEntry) [] unlinkEntry (loadConfig_nil lindActs)
    initial_bootSys .nil (step_unlinkEntry (emptyActions lindActs)) rfl (.inl (not_names_nil _)))

end ReferenceMonitor
