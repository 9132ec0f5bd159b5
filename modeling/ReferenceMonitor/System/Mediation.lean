import ReferenceMonitor.Library.Logs
import ReferenceMonitor.Monitor.Judgements
import ReferenceMonitor.System.Denial

/-!
# Every call goes through the policy

A reference monitor has to be asked about every access. Here that means: over a whole run the policy
table is looked at once for every syscall stop, at the number the stop shows and in the order of the
stops, and not otherwise; and what the host kernel executes are the calls of the entry stops, in
their order, each as the tracee made it but for the descriptor of an `mmap` left to the host.
-/

namespace ReferenceMonitor

open Halting

/-! ### The table is looked at once for each stop -/

/-- The index of a look at the policy table. -/
def Event.lookup : Event → Option ℤ
  | actionsAt i => some i
  | _ => none

/-- The numbers looked up in the policy table, newest first. -/
def World.lookups (w : World) : List ℤ := w.trace.filterMap Event.lookup

/-- The number a syscall stop shows, as it is looked up. -/
def Report.lookup (rep : Report) : Option ℤ :=
  if rep.stop = .entry ∨ rep.stop = .exit then some (cInt rep.tracee.regs.orig_rax) else none

theorem lookups_fetch {α : Type} (q : Fetch α) : Keeps (SameLog World.lookups) (fetch q) :=
  keeps_focus q fun _ _ ↦ by
    simp [SameLog, World.lookups, List.filterMap_append, List.filterMap_map, Function.comp_def,
      Event.lookup]

theorem observes_lookups : Observes (SameLog World.lookups) where
  branch _ _ := keeps_modify fun _ ↦ rfl
  read _ := lookups_fetch _
  setEntering _ := keeps_modify fun _ ↦ rfl

/-- No handler looks at the table. -/
theorem handles_lookups : Handles (fun _ _ ↦ True) fun _ x ↦ Keeps (SameLog World.lookups) x where
  toCompositional := compositional_keeps _
  reads := fetches_true
  fetch _ := lookups_fetch _
  fault _ := keeps_stop _
  send _ _ _ := rfl
  setErrno _ := keeps_modify fun _ ↦ rfl
  addMapping _ _ := (keeps_pure _).ite (keeps_modify fun _ ↦ rfl)
  getMapping := keeps_getMapping
  name _ := keeps_modify fun _ ↦ rfl
  getRegs := keeps_getRegs
  setRetval _ := keeps_modify fun _ ↦ rfl
  setArg3 _ := keeps_modify fun _ ↦ rfl
  setArg5 _ := keeps_modify fun _ ↦ rfl
  setArgs := keeps_modify fun _ ↦ rfl
  setMem _ _ _ _ _ := rfl
  phased := observes_lookups.phased

theorem lookups_round (acts : Actions) (s : Sys) (rep : Report) :
    (s.round acts rep).state.lookups = rep.lookup.toList ++ s.world.lookups := by
  by_cases hstop : rep.stop.IsSyscall
  · have hhandler : Keeps (SameLog World.lookups)
        ((choice acts rep.tracee.regs.orig_rax).handler rep.tracee.regs.orig_rax) := by
      cases choice acts rep.tracee.regs.orig_rax with
      | deny => exact handles_monitorDeny handles_lookups (keeps_stop _)
      | os => exact handles_osHandlerOf handles_lookups _
      | lind => exact handles_emulated handles_lookups (handles_emulationOf handles_lookups _)
      | nothing => exact keeps_pure _
    rw [state_round_syscall acts s hstop, show rep.lookup = _ from if_pos hstop]
    exact hhandler rep.env (s.world.atStop rep.tracee)
  · obtain ⟨regs, hstate⟩ := state_round_of_not_syscall acts s hstop
    rw [hstate, show rep.lookup = none from if_neg hstop]
    rfl

/-! ### The host kernel executes what was looked up -/

/-- The host kernel executes a call as the tracee made it at an entry stop, but for the descriptor
of an `mmap` that is left to it. -/
def Executes (acts : Actions) (rep : Report) (call : HostCall) : Prop :=
  ∃ r8, call = { rep.tracee.regs with r8 := r8 }.call ∧
    (r8 = rep.tracee.regs.r8 ∨
      choice acts rep.tracee.regs.orig_rax = .os ∧
        cInt rep.tracee.regs.orig_rax = OsCall.mmap.nr ∧ 0 ≤ rep.tracee.regs.r8.toInt)

theorem executes_entryR8 (acts : Actions) (s : Sys) (rep : Report) :
    Executes acts rep { rep.tracee.regs with r8 := entryR8 acts s rep }.call := by
  refine ⟨_, rfl, ?_⟩
  by_cases h : entryR8 acts s rep = rep.tracee.regs.r8
  · exact .inl h
  · obtain ⟨hos, hmmap, hmaps⟩ := entryR8_ne_iff.1 h
    exact .inr ⟨hos, hmmap, hmaps.1⟩

/-- The entry stops of a run. -/
def entries (reps : List Report) : List Report := reps.filter fun rep ↦ rep.stop = .entry

theorem executed_step {acts : Actions} {s t : Sys} {rep : Report}
    (hflag : FlagFits acts s) (hstep : Step acts s rep t) :
    ∃ calls, t.executed = calls.reverse ++ s.executed ∧
      List.Forall₂ (Executes acts) (entries [rep]) calls := by
  obtain ⟨-, hlegal, rfl⟩ := hstep
  by_cases hentry : rep.stop = .entry
  · refine ⟨[{ rep.tracee.regs with r8 := entryR8 acts s rep }.call], ?_, ?_⟩
    · rw [(step_entry acts s hentry).2,
        round_entry_call (.inl hentry) (entering_at_entry hflag hlegal hentry)]
      rfl
    · rw [entries, List.filter_singleton, decide_eq_true hentry]
      exact .cons (executes_entryR8 acts s rep) .nil
  · refine ⟨[], ?_, ?_⟩
    · by_cases hexit : rep.stop = .exit
      · exact (step_exit acts s hexit).2
      · exact (step_other acts s hentry hexit).2
    · rw [entries, List.filter_singleton, decide_eq_false hentry]
      exact .nil

/-- **Complete mediation.** In every run the policy is asked once about every syscall stop, in
order, and the host kernel has executed the calls of the entry stops, in order, and no other. -/
theorem mediated_run {acts : Actions} {start s : Sys} {reps : List Report} (hstart : Initial start)
    (hrun : Run (Step acts) start reps s) :
    s.world.lookups.reverse = reps.filterMap Report.lookup ∧
      List.Forall₂ (Executes acts) (entries reps) s.executed.reverse := by
  induction hrun with
  | nil => simp [World.lookups, hstart.trace, hstart.executed, entries]
  | @snoc reps s t rep hrun' hstep ih =>
    obtain ⟨calls, hcalls, hexec⟩ := executed_step (flagFits_run hstart hrun' hstep.1) hstep
    have hlookups : t.world.lookups = rep.lookup.toList ++ s.world.lookups := by
      rw [hstep.2.2, step_world, lookups_round]
    constructor
    · rw [hlookups, List.reverse_append, ih.1, List.filterMap_append]
      cases hl : rep.lookup <;> simp [hl]
    · rw [hcalls, List.reverse_append, List.reverse_reverse, entries, List.filter_append]
      exact List.rel_append ih.2 hexec

/-- The policy is asked twice about a `getuid`, and the host kernel executes it once. -/
theorem mediated_run_getuid :
    ((bootSys.step lindActs getuidEntry).step lindActs getuidExit).world.lookups.reverse =
        [102, 102] ∧
      List.Forall₂ (Executes lindActs) [getuidEntry]
        ((bootSys.step lindActs getuidEntry).step lindActs getuidExit).executed.reverse :=
  mediated_run initial_bootSys (run_getuid.mono And.left)

end ReferenceMonitor
