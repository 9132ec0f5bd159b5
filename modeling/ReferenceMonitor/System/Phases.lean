import ReferenceMonitor.System.Registers

/-!
# Phases

The flag `entering` is the monitor's only record of which stop comes next. In every run it fits
where the tracee is (`FlagFits`): outside a call it is set, and inside it is cleared exactly when
the call's handler has phases. Where every number lies in the table, the exit branches taken so far
are then the completed calls, in order (`phases_kept`).
-/

namespace ReferenceMonitor

open Halting

/-- The handler of the call toggles the flag. -/
def HasPhases (acts : Actions) (n : Word) : Prop :=
  match choice acts n with
  | .nothing => False
  | .os => ¬ Phaseless (cInt n)
  | _ => True

instance (acts : Actions) (n : Word) : Decidable (HasPhases acts n) := by
  unfold HasPhases
  split <;> infer_instance

theorem toggles_handler {acts : Actions} {n : Word} (h : HasPhases acts n) :
    Toggles ((choice acts n).handler n) := by
  rw [HasPhases] at h
  cases hc : choice acts n with
  | deny => exact toggles_monitorDeny
  | os => exact toggles_osHandlerOf (by rwa [hc] at h)
  | lind => exact toggles_emulated _
  | nothing => simp [hc] at h

/-- A handler without phases does nothing at all. -/
theorem handler_of_not_hasPhases {acts : Actions} {n : Word} (h : ¬ HasPhases acts n) :
    (choice acts n).handler n = pure () := by
  rw [HasPhases] at h
  cases hc : choice acts n with
  | deny => simp [hc] at h
  | os => exact osHandlerOf_of_phaseless (by simpa [hc] using h)
  | lind => simp [hc] at h
  | nothing => rfl

/-! ### Numbers in the table -/

theorem cInt_of_inTable {n : Word} (h : InTable n.toInt) : cInt n = n.toInt := by
  obtain ⟨h0, hlt⟩ := inTable_iff.1 h
  have hn : n.toNat < 314 := by
    have := BitVec.toInt_eq_toNat_cond n
    split at this <;> omega
  rw [cInt, BitVec.toInt_setWidth, Int.bmod_eq_of_le (by omega) (by omega),
    BitVec.toInt_eq_toNat_of_lt (by omega)]

theorem neverReturns_of_phaseless {n : Word} (h : InTable n.toInt) (hp : Phaseless (cInt n)) :
    NeverReturns n := by
  rw [cInt_of_inTable h] at hp
  rcases hp with hp | hp
  · exact .inl (BitVec.eq_of_toInt_eq hp)
  · exact .inr (BitVec.eq_of_toInt_eq hp)

/-- The report's number lies in the table, where it is read. -/
def NumberInTable (rep : Report) : Prop :=
  rep.stop.IsSyscall → InTable rep.tracee.regs.orig_rax.toInt

/-! ### The history of a run -/

/-- The calls whose exit branch was taken, in order. -/
def World.left (w : World) : List Word :=
  (w.branches.filterMap fun e ↦ match e with | .branch false n => some n | _ => none).reverse

/-- The report completes a call that the policy allows. -/
def completes (acts : Actions) (rep : Report) : Option Word :=
  if rep.stop = .exit ∧ (choice acts rep.tracee.regs.orig_rax = .lind ∨
      choice acts rep.tracee.regs.orig_rax = .os) then some rep.tracee.regs.orig_rax
  else none

/-- The flag, given where the tracee is. -/
def FlagFits (acts : Actions) (s : Sys) : Prop :=
  match s.phase with
  | .user => s.world.entering = true
  | .kernel r => choice acts r.orig_rax ≠ .deny ∧
      s.world.entering = !decide (HasPhases acts r.orig_rax)

/-! ### One step -/

/-- The flag and the history after a round that takes an entering branch, or none. -/
theorem round_at_entry (acts : Actions) {s : Sys} {rep : Report} (hstop : rep.stop.IsSyscall)
    (hflag : s.world.entering = true) :
    let w := (s.round acts rep).state
    w.requests = s.world.requests ∧ w.tracee.mem = rep.tracee.mem ∧
      w.marks = (if HasPhases acts rep.tracee.regs.orig_rax
        then [.branch true rep.tracee.regs.orig_rax] else []) ++ s.world.marks ∧
      w.entering = !decide (HasPhases acts rep.tracee.regs.orig_rax) := by
  rw [state_round_syscall acts s hstop]
  by_cases h : HasPhases acts rep.tracee.regs.orig_rax
  · rw [if_pos h, decide_eq_true h]
    exact (toggles_handler h).enter rep.env (s.world.atStop rep.tracee) hflag
  · rw [handler_of_not_hasPhases h, if_neg h, decide_eq_false h]
    exact ⟨rfl, rfl, rfl, hflag⟩

/-- The flag and the history after a round that takes a leaving branch. -/
theorem round_at_exit {acts : Actions} {s : Sys} {rep : Report} (hstop : rep.stop.IsSyscall)
    (hflag : s.world.entering = false) (h : HasPhases acts rep.tracee.regs.orig_rax) :
    (s.round acts rep).state.branches =
        .branch false rep.tracee.regs.orig_rax :: s.world.branches ∧
      (goesOn (s.round acts rep) = true → (s.round acts rep).state.entering = true) := by
  rw [round_syscall acts s hstop]
  have ht := (toggles_handler h).leave rep.env (s.world.atStop rep.tracee) hflag
  generalize (choice acts rep.tracee.regs.orig_rax).handler rep.tracee.regs.orig_rax rep.env
    (s.world.atStop rep.tracee) = o at ht ⊢
  cases o with
  | done u w => exact ⟨ht.1, fun _ ↦ ht.2 trivial⟩
  | halt e w => exact ⟨ht.1, fun hg ↦ by cases hg⟩

theorem round_not_syscall {acts : Actions} {s : Sys} {rep : Report}
    (hstop : ¬ rep.stop.IsSyscall) :
    (s.round acts rep).state.marks = s.world.marks ∧
      (s.round acts rep).state.entering = s.world.entering := by
  obtain ⟨regs, hstate⟩ := state_round_of_not_syscall acts s hstop
  rw [hstate]
  exact ⟨rfl, rfl⟩

theorem World.left_eq_of_branches {w w' : World} (h : w'.branches = w.branches) :
    w'.left = w.left := by
  rw [World.left, World.left, h]

theorem branches_eq_of_marks {w w' : World} {l : List Event} (h : w'.marks = l ++ w.marks) :
    w'.branches = l.filter Event.isBranch ++ w.branches := by
  rw [branches_eq_filter_marks, branches_eq_filter_marks, h, List.filter_append]

theorem entering_at_entry {acts : Actions} {s : Sys} {rep : Report} (hflag : FlagFits acts s)
    (hlegal : Legal s rep) (hentry : rep.stop = .entry) : s.world.entering = true := by
  rwa [FlagFits, phase_of_legal_entry hlegal hentry] at hflag

theorem entering_at_exit {acts : Actions} {s : Sys} {rep : Report} (hflag : FlagFits acts s)
    (hlegal : Legal s rep) (hexit : rep.stop = .exit) :
    choice acts rep.tracee.regs.orig_rax ≠ .deny ∧
      s.world.entering = !decide (HasPhases acts rep.tracee.regs.orig_rax) := by
  obtain ⟨r, hp, hsame, -⟩ := phase_of_legal_exit hlegal hexit
  rw [FlagFits, hp] at hflag
  rw [hsame]
  exact hflag

/-- A denial is the last round. -/
theorem not_goesOn_of_deny {acts : Actions} {s : Sys} {rep : Report} (hstop : rep.stop.IsSyscall)
    (hdeny : choice acts rep.tracee.regs.orig_rax = .deny) :
    goesOn (s.round acts rep) = false := by
  rw [round_syscall acts s hstop, hdeny]
  cases Choice.deny.handler rep.tracee.regs.orig_rax rep.env (s.world.atStop rep.tracee) <;> rfl

/-- **One step** keeps the flag where it belongs. -/
theorem flagFits_step {acts : Actions} {s t : Sys} {rep : Report} (hflag : FlagFits acts s)
    (hstep : Step acts s rep t) (halive : t.alive = true) : FlagFits acts t := by
  obtain ⟨-, hlegal, rfl⟩ := hstep
  rw [step_alive] at halive
  rw [FlagFits, step_world]
  by_cases hentry : rep.stop = .entry
  · obtain ⟨-, -, -, hent⟩ :=
      round_at_entry acts (.inl hentry) (entering_at_entry hflag hlegal hentry)
    rw [(step_entry acts s hentry).1]
    dsimp only
    rw [round_orig_rax acts s (.inl hentry)]
    refine ⟨fun hdeny ↦ ?_, hent⟩
    rw [not_goesOn_of_deny (.inl hentry) hdeny] at halive
    cases halive
  by_cases hexit : rep.stop = .exit
  · obtain ⟨-, hent⟩ := entering_at_exit hflag hlegal hexit
    rw [(step_exit acts s hexit).1]
    by_cases hph : HasPhases acts rep.tracee.regs.orig_rax
    · rw [decide_eq_true hph] at hent
      exact (round_at_exit (.inr hexit) hent hph).2 halive
    · -- no branch was taken on entry and none is now: the flag has stayed set
      rw [decide_eq_false hph] at hent
      have hent' := (round_at_entry acts (.inr hexit) hent).2.2.2
      rwa [decide_eq_false hph] at hent'
  · rw [(step_other acts s hentry hexit).1,
      (round_not_syscall (by rintro (h | h); exacts [hentry h, hexit h])).2]
    exact hflag

/-- **Every run** keeps the flag where it belongs. -/
theorem flagFits_run {acts : Actions} {start s : Sys} {reps : List Report} (hstart : Initial start)
    (hrun : Run (Step acts) start reps s) : s.alive = true → FlagFits acts s := by
  refine hrun.invariant (I := fun _ s ↦ s.alive = true → FlagFits acts s) (fun _ ↦ ?_)
    fun _ hinv hstep ↦ flagFits_step (hinv hstep.1) hstep
  rw [FlagFits, hstart.phase]
  exact hstart.entering

/-! ### Numbers in the table, and the history -/

/-- The steps whose numbers lie in the table. -/
def TableStep (acts : Actions) (s : Sys) (rep : Report) (t : Sys) : Prop :=
  Step acts s rep t ∧ NumberInTable rep

/-- In the table, a handler without phases is that of a call that does not return. -/
theorem choice_of_not_hasPhases {acts : Actions} {n : Word} (hin : InTable n.toInt)
    (hret : ¬ NeverReturns n) (hph : ¬ HasPhases acts n) : choice acts n = .nothing := by
  rw [HasPhases] at hph
  cases hc : choice acts n with
  | deny => simp [hc] at hph
  | os => exact absurd (neverReturns_of_phaseless hin (by simpa [hc] using hph)) hret
  | lind => simp [hc] at hph
  | nothing => rfl

/-- The branch taken in one step, and what an entering branch leaves alone. -/
theorem branch_step {acts : Actions} {s t : Sys} {rep : Report} (hflag : FlagFits acts s)
    (hstep : TableStep acts s rep t) :
    (rep.stop = .entry →
      t.world.requests = s.world.requests ∧ t.world.tracee.mem = rep.tracee.mem ∧
        t.world.marks = (if HasPhases acts rep.tracee.regs.orig_rax
          then [.branch true rep.tracee.regs.orig_rax] else []) ++ s.world.marks) ∧
    (rep.stop = .exit →
      t.world.branches = ((completes acts rep).map (Event.branch false)).toList ++
        s.world.branches) := by
  obtain ⟨⟨-, hlegal, rfl⟩, hin⟩ := hstep
  rw [step_world]
  constructor
  · intro hentry
    obtain ⟨hreq, hmem, hmarks, -⟩ :=
      round_at_entry acts (.inl hentry) (entering_at_entry hflag hlegal hentry)
    exact ⟨hreq, hmem, hmarks⟩
  · intro hexit
    obtain ⟨r, -, hsame, hret⟩ := phase_of_legal_exit hlegal hexit
    obtain ⟨hdeny, hent⟩ := entering_at_exit hflag hlegal hexit
    by_cases hph : HasPhases acts rep.tracee.regs.orig_rax
    · rw [decide_eq_true hph] at hent
      have hsome : completes acts rep = some rep.tracee.regs.orig_rax := by
        refine if_pos ⟨hexit, ?_⟩
        rw [HasPhases] at hph
        cases hc : choice acts rep.tracee.regs.orig_rax with
        | deny => exact absurd hc hdeny
        | os => exact .inr rfl
        | lind => exact .inl rfl
        | nothing => simp [hc] at hph
      rw [(round_at_exit (.inr hexit) hent hph).1, hsome]
      rfl
    · -- the flag is still set at the exit stop of a handler without phases, which takes no branch
      rw [decide_eq_false hph] at hent
      have hmarks := (round_at_entry acts (.inr hexit) hent).2.2.1
      rw [if_neg hph] at hmarks
      have hnone : completes acts rep = none := by
        simp [completes, choice_of_not_hasPhases (hin (.inr hexit)) (hsame ▸ hret) hph]
      rw [hnone]
      exact branches_eq_of_marks hmarks

theorem left_step {acts : Actions} {s t : Sys} {rep : Report} (hflag : FlagFits acts s)
    (hstep : TableStep acts s rep t) :
    t.world.left = s.world.left ++ (completes acts rep).toList := by
  obtain ⟨hentry', hexit'⟩ := branch_step hflag hstep
  by_cases hexit : rep.stop = .exit
  · rw [World.left, hexit' hexit]
    cases completes acts rep with
    | none => simp [World.left]
    | some n => simp [World.left]
  · have hnone : completes acts rep = none := by simp [completes, hexit]
    rw [hnone, Option.toList_none, List.append_nil]
    by_cases hentry : rep.stop = .entry
    · rw [World.left, branches_eq_of_marks (hentry' hentry).2.2]
      split <;> rfl
    · obtain ⟨⟨-, -, rfl⟩, -⟩ := hstep
      rw [step_world]
      exact World.left_eq_of_branches (branches_eq_of_marks (l := [])
        (round_not_syscall (by rintro (h | h); exacts [hentry h, hexit h])).1)

/-- The exit branches of a run are its completed calls, each once and in order. -/
theorem left_run {acts : Actions} {start s : Sys} {reps : List Report} (hstart : Initial start)
    (hrun : Run (TableStep acts) start reps s) :
    s.world.left = reps.filterMap (completes acts) := by
  refine hrun.invariant (I := fun reps s ↦ s.world.left = reps.filterMap (completes acts)) ?_
    fun {reps s rep t} hrun' hinv hstep ↦ ?_
  · simp [World.left, World.branches, hstart.trace]
  · have hflag := flagFits_run hstart (hrun'.mono And.left) hstep.1.1
    rw [left_step hflag hstep, hinv, List.filterMap_append]
    cases hc : completes acts rep <;> simp [hc]

/-- **The phases are kept** in every run: at an entry stop the handler takes its entering branch,
asks nothing of Lind and writes nothing to the tracee; at an exit stop it takes the other branch;
and the exit branches taken are those of the completed calls, each once and in order. -/
theorem phases_kept {acts : Actions} {start s : Sys} {reps : List Report} (hstart : Initial start)
    (hrun : Run (TableStep acts) start reps s) :
    s.world.left = reps.filterMap (completes acts) ∧
      ∀ rep t, TableStep acts s rep t →
        (rep.stop = .entry →
          t.world.requests = s.world.requests ∧ t.world.tracee.mem = rep.tracee.mem ∧
            t.world.marks = (if HasPhases acts rep.tracee.regs.orig_rax
              then [.branch true rep.tracee.regs.orig_rax] else []) ++ s.world.marks) ∧
        (rep.stop = .exit →
          t.world.branches = ((completes acts rep).map (Event.branch false)).toList ++
            s.world.branches) :=
  ⟨left_run hstart hrun, fun _ _ hstep ↦
    branch_step (flagFits_run hstart (hrun.mono And.left) hstep.1.1) hstep⟩

/-- The entry stop of `getuid`. -/
def getuidEntry : Report := ⟨.entry, ⟨callRegs 102, nullMemory⟩, steadyEnv none⟩

/-- The exit stop of `getuid`, where Lind answers with an identity. -/
def getuidExit : Report :=
  ⟨.exit, ⟨callRegs 102, nullMemory⟩, steadyEnv (some (successResponse 1000 []))⟩

/-- The policy that emulates everything. -/
def lindActs : Actions := fun _ ↦ ALLOW_LIND

theorem run_getuid : Run (TableStep lindActs) bootSys ([] ++ [getuidEntry] ++ [getuidExit])
    ((bootSys.step lindActs getuidEntry).step lindActs getuidExit) := by
  refine (Run.nil.snoc ⟨⟨rfl, trivial, rfl⟩, fun _ ↦ inTable_iff.2 (by decide)⟩).snoc
    ⟨⟨rfl, ?_, rfl⟩, fun _ ↦ inTable_iff.2 (by decide)⟩
  exact ⟨rfl, by decide⟩

theorem phases_kept_getuid :
    ((bootSys.step lindActs getuidEntry).step lindActs getuidExit).world.left = [102] :=
  (phases_kept initial_bootSys run_getuid).1.trans (by decide)

end ReferenceMonitor
