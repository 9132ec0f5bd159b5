import ReferenceMonitor.Monitor.Walks
import ReferenceMonitor.System.Phases

/-!
# Calls left to the host

The program and its kernel are two relations between the states of a task: from where user code is
resumed to its next call, and from where the kernel starts a call to where the call returns
(`Host`). Run alone, the task passes from one to the other and back (`HostStep`). Run under the
monitor it stops before and after each call, and goes on from what the monitor left it
(`TracedStep`).

Where the policy leaves every call to the host, the monitor's rounds change neither registers nor
memory and send nothing, so the two systems pass through the same states. This rests on the walks
that two handlers make through the tracee's memory to print what they find there: they must end.
-/

namespace ReferenceMonitor

open Halting

/-! ### The program alone -/

/-- A program and the kernel under it. -/
structure Host where
  /-- User code runs from one state to its next call. -/
  user : Tracee → Tracee → Prop
  /-- The kernel executes the call in the registers. -/
  kernel : Tracee → Tracee → Prop

/-- Where the task is, and its state. -/
inductive Place where
  | user (t : Tracee)
  | kernel (t : Tracee)

/-- The program without the monitor. A step shows the state before a call, or after it. -/
inductive HostStep (h : Host) : Place → Stop × Tracee → Place → Prop
  | call {t t' : Tracee} : h.user t t' → HostStep h (.user t) (.entry, t') (.kernel t')
  | ret {t t' : Tracee} : h.kernel t t' → t'.regs.orig_rax = t.regs.orig_rax →
      ¬ NeverReturns t.regs.orig_rax → HostStep h (.kernel t) (.exit, t') (.user t')

/-! ### The program under the monitor -/

/-- Where the task is. -/
def Sys.place (s : Sys) : Place :=
  match s.phase with
  | .user => .user s.world.tracee
  | .kernel _ => .kernel s.world.tracee

/-- What a stop shows: the task as its last run left it. -/
def Shows (h : Host) (s : Sys) (rep : Report) : Prop :=
  match rep.stop with
  | .entry => h.user s.world.tracee rep.tracee
  | .exit => h.kernel s.world.tracee rep.tracee
  | _ => rep.tracee = s.world.tracee

/-- A step under the monitor: a report, and the task as the monitor resumes it. -/
def TracedStep (acts : Actions) (h : Host) (s : Sys) (l : Report × Tracee) (t : Sys) : Prop :=
  Step acts s l.1 t ∧ Shows h s l.1 ∧ l.2 = t.world.tracee

theorem tracedStep_of_legal (acts : Actions) (h : Host) {s : Sys} (rep : Report)
    (halive : s.alive = true) (hlegal : Legal s rep) (hshows : Shows h s rep) :
    TracedStep acts h s (rep, (s.step acts rep).world.tracee) (s.step acts rep) :=
  ⟨⟨halive, hlegal, rfl⟩, hshows, rfl⟩

/-- The states before and after the calls of a traced run. -/
def observed (ls : List (Report × Tracee)) : List (Stop × Tracee) :=
  ls.filterMap fun l ↦
    match l.1.stop with
    | .entry => some (.entry, l.2)
    | .exit => some (.exit, l.2)
    | _ => none

theorem observed_append (ls ls' : List (Report × Tracee)) :
    observed (ls ++ ls') = observed ls ++ observed ls' := List.filterMap_append

/-! ### Undisturbed runs -/

/-- The number is in the table, and its call is left to the host and is not `mmap`. -/
def LeftToHost (acts : Actions) (n : Word) : Prop :=
  InTable n.toInt ∧ choice acts n = .os ∧ n ≠ 9

/-- The walks that the handler makes at this stop end. -/
def WalksEnd (stop : Stop) (t : Tracee) : Prop :=
  match stop with
  | .entry => t.regs.orig_rax = 59 → PathEnds t.mem t.regs.rdi ∧ ArgvEnds t.mem t.regs.rsi
  | .exit => t.regs.orig_rax = 79 → PathEnds t.mem t.regs.rdi
  | _ => True

/-- A state before or after a call that is left to the host, where the walks are as they should. -/
def Meets (acts : Actions) (walks : Stop → Tracee → Prop) (o : Stop × Tracee) : Prop :=
  (o.1 = .entry → LeftToHost acts o.2.regs.orig_rax) ∧ walks o.1 o.2

/-- A report of such a state, or of a stop that `ptrace` itself causes. -/
def Undisturbed (acts : Actions) (walks : Stop → Tracee → Prop) (rep : Report) : Prop :=
  match rep.stop with
  | .entry | .exit => Meets acts walks (rep.stop, rep.tracee)
  | .other sig => (sig : ℕ) = SIGTRAP
  | _ => False

/-! ### One round -/

/-- The tracee is as it was, and nothing was sent. -/
structure Untouched (w w' : World) : Prop where
  tracee : w'.tracee = w.tracee
  requests : w'.requests = w.requests

instance : Std.Refl Untouched := ⟨fun _ ↦ ⟨rfl, rfl⟩⟩

instance : IsTrans World Untouched :=
  ⟨fun _ _ _ h h' ↦ ⟨h'.tracee.trans h.tracee, h'.requests.trans h.requests⟩⟩

theorem observes_untouched : Observes Untouched where
  branch _ _ := keeps_modify fun _ ↦ ⟨rfl, rfl⟩
  read _ := keeps_focus _ fun _ _ ↦ ⟨rfl, rfl⟩
  setEntering _ := keeps_modify fun _ ↦ ⟨rfl, rfl⟩

theorem fetch_returns_iff {α : Type} {q : Fetch α} {env : Env} {w : World} :
    (fetch q env w).Returns ↔ (q (env, w.tracee.mem) []).Returns := by
  rw [fetch, focus]
  cases q (env, w.tracee.mem) [] <;> exact Iff.rfl

theorem phased_returns {enter leave : M Unit} {env : Env} {w : World}
    (henter : w.entering = true → ∀ w', w'.tracee = w.tracee → w'.regs = w.regs →
      (enter env w').Returns)
    (hleave : w.entering = false → ∀ w', w'.tracee = w.tracee → w'.regs = w.regs →
      (leave env w').Returns) : (phased enter leave env w).Returns := by
  cases hflag : w.entering with
  | true =>
    rw [phased_of_entering _ _ _ hflag]
    exact henter hflag _ rfl rfl
  | false =>
    rw [phased_of_leaving _ _ _ hflag, Outcome.returns_andThen_iff]
    obtain ⟨a, t, ht⟩ := Outcome.returns_iff.1 (hleave hflag
      { w with trace := .branch false w.regs.syscall :: w.trace } rfl rfl)
    exact ⟨a, t, ht, trivial⟩

/-- `monitor_execve` returns where its walks end. -/
theorem monitorExecve_returns {env : Env} {w : World}
    (h : w.entering = true →
      PathEnds w.tracee.mem w.regs.arg1 ∧ ArgvEnds w.tracee.mem w.regs.arg2) :
    (monitorExecve env w).Returns := by
  refine phased_returns (fun hflag w' htracee hregs ↦ ?_) fun _ _ _ _ ↦ trivial
  obtain ⟨hpath, hargv⟩ := h hflag
  rw [bind_apply, getRegs, bind_apply, get_apply, Outcome.andThen_done, pure_apply,
    Outcome.andThen_done, fetch_returns_iff, htracee, hregs, bind_apply,
    Outcome.returns_andThen_iff]
  obtain ⟨path, log, hdone⟩ :=
    Outcome.returns_iff.1 ((getPath_returns_iff w.regs.arg1 env w.tracee.mem []).2 hpath)
  exact ⟨path, log, hdone, (argvWalk_returns_iff w.regs.arg2 env w.tracee.mem log).2 hargv⟩

/-- Leaving `getcwd` returns exactly where its walk ends. -/
theorem leave_getcwd_returns_iff {env : Env} {w : World} :
    (leave monitorGetcwd env w).Returns ↔ PathEnds w.tracee.mem w.regs.arg1 := by
  rw [leave_monitorGetcwd, bind_apply, getRegs, bind_apply, get_apply, Outcome.andThen_done,
    pure_apply, Outcome.andThen_done, bind_apply, Outcome.returns_andThen_iff,
    ← getPath_returns_iff w.regs.arg1 env w.tracee.mem [], ← fetch_returns_iff, Outcome.returns_iff]
  simp only [pure_apply, Outcome.returns_done, and_true]

/-- A handler of a call left to the host returns where its walks end. -/
theorem osHandlerOf_returns {n : Word} (hin : InTable n.toInt) (hmmap : n ≠ 9) {env : Env}
    {w : World}
    (hexecve : n = 59 → w.entering = true →
      PathEnds w.tracee.mem w.regs.arg1 ∧ ArgvEnds w.tracee.mem w.regs.arg2)
    (hgetcwd : n = 79 → w.entering = false → PathEnds w.tracee.mem w.regs.arg1) :
    (osHandlerOf (cInt n) env w).Returns := by
  have hnum {v : Word} (h : v.toInt = cInt n) : n = v :=
    BitVec.eq_of_toInt_eq (by rw [h, cInt_of_inTable hin])
  unfold osHandlerOf
  cases hc : OsCall.ofNr (cInt n) with
  | none => exact phased_returns (fun _ _ _ _ ↦ trivial) fun _ _ _ _ ↦ trivial
  | some c =>
    have hn := OsCall.nr_of_ofNr hc
    cases c with
    | execve => exact monitorExecve_returns (hexecve (hnum hn))
    | getcwd =>
      refine phased_returns (fun _ _ _ _ ↦ trivial) fun hflag w' htracee hregs ↦ ?_
      rw [leave_getcwd_returns_iff, htracee, hregs]
      exact hgetcwd (hnum hn) hflag
    | mmap => exact absurd (hnum (v := 9) hn) hmmap
    | exit | exit_group => trivial
    | tgkill | arch_prctl | munmap | mprotect | gettid | brk =>
      exact phased_returns (fun _ _ _ _ ↦ trivial) fun _ _ _ _ ↦ trivial

/-- **A round at a call left to the host** goes on, and leaves the task as it was. -/
theorem round_leftToHost {acts : Actions} {s : Sys} {rep : Report} (hstop : rep.stop.IsSyscall)
    (hleft : LeftToHost acts rep.tracee.regs.orig_rax) (hwalks : WalksEnd rep.stop rep.tracee)
    (hflag : s.world.entering = decide (rep.stop = .entry)) :
    goesOn (s.round acts rep) = true ∧ (s.round acts rep).state.tracee = rep.tracee ∧
      (s.round acts rep).state.requests = s.world.requests := by
  obtain ⟨hin, hos, hmmap⟩ := hleft
  have hmm : cInt rep.tracee.regs.orig_rax ≠ OsCall.mmap.nr := fun h ↦ hmmap
    (BitVec.eq_of_toInt_eq (by rw [← cInt_of_inTable hin, h]; rfl))
  have hkeep := observes_untouched.osHandlerOf (n := cInt rep.tracee.regs.orig_rax)
    (fun _ ↦ keeps_modify fun _ ↦ ⟨rfl, rfl⟩) (fun h ↦ absurd h hmm) rep.env
    (s.world.atStop rep.tracee)
  have hreturns : (osHandlerOf (cInt rep.tracee.regs.orig_rax) rep.env
      (s.world.atStop rep.tracee)).Returns := by
    have hent : (s.world.atStop rep.tracee).entering = decide (rep.stop = .entry) := hflag
    refine osHandlerOf_returns hin hmmap (fun hn h ↦ ?_) fun hn h ↦ ?_
    · rw [hent, decide_eq_true_eq] at h
      rw [h] at hwalks
      exact hwalks hn
    · rw [hent, decide_eq_false_iff_not] at h
      rw [hstop.resolve_left h] at hwalks
      exact hwalks hn
  obtain ⟨u, w, hdone⟩ := Outcome.returns_iff.1 hreturns
  rw [hdone] at hkeep
  rw [round_syscall acts s hstop, hos, Choice.handler, hdone]
  exact ⟨rfl, hkeep.tracee, hkeep.requests⟩

/-- A round that leaves `getcwd` does not end where the walk does not. -/
theorem not_goesOn_getcwd {acts : Actions} {s : Sys} {rep : Report} (hstop : rep.stop.IsSyscall)
    (hos : choice acts rep.tracee.regs.orig_rax = .os)
    (hnum : OsCall.ofNr (cInt rep.tracee.regs.orig_rax) = some .getcwd)
    (hflag : s.world.entering = false)
    (hwalk : ¬ PathEnds rep.tracee.mem rep.tracee.regs.rdi) :
    goesOn (s.round acts rep) = false := by
  have hhalt (w : World) (htracee : w.tracee = rep.tracee)
      (hregs : w.regs = argsOf rep.tracee.regs) :
      ¬ (leave monitorGetcwd rep.env w).Returns := by
    rw [leave_getcwd_returns_iff, htracee, hregs]
    exact hwalk
  rw [round_syscall acts s hstop, hos, Choice.handler, osHandlerOf, hnum]
  dsimp only [OsCall.handler]
  rw [emulated, phased_of_leaving _ _ _
    (show (s.world.atStop rep.tracee).entering = false from hflag)]
  have hbranch := hhalt { s.world.atStop rep.tracee with
    trace := .branch false (s.world.atStop rep.tracee).regs.syscall ::
      (s.world.atStop rep.tracee).trace } rfl rfl
  generalize leave monitorGetcwd rep.env _ = o at hbranch ⊢
  cases o with
  | done u w => exact absurd trivial hbranch
  | halt e w => rfl

/-! ### Runs -/

/-- What holds along an undisturbed run under the monitor. -/
structure Follow (acts : Actions) (h : Host) (start : Sys) (ls : List (Report × Tracee))
    (s : Sys) : Prop where
  alive : s.alive = true
  requests : s.world.requests = []
  flag : FlagFits acts s
  phase : ∀ r, s.phase = .kernel r → r = s.world.tracee.regs ∧ LeftToHost acts r.orig_rax
  seen : ∀ l ∈ ls, l.2 = l.1.tracee
  run : Run (HostStep h) (.user start.world.tracee) (observed ls) s.place

section Step

variable {acts : Actions} {h : Host} {start s t : Sys} {ls : List (Report × Tracee)}
  {l : Report × Tracee}

theorem place_user (hp : s.phase = .user) : s.place = .user s.world.tracee := by
  rw [Sys.place, hp]

theorem place_kernel {r : UserRegs} (hp : s.phase = .kernel r) :
    s.place = .kernel s.world.tracee := by rw [Sys.place, hp]

theorem seen_append (hls : ∀ l ∈ ls, l.2 = l.1.tracee) (hl : l.2 = l.1.tracee) :
    ∀ l' ∈ ls ++ [l], l'.2 = l'.1.tracee := by
  intro l' hmem
  rcases List.mem_append.1 hmem with hold | hnew
  · exact hls l' hold
  · rwa [List.mem_singleton.1 hnew]

/-- An entry stop. -/
theorem follow_entry (hf : Follow acts h start ls s) (hstep : TracedStep acts h s l t)
    (hun : Undisturbed acts WalksEnd l.1) (hentry : l.1.stop = .entry) :
    Follow acts h start (ls ++ [l]) t := by
  obtain ⟨hs, hshows, hseen⟩ := hstep
  have hs' := hs
  obtain ⟨-, hlegal, rfl⟩ := hs
  rw [Undisturbed, hentry] at hun
  rw [Shows, hentry] at hshows
  have hleft := hun.1 rfl
  obtain ⟨hgo, htracee, hreq⟩ := round_leftToHost (.inl hentry) hleft (by rw [hentry]; exact hun.2)
    (by rw [hentry]; exact entering_at_entry hf.flag hlegal hentry)
  have hphase := (step_entry acts s hentry).1
  rw [htracee] at hphase
  have hworld : (s.step acts l.1).world.tracee = l.1.tracee := by rw [step_world, htracee]
  refine ⟨by rw [step_alive, hgo], by rw [step_world, hreq, hf.requests],
    flagFits_step hf.flag hs' (by rw [step_alive, hgo]), fun r hr ↦ ?_,
    seen_append hf.seen (hseen.trans hworld), ?_⟩
  · rw [hphase, Phase.kernel.injEq] at hr
    subst hr
    exact ⟨by rw [hworld], hleft⟩
  · have hobs : observed [l] = [(.entry, l.1.tracee)] := by
      simp [observed, hentry, hseen, hworld]
    rw [observed_append, hobs, place_kernel hphase, hworld]
    exact (place_user (phase_of_legal_entry hlegal hentry) ▸ hf.run).snoc (.call hshows)

/-- An exit stop. -/
theorem follow_exit (hf : Follow acts h start ls s) (hstep : TracedStep acts h s l t)
    (hun : Undisturbed acts WalksEnd l.1) (hexit : l.1.stop = .exit) :
    Follow acts h start (ls ++ [l]) t := by
  obtain ⟨hs, hshows, hseen⟩ := hstep
  have hs' := hs
  obtain ⟨-, hlegal, rfl⟩ := hs
  rw [Undisturbed, hexit] at hun
  rw [Shows, hexit] at hshows
  obtain ⟨r, hp, hsame, hret⟩ := phase_of_legal_exit hlegal hexit
  obtain ⟨hr, hleft⟩ := hf.phase r hp
  rw [← hsame] at hleft
  have hphases : HasPhases acts l.1.tracee.regs.orig_rax := by
    rw [HasPhases, hleft.2.1]
    exact fun hph ↦ hret (hsame ▸ neverReturns_of_phaseless hleft.1 hph)
  obtain ⟨hgo, htracee, hreq⟩ := round_leftToHost (.inr hexit) hleft
    (by rw [hexit]; exact hun.2) (by
    rw [(entering_at_exit hf.flag hlegal hexit).2, hexit, decide_eq_true hphases]
    rfl)
  have hphase := (step_exit acts s hexit).1
  have hworld : (s.step acts l.1).world.tracee = l.1.tracee := by rw [step_world, htracee]
  refine ⟨by rw [step_alive, hgo], by rw [step_world, hreq, hf.requests],
    flagFits_step hf.flag hs' (by rw [step_alive, hgo]), fun r hr ↦ ?_,
    seen_append hf.seen (hseen.trans hworld), ?_⟩
  · rw [hphase] at hr
    cases hr
  · have hobs : observed [l] = [(.exit, l.1.tracee)] := by
      simp [observed, hexit, hseen, hworld]
    rw [observed_append, hobs, place_user hphase, hworld]
    refine (place_kernel hp ▸ hf.run).snoc (.ret hshows ?_ ?_)
    · rw [hsame, hr]
    · rwa [← hr]

/-- A stop that `ptrace` itself causes. -/
theorem follow_other (hf : Follow acts h start ls s) (hstep : TracedStep acts h s l t)
    {sig : Fin 128} (hother : l.1.stop = .other sig) :
    Follow acts h start (ls ++ [l]) t := by
  obtain ⟨hs, hshows, hseen⟩ := hstep
  have hs' := hs
  obtain ⟨-, -, rfl⟩ := hs
  rw [Shows, hother] at hshows
  have hround := round_other acts s hother
  have hphase := (step_other acts s (show l.1.stop ≠ .entry by simp [hother]) (by simp [hother])).1
  have hworld : (s.step acts l.1).world.tracee = s.world.tracee := by
    rw [step_world, hround]
    exact hshows
  have hplace : (s.step acts l.1).place = s.place := by
    rw [Sys.place, Sys.place, hphase, hworld]
  have hgo : (s.step acts l.1).alive = true := by rw [step_alive, hround]; rfl
  refine ⟨hgo, by rw [step_world, hround]; exact hf.requests, flagFits_step hf.flag hs' hgo,
    fun r hr ↦ ?_, seen_append hf.seen (hseen.trans (hworld.trans hshows.symm)), ?_⟩
  · rw [hphase] at hr
    rw [hworld]
    exact hf.phase r hr
  · have hobs : observed [l] = [] := by simp [observed, hother]
    rw [observed_append, hobs, List.append_nil, hplace]
    exact hf.run

/-- **One step** of an undisturbed run. -/
theorem follow_step (hf : Follow acts h start ls s) (hstep : TracedStep acts h s l t)
    (hun : Undisturbed acts WalksEnd l.1) : Follow acts h start (ls ++ [l]) t := by
  cases hs : l.1.stop with
  | entry => exact follow_entry hf hstep hun hs
  | exit => exact follow_exit hf hstep hun hs
  | other sig => exact follow_other hf hstep hs
  | exited | killed =>
    rw [Undisturbed, hs] at hun
    exact hun.elim

/-- **Every undisturbed run** passes through the states of a run of the program alone. -/
theorem follow_run (hstart : Initial start) (hrun : Run (TracedStep acts h) start ls s)
    (hun : ∀ l ∈ ls, Undisturbed acts WalksEnd l.1) : Follow acts h start ls s := by
  induction hrun with
  | nil =>
    refine ⟨hstart.alive, hstart.requests, ?_, fun r hr ↦ ?_,
      fun l hl ↦ absurd hl List.not_mem_nil, ?_⟩
    · rw [FlagFits, hstart.phase]
      exact hstart.entering
    · rw [hstart.phase] at hr
      cases hr
    · rw [place_user hstart.phase]
      exact .nil
  | snoc _ hstep ih =>
    exact follow_step (ih fun l hl ↦ hun l (List.mem_append_left _ hl)) hstep
      (hun _ (List.mem_append_right _ (List.mem_singleton_self _)))

/-- One step of the program alone, under the monitor. -/
theorem traced_step (hf : Follow acts h start ls s) {o : Stop × Tracee} {place : Place}
    (hstep : HostStep h s.place o place) (hmeets : Meets acts WalksEnd o) :
    ∃ l t, TracedStep acts h s l t ∧ Undisturbed acts WalksEnd l.1 ∧ observed [l] = [o] ∧
      t.place = place := by
  generalize hfrom : s.place = fromPlace at hstep
  cases hstep with
  | call huser =>
    rename_i t t'
    cases hp : s.phase with
    | kernel r =>
      rw [place_kernel hp] at hfrom
      cases hfrom
    | user =>
      rw [place_user hp, Place.user.injEq] at hfrom
      -- the environment is never asked, as no call is emulated
      let rep : Report := ⟨.entry, t', Env.blank⟩
      have htraced := tracedStep_of_legal acts h rep hf.alive
        (by rw [Legal, hp]; trivial) (by rw [Shows, hfrom]; exact huser)
      have hun : Undisturbed acts WalksEnd rep := hmeets
      have hseen : (s.step acts rep).world.tracee = t' := (follow_step hf htraced hun).seen _
        (List.mem_append_right _ (List.mem_singleton_self _))
      refine ⟨_, _, htraced, hun, by rw [hseen]; rfl, ?_⟩
      rw [place_kernel (step_entry acts s (show rep.stop = .entry from rfl)).1]
      exact congrArg Place.kernel hseen
  | ret hkernel hsame hret =>
    rename_i t t'
    cases hp : s.phase with
    | user =>
      rw [place_user hp] at hfrom
      cases hfrom
    | kernel r =>
      rw [place_kernel hp, Place.kernel.injEq] at hfrom
      have hr : t.regs.orig_rax = r.orig_rax := by rw [(hf.phase r hp).1, hfrom]
      let rep : Report := ⟨.exit, t', Env.blank⟩
      have htraced := tracedStep_of_legal acts h rep hf.alive
        (by rw [Legal, hp]; exact ⟨hsame.trans hr, hr ▸ hret⟩) (by rw [Shows, hfrom]; exact hkernel)
      have hun : Undisturbed acts WalksEnd rep := hmeets
      have hseen : (s.step acts rep).world.tracee = t' := (follow_step hf htraced hun).seen _
        (List.mem_append_right _ (List.mem_singleton_self _))
      refine ⟨_, _, htraced, hun, by rw [hseen]; rfl, ?_⟩
      rw [place_user (step_exit acts s (show rep.stop = .exit from rfl)).1]
      exact congrArg Place.user hseen

/-- **Every run of the program alone** is what an undisturbed run under the monitor shows. -/
theorem exists_traced_run (hstart : Initial start) {obs : List (Stop × Tracee)} {place : Place}
    (hrun : Run (HostStep h) (.user start.world.tracee) obs place)
    (hmeets : ∀ o ∈ obs, Meets acts WalksEnd o) :
    ∃ ls s, Run (TracedStep acts h) start ls s ∧ (∀ l ∈ ls, Undisturbed acts WalksEnd l.1) ∧
      observed ls = obs ∧ s.place = place := by
  induction hrun with
  | nil =>
    exact ⟨[], start, .nil, fun l hl ↦ absurd hl List.not_mem_nil, rfl, place_user hstart.phase⟩
  | snoc _ hstep ih =>
    obtain ⟨ls, s, hls, hun, hobs, rfl⟩ := ih fun o ho ↦ hmeets o (List.mem_append_left _ ho)
    obtain ⟨l, t, hl, hunl, hobsl, hplace⟩ := traced_step (follow_run hstart hls hun) hstep
      (hmeets _ (List.mem_append_right _ (List.mem_singleton_self _)))
    refine ⟨ls ++ [l], t, hls.snoc hl, fun l' hl' ↦ ?_, by rw [observed_append, hobs, hobsl],
      hplace⟩
    rcases List.mem_append.1 hl' with hold | hnew
    · exact hun l' hold
    · rwa [List.mem_singleton.1 hnew]

end Step

/-- The monitor goes on, sends nothing and leaves every stop as it found it; the states a run under
the monitor shows are those of a run of the program alone, and every such run is shown by one. -/
def Transparent (acts : Actions) (walks : Stop → Tracee → Prop) : Prop :=
  ∀ (h : Host) (start : Sys), Initial start →
    (∀ ls s, Run (TracedStep acts h) start ls s → (∀ l ∈ ls, Undisturbed acts walks l.1) →
      s.alive = true ∧ s.world.requests = [] ∧ (∀ l ∈ ls, l.2 = l.1.tracee) ∧
        Run (HostStep h) (.user start.world.tracee) (observed ls) s.place) ∧
      ∀ obs place, Run (HostStep h) (.user start.world.tracee) obs place →
        (∀ o ∈ obs, Meets acts walks o) →
        ∃ ls s, Run (TracedStep acts h) start ls s ∧ (∀ l ∈ ls, Undisturbed acts walks l.1) ∧
          observed ls = obs ∧ s.place = place

/-- **Calls left to the host.** The monitor is transparent in the runs in which every call is left
to the host and the walks of the handlers end. -/
theorem transparent (acts : Actions) : Transparent acts WalksEnd := by
  refine fun h start hstart ↦ ⟨fun ls s hrun hun ↦ ?_, fun obs place ↦ exists_traced_run hstart⟩
  have hf := follow_run hstart hrun hun
  exact ⟨hf.alive, hf.requests, hf.seen, hf.run⟩

/-! ### `getcwd` into a page that ends -/

/-- The array of strings at an address ends inside the mapped memory, and its strings do. -/
def ArgvTerminated (m : ByteMemory) (argv : Word) : Prop :=
  ∃ n : ℕ, m.peek (wordAddr argv n) = some 0 ∧
    ∀ i < n, ∃ p, m.peek (wordAddr argv i) = some p ∧ p ≠ 0 ∧ Terminated m p

/-- What the handler reads at this stop is terminated. -/
def WalksTerminated (stop : Stop) (t : Tracee) : Prop :=
  match stop with
  | .entry => t.regs.orig_rax = 59 → Terminated t.mem t.regs.rdi ∧ ArgvTerminated t.mem t.regs.rsi
  | .exit => t.regs.orig_rax = 79 → Terminated t.mem t.regs.rdi
  | _ => True

/-- The tracee that asks for it. -/
def cwdTracee : Tracee := ⟨{ callRegs 79 with rdi := 0x1FFC }, pageMemory⟩

/-- Its entry stop and its exit stop. -/
def cwdReport (stop : Stop) : Report := ⟨stop, cwdTracee, Env.blank⟩

/-- A host that may do anything. -/
def anyHost : Host := ⟨fun _ _ ↦ True, fun _ _ ↦ True⟩

/-- The system in the call. -/
def cwdSys : Sys := bootSys.step osActs (cwdReport .entry)

theorem tracedStep_cwd : TracedStep osActs anyHost bootSys
    (cwdReport .entry, cwdSys.world.tracee) cwdSys :=
  tracedStep_of_legal osActs anyHost (cwdReport .entry) rfl trivial trivial

theorem leftToHost_cwd : LeftToHost osActs cwdTracee.regs.orig_rax :=
  ⟨inTable_iff.2 (by decide), by decide, by decide⟩

theorem follow_cwd : Follow osActs anyHost bootSys
    ([] ++ [(cwdReport .entry, cwdSys.world.tracee)]) cwdSys := by
  refine follow_run initial_bootSys (.snoc .nil tracedStep_cwd) fun l hl ↦ ?_
  rw [List.mem_singleton.1 hl]
  exact ⟨fun _ ↦ leftToHost_cwd, fun hn ↦ absurd hn (by decide)⟩

theorem legal_cwd : Legal cwdSys (cwdReport .exit) := by
  have hphase := (step_entry osActs bootSys (show (cwdReport .entry).stop = .entry from rfl)).1
  rw [Legal, cwdSys, hphase]
  refine ⟨?_, ?_⟩
  · rw [round_orig_rax osActs bootSys (show (cwdReport .entry).stop.IsSyscall from .inl rfl)]
    rfl
  · rw [round_orig_rax osActs bootSys (show (cwdReport .entry).stop.IsSyscall from .inl rfl)]
    decide

/-- The monitor does not get past the exit stop. -/
theorem not_goesOn_cwd : goesOn (cwdSys.round osActs (cwdReport .exit)) = false :=
  not_goesOn_getcwd (.inr rfl) (by decide) (by decide)
    (entering_at_exit follow_cwd.flag legal_cwd rfl).2 not_pathEnds_pageMemory

/-- `get_path` reads the word across the end of the page, and never finds the end of the string. -/
theorem not_transparent : ¬ ∀ acts : Actions, Transparent acts WalksTerminated := by
  intro h
  have hstep : TracedStep osActs anyHost cwdSys
      (cwdReport .exit, (cwdSys.step osActs (cwdReport .exit)).world.tracee)
      (cwdSys.step osActs (cwdReport .exit)) :=
    tracedStep_of_legal osActs anyHost (cwdReport .exit) follow_cwd.alive legal_cwd trivial
  have hrun := (Run.nil.snoc tracedStep_cwd).snoc hstep
  obtain ⟨hrunning, -⟩ := (h osActs anyHost bootSys initial_bootSys).1 _ _ hrun fun l hl ↦ by
    rcases List.mem_append.1 hl with hl | hl
    · rw [List.mem_singleton.1 hl]
      exact ⟨fun _ ↦ leftToHost_cwd, fun hn ↦ absurd hn (by decide)⟩
    · rw [List.mem_singleton.1 hl]
      exact ⟨fun hn ↦ (by cases hn), fun _ ↦ terminated_pageMemory⟩
  rw [step_alive, not_goesOn_cwd] at hrunning
  cases hrunning

end ReferenceMonitor
