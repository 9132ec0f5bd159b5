import ReferenceMonitor.Monitor.Directives
import ReferenceMonitor.Monitor.Faults
import ReferenceMonitor.Platform.Globals
import ReferenceMonitor.System.Leaving

/-!
# The program: `main`, `init_ptrace` and `intercept_calls`

`main` reads the configuration, forks, starts the interpreter and loops over the reports of
`waitpid`. Here it is followed from its arguments to its exit status, on the raw statuses that
`waitpid` stores: the macros of `<sys/wait.h>` take them apart, and the kernel makes one status for
each kind of stop (`Stop.Shows`).

The loop follows the runs of the system (`main_refines`): it waits for the next report exactly where
the system is alive, in the same world, and its end says how the last report ended it. The monitor
exits with `0` exactly when the tracee has exited, whatever the tracee's own code was
(`exitCode_eq_zero_iff`).

It is assumed that `waitpid` and `ptrace` do not fail, and that the first report is the stop the
child asks for.
-/

namespace ReferenceMonitor

open Halting

/-! ### Wait statuses -/

/-- What `waitpid` stores. -/
abbrev Status := BitVec 32

/-- `__WTERMSIG`. -/
def WTERMSIG (status : Status) : Status := status &&& 0x7f

def WIFEXITED (status : Status) : Prop := WTERMSIG status = 0

def WIFSTOPPED (status : Status) : Prop := status &&& 0xff = 0x7f

def WSTOPSIG (status : Status) : ℕ := ((status &&& 0xff00) >>> 8).toNat

instance (status : Status) : Decidable (WIFEXITED status) := inferInstanceAs (Decidable (_ = _))

instance (status : Status) : Decidable (WIFSTOPPED status) := inferInstanceAs (Decidable (_ = _))

/-- What the loop makes of a status. -/
def waitStatus (status : Status) : WaitStatus :=
  if WIFEXITED status then .exited
  else if ¬ WIFSTOPPED status then .terminated status.toInt
  else .stopped (WSTOPSIG status)

theorem wifexited_iff (status : Status) : WIFEXITED status ↔ status.toNat % 2 ^ 7 = 0 := by
  rw [WIFEXITED, WTERMSIG, ← BitVec.toNat_inj, BitVec.toNat_and,
    ← Nat.and_two_pow_sub_one_eq_mod status.toNat 7]
  rfl

theorem wifstopped_iff (status : Status) : WIFSTOPPED status ↔ status.toNat % 2 ^ 8 = 0x7f := by
  rw [WIFSTOPPED, ← BitVec.toNat_inj, BitVec.toNat_and,
    ← Nat.and_two_pow_sub_one_eq_mod status.toNat 8]
  rfl

theorem wstopsig_eq (status : Status) : WSTOPSIG status = status.toNat / 2 ^ 8 % 2 ^ 8 := by
  rw [WSTOPSIG, BitVec.toNat_ushiftRight, BitVec.toNat_and, Nat.shiftRight_and_distrib,
    Nat.shiftRight_eq_div_pow, ← Nat.and_two_pow_sub_one_eq_mod]
  rfl

/-- The statuses the kernel makes. The signal of a stop is followed by the number of an event, and
that of a death by the mark of a core dump. -/
def Stop.Shows : Stop → Status → Prop
  | entry, status | exit, status => status.toNat = 2 ^ 8 * syscallTrap + 0x7f
  | other sig, status => ∃ event < 2 ^ 16, status.toNat = 2 ^ 16 * event + 2 ^ 8 * sig + 0x7f
  | exited, status => ∃ code < 2 ^ 8, status.toNat = 2 ^ 8 * code
  | killed number, status => status.toInt = number ∧
      ∃ sig core, 0 < sig ∧ sig < 0x7f ∧ core < 2 ∧ status.toNat = 2 ^ 7 * core + sig

/-- The macros tell the reports apart as `interceptStop` does. -/
theorem waitStatus_of_shows {stop : Stop} {status : Status} (h : stop.Shows status) :
    waitStatus status = stop.status := by
  have hstopped {sig : ℕ} (hlow : status.toNat % 2 ^ 8 = 0x7f)
      (hsig : status.toNat / 2 ^ 8 % 2 ^ 8 = sig) : waitStatus status = .stopped sig := by
    rw [waitStatus, if_neg (by rw [wifexited_iff]; omega),
      if_neg (by rw [wifstopped_iff, not_not]; exact hlow), wstopsig_eq, hsig]
  cases stop with
  | entry | exit =>
    have hstatus : status.toNat = 2 ^ 8 * syscallTrap + 0x7f := h
    have htrap : syscallTrap = 133 := rfl
    exact hstopped (by omega) (by omega)
  | other sig =>
    obtain ⟨event, -, hstatus⟩ := h
    have hlt := sig.isLt
    exact hstopped (by omega) (by omega)
  | exited =>
    obtain ⟨code, -, hstatus⟩ := h
    exact if_pos ((wifexited_iff status).2 (by omega))
  | killed number =>
    obtain ⟨rfl, sig, core, hpos, hlt, -, hstatus⟩ := h
    rw [waitStatus, if_neg (by rw [wifexited_iff]; omega),
      if_pos (by rw [wifstopped_iff]; omega)]
    rfl

/-! ### `intercept_calls` -/

/-- What a call of `waitpid` comes back with, the tracee and the surroundings it finds included. -/
structure Wait where
  status : Status
  tracee : Tracee
  env : Env

/-- One round of the loop, from `waitpid` on. -/
def interceptRound (acts : Actions) (x : Wait) (w : World) : Outcome Halt World Bool :=
  interceptStop acts (waitStatus x.status) x.env { w with tracee := x.tracee }

/-- `intercept_calls`; true where it waits for a further report. The first is not looked at. -/
def interceptCalls (acts : Actions) (waits : List Wait) (w : World) : Outcome Halt World Bool :=
  whileTrue (interceptRound acts) waits.tail w

/-! ### `main` -/

/-- What the program finds when it is started. -/
structure Launch where
  /-- The command line; `argc` is its length. -/
  argv : List (List Char)
  getenv : List Char → Option (List Char)
  /-- The files that `fopen` opens. -/
  files : List Char → Option (List Char)
  /-- What lies around `monitor_actions`. -/
  around : Actions
  /-- What `fork` returns. -/
  fork : ℤ
  /-- The surroundings of `LindPythonInit`. -/
  python : PyEnv

/-- What the child asks of the kernel. -/
inductive ChildCall where
  | traceMe
  | stopItself
  | execve (path : Option (List Char)) (argv : List (Option (List Char)))
  | exit (status : ℤ)

/-- How far the program has come. -/
inductive Progress where
  /-- It waits for a report. -/
  | waiting (w : World)
  /-- It is the child. -/
  | child (calls : List ChildCall)
  /-- It has ended, by a return from `main` or by `exit`. -/
  | ended (status : ℤ) (w : World)
  /-- It has ended by a fault. -/
  | faulted (reason : Halt) (w : World)

namespace Launch

/-- `get_lind_config`. -/
def getLindConfig (l : Launch) : Except ℤ (List Char) :=
  match l.getenv "LIND_MONITOR".toList with
  | some path => .ok (path ++ "/src/main/lind_monitor/configs/monitor.cfg".toList)
  | none => .error (-1)

/-- `load_config`, with the files there are. -/
def loadPolicy (l : Launch) : Except ℤ Actions := do
  let configFile ← l.getLindConfig
  match l.files configFile with
  | some file => loadConfig l.around file
  | none => .error (-1)

/-- `argv1`: the arguments but for the first, and a null pointer. -/
def argv1 (l : Launch) : List (Option (List Char)) := l.argv.tail.map some ++ [none]

/-- The child's part of `init_ptrace`; it goes on only where `execve` fails. -/
def child (l : Launch) : List ChildCall :=
  [.traceMe, .stopItself, .execve l.argv[1]? l.argv1, .exit 1]

end Launch

/-- What a halt of the monitor means for the process. -/
def Halt.progress (w : World) : Halt → Progress
  | exit status => .ended status w
  | reason => .faulted reason w

/-- What the loop of `intercept_calls` means for the process: `main` returns `0` after it. -/
def progress : Outcome Halt World Bool → Progress
  | .done true w => .waiting w
  | .done false w => .ended 0 w
  | .halt reason w => reason.progress w

/-- `main`. What `LindPythonInit` returns is not looked at. -/
def main (l : Launch) (w : World) (waits : List Wait) : Progress :=
  if l.argv.length ≤ 0 then .ended (-1) w
  else
    match l.loadPolicy with
    | .error status => .ended status w
    | .ok acts =>
      if l.fork < 0 then .ended (-1) w
      else if l.fork = 0 then .child l.child
      else
        match lindPythonInit l.python (Session.initial w) with
        | .halt reason s => reason.progress s.interp.world
        | .done _ s => progress (interceptCalls acts waits s.interp.world)

/-! ### The start -/

/-- What it takes for the loop to be entered, with a table. -/
structure Launch.Starts (l : Launch) (acts : Actions) : Prop where
  named : l.argv ≠ []
  policy : l.loadPolicy = .ok acts
  forked : 0 < l.fork
  repyPath : l.python.repyPath = true

/-- A launch that starts gets to the loop. -/
theorem main_of_starts {l : Launch} {acts : Actions} (h : l.Starts acts) (w : World)
    (waits : List Wait) : main l w waits = progress (interceptCalls acts waits w) := by
  obtain ⟨ret, s, hdone, rfl⟩ := lindPythonInit_done h.repyPath w
  have hforked := h.forked
  rw [main, if_neg (by simpa using h.named), h.policy]
  dsimp only
  rw [if_neg (by omega), if_neg (by omega), hdone]

theorem loadConfig_error {around : Actions} {file : List Char} {status : ℤ}
    (h : loadConfig around file = .error status) : status = -1 := by
  rw [loadConfig_eq, loaded] at h
  cases hfold : (pieces file).foldlM loadPiece ⟨emptyActions around, ALLOW_LIND⟩ with
  | error e =>
    rw [hfold] at h
    cases h
    exact foldlM_loadPiece_error hfold
  | ok l' =>
    rw [hfold] at h
    cases h

/-- `load_config` gives up with `-1`. -/
theorem loadPolicy_error {l : Launch} {status : ℤ} (h : l.loadPolicy = .error status) :
    status = -1 := by
  rw [Launch.loadPolicy, Launch.getLindConfig] at h
  cases hpath : l.getenv "LIND_MONITOR".toList with
  | none =>
    rw [hpath] at h
    cases h
    rfl
  | some path =>
    rw [hpath] at h
    change (match l.files _ with | some file => loadConfig l.around file | none => .error (-1)) = _
      at h
    split at h
    · exact loadConfig_error h
    · cases h
      rfl

/-- Every other launch ends with `-1` or is the child; nothing was done in the monitor's world. -/
theorem main_of_not_starts {l : Launch} (h : ∀ acts, ¬ l.Starts acts) (w : World)
    (waits : List Wait) : main l w waits = .ended (-1) w ∨ main l w waits = .child l.child := by
  rw [main]
  split
  · exact .inl rfl
  rename_i hnamed
  cases hpolicy : l.loadPolicy with
  | error status => exact .inl (by rw [loadPolicy_error hpolicy])
  | ok acts =>
    dsimp only
    split_ifs with hfailed hchild
    · exact .inl rfl
    · exact .inr rfl
    -- what is missing is `REPY_PATH`
    have hrepy : l.python.repyPath = false := by
      by_contra hrepy
      exact h acts ⟨by simpa using hnamed, hpolicy, by omega, by simpa using hrepy⟩
    have hinit : lindPythonInit l.python (Session.initial w) =
        .halt (.exit (-1)) { Session.initial w with initialized := 1 } := by
      rw [lindPythonInit_initial, startRepy, bind_apply, ask_apply, Outcome.andThen_done,
        bind_apply, require, hrepy]
      rfl
    rw [hinit]
    exact .inl rfl

/-! ### The loop and the system -/

/-- A report, with a status that shows it. -/
structure Sighting where
  report : Report
  status : Status
  shows : report.stop.Shows status

/-- What `waitpid` comes back with. -/
def Sighting.wait (x : Sighting) : Wait := ⟨x.status, x.report.tracee, x.report.env⟩

/-- The steps of the system, as they are seen. -/
def SightedStep (acts : Actions) (s : Sys) (x : Sighting) (t : Sys) : Prop := Step acts s x.report t

/-- How the last report ends the program. -/
inductive Ending (acts : Actions) (rep : Report) (w : World) : Progress → Prop
  /-- The tracee has exited. -/
  | exited : rep.stop = .exited → Ending acts rep w (.ended 0 w)
  /-- The tracee was killed; the status is that of `waitpid`. -/
  | killed {number : ℤ} : rep.stop = .killed number → Ending acts rep w (.ended number w)
  /-- The call is denied. -/
  | denied : rep.stop = .entry → choice acts rep.tracee.regs.orig_rax = .deny →
      Ending acts rep w (.ended 1 w)
  /-- A handler made a fault. -/
  | faulted {reason : Halt} : rep.stop.IsSyscall → choice acts rep.tracee.regs.orig_rax ≠ .deny →
      reason.IsFault → Ending acts rep w (.faulted reason w)

section Loop

variable {acts : Actions} {start s t : Sys} {rep : Report}

theorem interceptRound_wait (x : Sighting) :
    interceptRound acts x.wait s.world = s.round acts x.report := by
  rw [interceptRound, Sighting.wait, waitStatus_of_shows x.shows]
  rfl

theorem progress_of_isFault {reason : Halt} (h : reason.IsFault) (w : World) :
    reason.progress w = .faulted reason w := by
  cases reason with
  | exit status => exact h.elim
  | segv | intOverflow | corrupt | varargs | diverge => rfl

/-- The handlers of calls that are not denied end the monitor by faults alone. -/
theorem faults_handler {ch : Choice} (h : ch ≠ .deny) (n : Word) : Faults (ch.handler n) := by
  cases ch with
  | deny => exact absurd rfl h
  | os => exact handles_osHandlerOf handles_faults _
  | lind => exact handles_emulated handles_faults (handles_emulationOf handles_faults _)
  | nothing => exact fails_pure _

/-- The round of a syscall stop that is the last. -/
theorem ending_of_syscall (hflag : FlagFits acts s) (hlegal : Legal s rep)
    (hstop : rep.stop.IsSyscall) (hgo : goesOn (s.round acts rep) = false) :
    Ending acts rep (s.round acts rep).state (progress (s.round acts rep)) := by
  by_cases hdeny : choice acts rep.tracee.regs.orig_rax = .deny
  · -- a denied call is at its entry stop
    have hentry : rep.stop = .entry := hstop.resolve_right fun hexit ↦
      (entering_at_exit hflag hlegal hexit).1 hdeny
    have hentering := entering_at_entry hflag hlegal hentry
    have hround : ∃ w, s.round acts rep = .halt (.exit 1) w := by
      rw [round_syscall acts s hstop, hdeny, Choice.handler, monitorDeny, phased_of_entering _ _ _
        (show (s.world.atStop rep.tracee).entering = true from hentering)]
      exact ⟨_, rfl⟩
    obtain ⟨w, hw⟩ := hround
    rw [hw]
    exact .denied hentry hdeny
  · have hfaults := faults_handler hdeny rep.tracee.regs.orig_rax
    rw [round_syscall acts s hstop] at hgo ⊢
    cases hrun : (choice acts rep.tracee.regs.orig_rax).handler rep.tracee.regs.orig_rax rep.env
        (s.world.atStop rep.tracee) with
    | done u w =>
      rw [hrun, Outcome.andThen_done, goesOn] at hgo
      exact absurd (of_decide_eq_false hgo) (not_not.2 hdeny)
    | halt e w =>
      rw [Outcome.andThen_halt, progress, progress_of_isFault (hfaults hrun)]
      exact .faulted hstop hdeny (hfaults hrun)

/-- The last round says how the program ends. -/
theorem ending_of_round (hflag : FlagFits acts s) (hlegal : Legal s rep)
    (hgo : goesOn (s.round acts rep) = false) :
    Ending acts rep (s.round acts rep).state (progress (s.round acts rep)) := by
  cases hstop : rep.stop with
  | entry => exact ending_of_syscall hflag hlegal (.inl hstop) hgo
  | exit => exact ending_of_syscall hflag hlegal (.inr hstop) hgo
  | other sig =>
    rw [round_other acts s hstop] at hgo
    cases hgo
  | exited =>
    have hround : ∃ w, s.round acts rep = .done false w := by
      rw [Sys.round, hstop]
      exact ⟨_, rfl⟩
    obtain ⟨w, hw⟩ := hround
    rw [hw]
    exact .exited hstop
  | killed number =>
    have hround : ∃ w, s.round acts rep = .halt (.exit number) w := by
      rw [Sys.round, hstop]
      exact ⟨_, rfl⟩
    obtain ⟨w, hw⟩ := hround
    rw [hw]
    exact .killed hstop

theorem done_of_goesOn {o : Outcome Halt World Bool} (h : goesOn o = true) :
    o = .done true o.state := by
  cases o with
  | done goOn w => rw [goesOn] at h; rw [h]; rfl
  | halt e w => cases h

/-- The loop follows a run of the system. -/
theorem whileTrue_run {xs : List Sighting} (hrun : Run (SightedStep acts) start xs s)
    (halive : s.alive = true) :
    whileTrue (interceptRound acts) (xs.map Sighting.wait) start.world = .done true s.world := by
  refine Run.whileTrue (fun {s x t} hstep ↦ hstep.1) (fun {s x t} hstep ht ↦ ?_) hrun halive
  obtain ⟨-, -, rfl⟩ := hstep
  rw [step_alive] at ht
  rw [interceptRound_wait, step_world]
  exact done_of_goesOn ht

end Loop

/-- **The program follows the system.** After a run of the system, as its reports are seen in the
raw statuses, `main` waits for the next report, in the same world; or its last report has ended it,
in the way that report does. -/
theorem main_refines {l : Launch} {acts : Actions} (hl : l.Starts acts) {start s : Sys}
    (hstart : Initial start) {xs : List Sighting} (hrun : Run (SightedStep acts) start xs s)
    (first : Wait) :
    (s.alive = true → main l start.world (first :: xs.map Sighting.wait) = .waiting s.world) ∧
      (s.alive = false → ∃ x, xs.getLast? = some x ∧
        Ending acts x.report s.world (main l start.world (first :: xs.map Sighting.wait))) := by
  rw [main_of_starts hl, interceptCalls, List.tail_cons]
  refine ⟨fun halive ↦ by rw [whileTrue_run hrun halive]; rfl, fun hdead ↦ ?_⟩
  cases hrun with
  | nil =>
    rw [hstart.alive] at hdead
    cases hdead
  | @snoc xs s t x hrun hstep =>
    obtain ⟨halive, hlegal, rfl⟩ := hstep
    obtain ⟨reps, hreps⟩ : ∃ reps, Run (Step acts) start reps s :=
      hrun.map id (fun _ ↦ Sighting.report) fun h ↦ h
    rw [step_alive] at hdead
    refine ⟨x, List.getLast?_concat, ?_⟩
    rw [List.map_append, List.map_singleton, whileTrue_concat (whileTrue_run hrun halive),
      interceptRound_wait, step_world]
    exact ending_of_round (flagFits_run hstart hreps halive) hlegal hdead

/-- A launch that finds its configuration, with an empty policy in it. -/
def emptyLaunch : Launch where
  argv := ["lind".toList, "program".toList]
  getenv _ := some []
  files _ := some []
  around := lindActs
  fork := 1
  python := .smooth

theorem starts_emptyLaunch : emptyLaunch.Starts (emptyActions lindActs) where
  named := by decide
  policy := rfl
  forked := by decide
  repyPath := rfl

/-- The tracee exits with the code `42`. -/
def exitSighting : Sighting where
  report := ⟨.exited, ⟨callRegs 0, nullMemory⟩, steadyEnv none⟩
  status := 0x2a00
  shows := ⟨42, by decide, rfl⟩

theorem run_exitSighting (acts : Actions) : Run (SightedStep acts) bootSys ([] ++ [exitSighting])
    (bootSys.step acts exitSighting.report) := Run.nil.snoc ⟨rfl, trivial, rfl⟩

theorem main_refines_exited :
    let p := main emptyLaunch bootSys.world [exitSighting.wait, exitSighting.wait]
    let s := bootSys.step (emptyActions lindActs) exitSighting.report
    (s.alive = true → p = .waiting s.world) ∧
      (s.alive = false → ∃ x, [exitSighting].getLast? = some x ∧
        Ending (emptyActions lindActs) x.report s.world p) :=
  main_refines starts_emptyLaunch initial_bootSys (run_exitSighting _) exitSighting.wait

/-! ### The exit status -/

/-- What the parent of the monitor sees of its status. -/
def Progress.exitCode : Progress → Option ℤ
  | ended status _ => some (status % 2 ^ 8)
  | _ => none

/-- The status of a tracee that was killed is not zero. -/
theorem emod_ne_zero_of_shows {number : ℤ} {status : Status}
    (h : (Stop.killed number).Shows status) : number % 2 ^ 8 ≠ 0 := by
  obtain ⟨rfl, sig, core, hpos, hlt, hcore, hstatus⟩ := h
  rw [BitVec.toInt_eq_toNat_of_lt (by omega)]
  omega

/-- Only a tracee that has exited lets the monitor end with `0`. -/
theorem Ending.exitCode_zero_iff_exited {acts : Actions} {x : Sighting} {w : World} {p : Progress}
    (h : Ending acts x.report w p) : p.exitCode = some 0 ↔ x.report.stop = .exited := by
  have hother (hstop : x.report.stop.IsSyscall) : x.report.stop ≠ .exited := by
    rintro hexited
    rw [hexited] at hstop
    rcases hstop with hstop | hstop <;> cases hstop
  cases h with
  | exited hstop => exact iff_of_true rfl hstop
  | killed hstop =>
    have hshows := x.shows
    rw [hstop] at hshows ⊢
    refine iff_of_false (fun hcode ↦ emod_ne_zero_of_shows hshows ?_) (by simp)
    simpa [Progress.exitCode] using hcode
  | denied hstop => exact iff_of_false (by simp [Progress.exitCode]) (hother (.inl hstop))
  | faulted hstop => exact iff_of_false (by simp [Progress.exitCode]) (hother hstop)

/-- A tracee that has exited is the end of a run. -/
theorem not_alive_of_exited {acts : Actions} {start s : Sys} {xs : List Sighting} {x : Sighting}
    (hrun : Run (SightedStep acts) start xs s) (hlast : xs.getLast? = some x)
    (hexited : x.report.stop = .exited) : s.alive = false := by
  cases hrun with
  | nil => cases hlast
  | snoc hrun hstep =>
    obtain ⟨-, -, rfl⟩ := hstep
    rw [List.getLast?_concat] at hlast
    cases hlast
    rw [step_alive, Sys.round, hexited]
    rfl

/-- **The exit status.** The monitor exits with `0` exactly where it has got to its loop and the
tracee has exited, whatever the tracee exited with: a denied call, a tracee that was killed, a
configuration that is rejected and every other failure on the way show another status or a fault. -/
theorem exitCode_eq_zero_iff {l : Launch} {start : Sys} (hstart : Initial start)
    {xs : List Sighting} (hrun : ∀ acts, l.Starts acts → ∃ s, Run (SightedStep acts) start xs s)
    (first : Wait) :
    (main l start.world (first :: xs.map Sighting.wait)).exitCode = some 0 ↔
      (∃ acts, l.Starts acts) ∧ ∃ x, xs.getLast? = some x ∧ x.report.stop = .exited := by
  by_cases hl : ∃ acts, l.Starts acts
  · obtain ⟨acts, hacts⟩ := hl
    obtain ⟨s, hs⟩ := hrun acts hacts
    obtain ⟨hwaiting, hending⟩ := main_refines hacts hstart hs first
    rw [and_iff_right ⟨acts, hacts⟩]
    cases halive : s.alive with
    | true =>
      rw [hwaiting halive]
      refine iff_of_false (by simp [Progress.exitCode]) ?_
      rintro ⟨x, hlast, hexited⟩
      rw [not_alive_of_exited hs hlast hexited] at halive
      cases halive
    | false =>
      obtain ⟨x, hlast, hend⟩ := hending halive
      rw [hend.exitCode_zero_iff_exited, hlast]
      simp
  · refine iff_of_false ?_ fun h ↦ hl h.1
    rcases main_of_not_starts (fun acts hacts ↦ hl ⟨acts, hacts⟩) start.world
      (first :: xs.map Sighting.wait) with h | h
    · rw [h]
      simp [Progress.exitCode]
    · rw [h]
      simp [Progress.exitCode]

theorem exitCode_eq_zero_iff_exited :
    (main emptyLaunch bootSys.world [exitSighting.wait, exitSighting.wait]).exitCode = some 0 ↔
      (∃ acts, emptyLaunch.Starts acts) ∧
        ∃ x, [exitSighting].getLast? = some x ∧ x.report.stop = .exited :=
  exitCode_eq_zero_iff initial_bootSys (fun acts _ ↦ ⟨_, run_exitSighting acts⟩) exitSighting.wait

end ReferenceMonitor
