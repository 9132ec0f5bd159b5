import ReferenceMonitor.Monitor.Overwriting
import ReferenceMonitor.System.FreshMemory

/-!
# What the host kernel returned for an emulated call

An emulated call is executed by the host kernel as well, which leaves a result in `rax` and may
write to the tracee's memory before the monitor replaces both at the exit stop. Two runs that differ
in these native results alone should therefore not be told apart by the tracee.

`TwinStep` takes two systems through one stop together. They stay alike in every run in which the
replies overwrite what differs (`native_results_hidden`): a call without a result leaves `rax` as
the kernel did, a failed `open` does, and what the kernel wrote beyond the words a handler copies
back stays where it is.
-/

namespace ReferenceMonitor

open Halting

/-! ### Twins -/

/-- A stop of two systems. They are shown the same task, but for what the kernel left of an emulated
call, and Lind answers alike. -/
structure Twin where
  /-- The stop, as the first system sees it. -/
  rep : Report
  /-- The task, as the second system sees it. -/
  native : Tracee
  /-- The answers to the requests sent at this stop. -/
  answers : ℕ → Option Response

/-- The call of the stop is one of those emulated, and has been executed. -/
def Twin.Leaves (acts : Actions) (l : Twin) : Prop :=
  l.rep.stop = .exit ∧ choice acts l.rep.tracee.regs.orig_rax = .lind

/-- The report to the first system. -/
def Twin.first (l : Twin) (s : Sys) : Report := l.rep.answering s l.answers

/-- The report to the second. -/
def Twin.second (l : Twin) (s : Sys) : Report :=
  { l.rep with tracee := l.native }.answering s l.answers

/-- Only an emulated call has native results: the value in `rax`, and what memory holds. -/
structure Twin.Native (acts : Actions) (l : Twin) : Prop where
  regs : l.native.regs = { l.rep.tracee.regs with rax := l.native.regs.rax }
  map : l.rep.tracee.mem.SameMap l.native.mem
  eq : ¬ l.Leaves acts → l.native = l.rep.tracee

/-- Two systems take a step together. -/
def TwinStep (acts : Actions) (p : Sys × Sys) (l : Twin) (q : Sys × Sys) : Prop :=
  Step acts p.1 (l.first p.1) q.1 ∧ Step acts p.2 (l.second p.2) q.2 ∧ l.Native acts

/-- What the tracee sees of a system that resumes it. -/
structure SameOutcome (s s' : Sys) : Prop where
  rax : s'.world.tracee.regs.rax = s.world.tracee.regs.rax
  mem : s'.world.tracee.mem = s.world.tracee.mem

/-! ### The condition -/

/-- The call sets `rax`, given the answer to its request. -/
def LindCall.SetsRax (r : SyscallArgs) (answer : Option Response) (c : LindCall) : Prop :=
  ¬ c.Idle r ∧ (c = .open → ∀ resp, answer = some resp → 0 ≤ (judge resp).status)

/-- What the kernel left is overwritten: `rax` by a call that sets it, and memory by what the
handler copies back; nothing the kernel wrote decides where that is. -/
structure LindCall.Overwrites (c : LindCall) (l : Twin) : Prop where
  rax : l.native.regs.rax = l.rep.tracee.regs.rax ∨
    c.SetsRax (argsOf l.rep.tracee.regs) (l.answers c.own)
  steered : c.SteeredAlike l.rep.env l.rep.tracee.mem l.native.mem (argsOf l.rep.tracee.regs)
  mem : ∀ x, l.rep.tracee.mem.byte x ≠ l.native.mem.byte x →
    ∃ resp, l.answers c.own = some resp ∧
      ∃ a ∈ c.overwritten l.rep.env l.rep.tracee.mem (argsOf l.rep.tracee.regs) (judge resp),
        l.rep.tracee.mem.Pokeable a ∧ InWord a x

/-- The native results of the stop are overwritten; a call without a handler overwrites `rax`. -/
def Twin.Overwritten (acts : Actions) (l : Twin) : Prop :=
  l.Leaves acts →
    match l.rep.lindCall with
    | none => ∀ x, l.rep.tracee.mem.byte x = l.native.mem.byte x
    | some c => c.Overwrites l

/-! ### Emulated calls -/

section Emulated

variable {env : Env} {w u : World} {answers : ℕ → Option Response} {r : SyscallArgs} {res : Result}
  {c : LindCall}

theorem eq_none_of_idle (h : c.Idle r) (he : c.emulation r env w = .done res u) : res = none := by
  cases c with
  | getpeername =>
    cases he
    rfl
  | getcwd =>
    obtain ⟨path, t, -, he⟩ := Outcome.andThen_eq_done_iff.1 he
    cases he
    rfl
  | close =>
    rw [LindCall.emulation, monitorClose, if_neg (not_le.2 h)] at he
    cases he
    rfl
  | _ => exact absurd h (by rintro ⟨⟩)

/-- `monitor_open` returns what the answer says. -/
theorem replied_open (hl : ∀ l, env.lind l = answers (l.length - w.requests.length))
    (he : monitorOpen r env w = .done res u) :
    ∃ resp, answers 1 = some resp ∧
      LindCall.reply env w.tracee.mem r (judge resp) .open = some res := by
  rw [monitorOpen, bind_apply] at he
  cases hq : getPath r.arg1 (env, w.tracee.mem) [] with
  | halt e log =>
    rw [fetch_halt hq] at he
    cases he
  | done path log =>
    rw [fetch_done hq, Outcome.andThen_done, bind_apply, lindCall_apply, verdictOn, hl,
      List.length_cons, Nat.add_sub_cancel_left] at he
    cases ha : answers 1 with
    | none =>
      rw [ha] at he
      cases he
    | some resp =>
      rw [ha, Option.map_some] at he
      dsimp only at he
      obtain ⟨u', hu, -, -⟩ := enterDescriptor_done r none (judge resp) env
        ({ w with trace := log.map Event.foreign ++ w.trace }.answered
          (lindOpen path (cInt r.arg2) (cInt r.arg3)) (judge resp))
      rw [Outcome.andThen_done, hu] at he
      cases he
      exact ⟨resp, rfl, rfl⟩

/-- An emulation that returns and is not idle has had its answer. -/
theorem replied_of_done (hl : ∀ l, env.lind l = answers (l.length - w.requests.length))
    (hidle : ¬ c.Idle r) (he : c.emulation r env w = .done res u) :
    ∃ resp, answers c.own = some resp ∧ c.reply env w.tracee.mem r (judge resp) = some res := by
  rcases own_cases c with hown | hown
  · by_cases hopen : c = .open
    · subst hopen
      exact replied_open hl he
    have hex := exchange_emulation hown r env w
    rw [he] at hex
    rw [hown]
    cases hex with
    | idle => exact absurd rfl (replies_emulation hidle hopen he)
    | replied hu hs hr =>
      rw [hl, hu, List.length_cons, Nat.add_sub_cancel_left] at hs
      exact ⟨_, hs, hr⟩
  · have hpos := positioned_emulation hl hown r (Eq.refl w.requests.length)
    rw [he] at hpos
    rw [hown]
    cases hpos with
    | replied ha hr _ => exact ⟨_, ha, hr⟩

/-- A call that sets `rax` has a result. -/
theorem ne_none_of_setsRax (hl : ∀ l, env.lind l = answers (l.length - w.requests.length))
    (h : c.SetsRax r (answers c.own)) (he : c.emulation r env w = .done res u) : res ≠ none := by
  obtain ⟨hidle, hopen⟩ := h
  by_cases hc : c = .open
  · subst hc
    obtain ⟨resp, ha, hres⟩ := replied_open hl he
    obtain rfl : enterResult none (judge resp) = res := Option.some.inj hres
    rw [enterResult, if_pos (hopen rfl resp ha)]
    exact Option.some_ne_none _
  · exact replies_emulation hidle hc he

/-- An idle call copies nothing back. -/
theorem overwritten_of_idle {m : ByteMemory} {v : Verdict} (h : c.Idle r) :
    c.overwritten env m r v = [] := by
  cases c with
  | getpeername | getcwd | close => rfl
  | _ => exact absurd h (by rintro ⟨⟩)

end Emulated

/-- How a task is resumed from the exit stop of an emulated call: by a result, which is the reply to
the answer unless the call is idle. -/
structure Left (rep : Report) (answers : ℕ → Option Response) (c : LindCall) (t : Tracee)
    (res : Result) : Prop where
  rax : t.regs.rax = (res.map Prod.fst).getD rep.tracee.regs.rax
  mem : t.mem = copyMem rep.env rep.tracee.mem (backsOf res)
  idle : c.Idle (argsOf rep.tracee.regs) → res = none
  replied : ¬ c.Idle (argsOf rep.tracee.regs) → ∃ resp, answers c.own = some resp ∧
    c.reply rep.env rep.tracee.mem (argsOf rep.tracee.regs) (judge resp) = some res
  sets : c.SetsRax (argsOf rep.tracee.regs) (answers c.own) → res ≠ none

section Round

variable {acts : Actions} {s s' : Sys} {rep : Report} {answers : ℕ → Option Response} {c : LindCall}

theorem exists_left (h : LeavesEmulated acts s (rep.answering s answers))
    (hc : rep.lindCall = some c)
    (hgo : goesOn (s.round acts (rep.answering s answers)) = true) :
    ∃ res, Left rep answers c (s.round acts (rep.answering s answers)).state.tracee res := by
  cases he : s.emulate (rep.answering s answers) with
  | halt e u =>
    rw [(round_of_halt h he).1] at hgo
    cases hgo
  | done res u =>
    have hemulate : s.emulate (rep.answering s answers) =
        c.emulation (argsOf rep.tracee.regs) (rep.env.answering s.world answers)
          (s.world.atLeave rep.tracee) := emulate_of_ofNr hc
    have hem := hemulate.symm.trans he
    have hl (l : List Request) : (rep.env.answering s.world answers).lind l =
        answers (l.length - (s.world.atLeave rep.tracee).requests.length) := rfl
    refine ⟨res, ?_, ?_, fun hidle ↦ eq_none_of_idle hidle hem, fun hidle ↦ ?_,
      fun hsets ↦ ne_none_of_setsRax hl hsets hem⟩
    · rw [(round_of_done h he).2.1, rax_regsAfter]
      rfl
    · rw [(round_of_done h he).2.1, memAfter_eq]
      rfl
    · obtain ⟨resp, ha, hres⟩ := replied_of_done hl hidle hem
      rw [Env.answering, reply_withLind] at hres
      exact ⟨resp, ha, hres⟩

/-- Two tasks that are resumed from one stop cannot be told apart, where the native results are
overwritten. -/
theorem sameOutcome_of_left {l : Twin} {t t' : Tracee} {res res' : Result} (hn : l.Native acts)
    (ho : c.Overwrites l) (h : Left l.rep l.answers c t res)
    (h' : Left { l.rep with tracee := l.native } l.answers c t' res') :
    t'.regs.rax = t.regs.rax ∧ t'.mem = t.mem := by
  have hargs (v : Verdict) : c.reply l.rep.env l.native.mem (argsOf l.native.regs) v =
      c.reply l.rep.env l.native.mem (argsOf l.rep.tracee.regs) v := by
    rw [hn.regs, reply_rax]
  have hidle : c.Idle (argsOf l.native.regs) ↔ c.Idle (argsOf l.rep.tracee.regs) := by
    rw [hn.regs]
    exact Iff.rfl
  have hrax : res'.map Prod.fst = res.map Prod.fst → t'.regs.rax = t.regs.rax := fun hret ↦ by
    rw [h.rax, h'.rax, hret]
    rcases ho.rax with heq | hsets
    · rw [heq]
    · obtain ⟨p, rfl⟩ := Option.ne_none_iff_exists'.1 (h.sets hsets)
      rfl
  by_cases hi : c.Idle (argsOf l.rep.tracee.regs)
  · -- nothing is copied back here, so nothing can have differed
    obtain rfl := h.idle hi
    obtain rfl := h'.idle (hidle.2 hi)
    have hm : l.native.mem = l.rep.tracee.mem := eq_of_sameMap hn.map fun x ↦ by
      by_contra hne
      obtain ⟨resp, -, a, ha, -⟩ := ho.mem x hne
      rw [overwritten_of_idle hi] at ha
      exact absurd ha List.not_mem_nil
    refine ⟨hrax rfl, ?_⟩
    rw [h.mem, h'.mem, hm]
  · -- both replies answer the same response
    obtain ⟨resp, ha, hres⟩ := h.replied hi
    obtain ⟨resp', ha', hres'⟩ := h'.replied fun hi' ↦ hi (hidle.1 hi')
    obtain rfl : resp = resp' := Option.some.inj (ha.symm.trans ha')
    dsimp only at hres'
    rw [hargs] at hres'
    obtain ⟨hret, hmem⟩ := copyMem_reply_congr hn.map ho.steered hres hres' fun x hx ↦ by
      obtain ⟨resp', ha', hwords⟩ := ho.mem x hx
      obtain rfl : resp = resp' := Option.some.inj (ha.symm.trans ha')
      exact hwords
    refine ⟨hrax hret, ?_⟩
    rw [h.mem, h'.mem]
    exact hmem

/-- Two systems that leave an emulated call without a handler, or with one. -/
theorem sameOutcome_leaving {l : Twin} (h : LeavesEmulated acts s (l.first s))
    (h' : LeavesEmulated acts s' (l.second s')) (hn : l.Native acts) (ho : l.Overwritten acts)
    (hgo : goesOn (s.round acts (l.first s)) = true)
    (hgo' : goesOn (s'.round acts (l.second s')) = true) :
    (s'.round acts (l.second s')).state.tracee.regs.rax =
        (s.round acts (l.first s)).state.tracee.regs.rax ∧
      (s'.round acts (l.second s')).state.tracee.mem =
        (s.round acts (l.first s)).state.tracee.mem := by
  have hcond := ho ⟨h.exit, h.lind⟩
  have hcall : ({ l.rep with tracee := l.native } : Report).lindCall = l.rep.lindCall := by
    rw [Report.lindCall, Report.lindCall, hn.regs]
  cases hc : l.rep.lindCall with
  | some c =>
    rw [hc] at hcond
    obtain ⟨res, hleft⟩ := exists_left h hc hgo
    obtain ⟨res', hleft'⟩ := exists_left h' (hcall.trans hc) hgo'
    exact sameOutcome_of_left hn hcond hleft hleft'
  | none =>
    rw [hc] at hcond
    obtain ⟨u, he⟩ : ∃ u, s.emulate (l.first s) = .done (some (einval, [])) u :=
      emulate_of_ofNr_none hc
    obtain ⟨u', he'⟩ : ∃ u, s'.emulate (l.second s') = .done (some (einval, [])) u :=
      emulate_of_ofNr_none (hcall.trans hc)
    rw [(round_of_done h he).2.1, (round_of_done h' he').2.1]
    refine ⟨rfl, ?_⟩
    rw [memAfter_eq, memAfter_eq]
    exact eq_of_sameMap hn.map hcond

end Round

/-! ### Other stops -/

/-- The value in `rax` and the memory are kept. -/
structure Passes (w w' : World) : Prop where
  regs : RegKeeps UserRegs.rax w w'
  mem : w'.tracee.mem = w.tracee.mem

instance : Std.Refl Passes := ⟨fun w ↦ ⟨refl_of _ w, rfl⟩⟩

instance : IsTrans World Passes :=
  ⟨fun _ _ _ h h' ↦ ⟨trans_of _ h.regs h'.regs, h'.mem.trans h.mem⟩⟩

theorem observes_passes : Observes Passes where
  branch _ _ := keeps_modify fun _ ↦ ⟨⟨rfl, .inl rfl⟩, rfl⟩
  read _ := keeps_focus _ fun _ _ ↦ ⟨⟨rfl, .inl rfl⟩, rfl⟩
  setEntering _ := keeps_modify fun _ ↦ ⟨⟨rfl, .inl rfl⟩, rfl⟩

theorem passes_osHandlerOf (n : ℤ) : Keeps Passes (osHandlerOf n) :=
  observes_passes.osHandlerOf (fun _ ↦ keeps_modify fun _ ↦ ⟨⟨rfl, .inl rfl⟩, rfl⟩) fun _ ↦
    observes_passes.monitorMmap (keeps_modify fun _ ↦ ⟨⟨rfl, .inr rfl⟩, rfl⟩)
      fun _ _ ↦ ⟨⟨rfl, .inl rfl⟩, rfl⟩

/-- Away from the exit stops of emulated calls, a round that goes on shows the tracee what it was.
-/
theorem round_passes {acts : Actions} {s : Sys} {rep : Report}
    (hleaves : ¬ (rep.stop = .exit ∧ choice acts rep.tracee.regs.orig_rax = .lind))
    (hflag : rep.stop = .entry → s.world.entering = true)
    (hgo : goesOn (s.round acts rep) = true) :
    (s.round acts rep).state.tracee.regs.rax = rep.tracee.regs.rax ∧
      (s.round acts rep).state.tracee.mem = rep.tracee.mem := by
  by_cases hstop : rep.stop.IsSyscall
  swap
  · obtain ⟨regs, hstate⟩ := state_round_of_not_syscall acts s hstop
    rw [hstate]
    exact ⟨rfl, rfl⟩
  by_cases hlind : choice acts rep.tracee.regs.orig_rax = .lind
  · have hentry : rep.stop = .entry := hstop.resolve_right fun hexit ↦ hleaves ⟨hexit, hlind⟩
    rw [round_entering hstop (hflag hentry) hlind]
    exact ⟨rfl, rfl⟩
  have hpass : Keeps Passes
      ((choice acts rep.tracee.regs.orig_rax).handler rep.tracee.regs.orig_rax) := by
    cases hc : choice acts rep.tracee.regs.orig_rax with
    | deny =>
      rw [not_goesOn_of_deny hstop hc] at hgo
      cases hgo
    | os => exact passes_osHandlerOf _
    | lind => exact absurd hc hlind
    | nothing => exact keeps_pure _
  obtain ⟨hregs, hmem⟩ := hpass rep.env (s.world.atStop rep.tracee)
  rw [state_round_syscall acts s hstop]
  refine ⟨?_, hmem⟩
  rcases hregs.tracee with h | h <;> exact h

/-! ### Runs -/

section Runs

variable {acts : Actions} {start : Sys} {ls : List Twin} {p q : Sys × Sys} {l : Twin}

theorem run_first (h : Run (TwinStep acts) (start, start) ls p) :
    ∃ reps, Run (Step acts) start reps p.1 :=
  h.map Prod.fst (fun p l ↦ l.first p.1) fun hstep ↦ hstep.1

theorem run_second (h : Run (TwinStep acts) (start, start) ls p) :
    ∃ reps, Run (Step acts) start reps p.2 :=
  h.map Prod.snd (fun p l ↦ l.second p.2) fun hstep ↦ hstep.2.1

/-- **One step** keeps two systems alike. -/
theorem sameOutcome_step (hstart : Initial start) (hrun : Run (TwinStep acts) (start, start) ls p)
    (hstep : TwinStep acts p l q) (ho : l.Overwritten acts) (halive : q.1.alive = true)
    (halive' : q.2.alive = true) : SameOutcome q.1 q.2 := by
  obtain ⟨reps, hfirst⟩ := run_first hrun
  obtain ⟨reps', hsecond⟩ := run_second hrun
  obtain ⟨hs, hs', hn⟩ := hstep
  have hq : q.1 = p.1.step acts (l.first p.1) := hs.2.2
  have hq' : q.2 = p.2.step acts (l.second p.2) := hs'.2.2
  rw [hq, step_alive] at halive
  rw [hq', step_alive] at halive'
  by_cases hl : l.Leaves acts
  · have horig : l.native.regs.orig_rax = l.rep.tracee.regs.orig_rax := by rw [hn.regs]
    have hlind : choice acts l.native.regs.orig_rax = .lind := by
      rw [horig]
      exact hl.2
    obtain ⟨hrax, hmem⟩ := sameOutcome_leaving
      (leavesEmulated_of_run hstart hfirst hs hl.1 hl.2)
      (leavesEmulated_of_run hstart hsecond hs' hl.1 hlind) hn ho halive halive'
    exact ⟨by rw [hq, hq', step_world, step_world, hrax],
      by rw [hq, hq', step_world, step_world, hmem]⟩
  · have hnative := hn.eq hl
    have hl' : ¬ (l.rep.stop = .exit ∧ choice acts l.native.regs.orig_rax = .lind) := by
      rw [hnative]
      exact hl
    have hpass : (p.1.round acts (l.first p.1)).state.tracee.regs.rax = l.rep.tracee.regs.rax ∧
        (p.1.round acts (l.first p.1)).state.tracee.mem = l.rep.tracee.mem :=
      round_passes hl (entering_at_entry (flagFits_run hstart hfirst hs.1) hs.2.1) halive
    have hpass' : (p.2.round acts (l.second p.2)).state.tracee.regs.rax = l.native.regs.rax ∧
        (p.2.round acts (l.second p.2)).state.tracee.mem = l.native.mem :=
      round_passes hl' (entering_at_entry (flagFits_run hstart hsecond hs'.1) hs'.2.1) halive'
    exact ⟨by rw [hq, hq', step_world, step_world, hpass.1, hpass'.1, hnative],
      by rw [hq, hq', step_world, step_world, hpass.2, hpass'.2, hnative]⟩

end Runs

/-- The entry stop of `getuid`, seen twice. -/
def getuidCall : Twin := ⟨getuidEntry, getuidEntry.tracee, identityAnswers⟩

/-- Its exit stop: the kernel has returned the identity 0 to one task, and 1000 to the other. -/
def getuidReturn : Twin :=
  ⟨getuidExit, ⟨{ callRegs 102 with rax := 1000 }, nullMemory⟩, identityAnswers⟩

/-- Two systems after a stop. -/
def stepBoth (acts : Actions) (p : Sys × Sys) (l : Twin) : Sys × Sys :=
  (p.1.step acts (l.first p.1), p.2.step acts (l.second p.2))

theorem twinStep_stepBoth {acts : Actions} {p : Sys × Sys} {l : Twin} (hfirst : p.1.alive = true)
    (hsecond : p.2.alive = true) (hlegal : Legal p.1 (l.first p.1))
    (hlegal' : Legal p.2 (l.second p.2)) (hn : l.Native acts) :
    TwinStep acts p l (stepBoth acts p l) :=
  ⟨⟨hfirst, hlegal, rfl⟩, ⟨hsecond, hlegal', rfl⟩, hn⟩

/-- Two systems after `getuid`. -/
def getuidSystems : Sys × Sys :=
  stepBoth lindActs (stepBoth lindActs (bootSys, bootSys) getuidCall) getuidReturn

theorem run_getuidSystems : Run (TwinStep lindActs) (bootSys, bootSys)
    ([] ++ [getuidCall] ++ [getuidReturn]) getuidSystems := by
  have hcall : TwinStep lindActs (bootSys, bootSys) getuidCall
      (stepBoth lindActs (bootSys, bootSys) getuidCall) :=
    twinStep_stepBoth rfl rfl trivial trivial ⟨rfl, ByteMemory.SameMap.rfl, fun _ ↦ rfl⟩
  refine (Run.nil.snoc hcall).snoc (twinStep_stepBoth rfl rfl ?_ ?_ ?_)
  · exact ⟨rfl, by decide⟩
  · exact ⟨rfl, by decide⟩
  · exact ⟨rfl, ByteMemory.SameMap.rfl, fun h ↦ absurd ⟨rfl, by decide⟩ h⟩

/-- The entry stop of `socketpair`. -/
def pairCall : Twin :=
  ⟨⟨.entry, ⟨callRegs 53, zeroMemory⟩, steadyEnv none⟩, ⟨callRegs 53, zeroMemory⟩, identityAnswers⟩

/-- Its exit stop: the kernel has stored its descriptors 3 and 4 for the second task. -/
def pairReturn : Twin :=
  ⟨⟨.exit, ⟨callRegs 53, zeroMemory⟩, steadyEnv none⟩,
    ⟨callRegs 53, zeroMemory.storeWord 0 0x0000000400000003⟩, identityAnswers⟩

/-- Two systems after `socketpair`. -/
def pairSystems : Sys × Sys :=
  stepBoth lindActs (stepBoth lindActs (bootSys, bootSys) pairCall) pairReturn

theorem run_pairSystems : Run (TwinStep lindActs) (bootSys, bootSys)
    ([] ++ [pairCall] ++ [pairReturn]) pairSystems := by
  have hcall : TwinStep lindActs (bootSys, bootSys) pairCall
      (stepBoth lindActs (bootSys, bootSys) pairCall) :=
    twinStep_stepBoth rfl rfl trivial trivial ⟨rfl, ByteMemory.SameMap.rfl, fun _ ↦ rfl⟩
  refine (Run.nil.snoc hcall).snoc (twinStep_stepBoth rfl rfl ?_ ?_ ?_)
  · exact ⟨rfl, by decide⟩
  · exact ⟨rfl, by decide⟩
  · exact ⟨rfl, ByteMemory.sameMap_storeWord (fun _ _ ↦ rfl) _, fun h ↦ absurd ⟨rfl, by decide⟩ h⟩

end ReferenceMonitor
