import Mathlib.Logic.Function.Basic
import ReferenceMonitor.System.Leaving
import ReferenceMonitor.System.Preservation

/-!
# The descriptor table over a run

The table is to say, for a descriptor of Lind, which descriptor of the host belongs to it: the one
the native half of the call returned whose Lind half created it, and none once it is closed.
`Owners` is that table as it should be, an abstract map that follows the completed calls
(`Owners.after`), and `OwnedStep` is a step of the system together with it.

The monitor's own table only grows. It agrees with the map as long as no step has to remove an
entry, and no status is taken for a descriptor (`Tidy`); while it does, `mmap` receives the right
descriptor.
-/

namespace ReferenceMonitor

open Halting

/-! ### The table as it should be -/

/-- For a descriptor of Lind, the one of the host that belongs to it. -/
abbrev Owners : Type := ℤ → Option ℤ

/-- What a completed call says about descriptors. -/
inductive DescriptorEvent where
  /-- A call whose Lind half returned the descriptor `lind`, and its native half `native`. -/
  | created (native lind : ℤ)
  /-- Lind closed a descriptor. -/
  | closed (lind : ℤ)

/-- The table after a call; a native half that failed leaves no descriptor. -/
def Owners.after (o : Owners) : Option DescriptorEvent → Owners
  | none => o
  | some (.created native lind) =>
    Function.update o lind (if 0 ≤ native then some native else none)
  | some (.closed lind) => Function.update o lind none

/-- The calls that return a descriptor. -/
def LindCall.ReturnsDescriptor : LindCall → Bool
  | .open | openat | dup | dup2 | dup3 | epoll_create | epoll_create1 | socket | accept => true
  | _ => false

/-- What the Lind half of a call returned, where Lind was asked and answered. -/
def lindStatus (s t : Sys) (rep : Report) : Option ℤ :=
  if t.world.requests = s.world.requests then none
  else (rep.env.lind t.world.requests).map fun resp ↦ (judge resp).status

/-- The call, with what its Lind half returned, that a step completes. -/
def completedLind (acts : Actions) (s : Sys) (rep : Report) (t : Sys) : Option (LindCall × ℤ) :=
  if rep.stop = .exit ∧ choice acts rep.tracee.regs.orig_rax = .lind then
    match LindCall.ofNr (cInt rep.tracee.regs.orig_rax), lindStatus s t rep with
    | some c, some status => some (c, status)
    | _, _ => none
  else none

/-- What a completed call says about descriptors, by its registers. -/
def eventOf (r : SyscallArgs) (c : LindCall) (status : ℤ) : Option DescriptorEvent :=
  if status < 0 then none
  else if c = .close then some (.closed (cInt r.arg1))
  else if c.ReturnsDescriptor then some (.created (cInt r.retval) status)
  else none

/-- A step of the system, and of the table as it should be. -/
def OwnedStep (acts : Actions) (p : Sys × Owners) (rep : Report) (q : Sys × Owners) : Prop :=
  Step acts p.1 rep q.1 ∧
    q.2 = p.2.after ((completedLind acts p.1 rep q.1).bind fun c ↦
      eventOf (argsOf rep.tracee.regs) c.1 c.2)

/-! ### The monitor's table -/

/-- The entry for a descriptor of Lind, the newest one. -/
def recorded (table : List (ℤ × ℤ)) (lind : ℤ) : Option ℤ :=
  (table.find? fun m ↦ m.2 = lind).map Prod.fst

theorem recorded_cons (native lind : ℤ) (table : List (ℤ × ℤ)) :
    recorded ((native, lind) :: table) = Function.update (recorded table) lind (some native) := by
  funext l
  by_cases h : lind = l
  · subst h
    simp [recorded]
  · rw [Function.update_of_ne (Ne.symm h)]
    simp [recorded, h]

/-- The step needs no entry to be removed, and takes no status for a descriptor. -/
def TidyAt (table : List (ℤ × ℤ)) (r : SyscallArgs) (c : LindCall) (status : ℤ) : Prop :=
  0 ≤ status →
    (c = .close → recorded table (cInt r.arg1) = none) ∧
    (c.ReturnsDescriptor → cInt r.retval < 0 → recorded table status = none) ∧
    (c.Creates ∧ ¬ c.ReturnsDescriptor → 0 ≤ cInt r.retval →
      recorded table status = some (cInt r.retval))

/-- The steps that need no entry to be removed, and take no status for a descriptor. -/
def TidyStep (acts : Actions) (p : Sys × Owners) (rep : Report) (q : Sys × Owners) : Prop :=
  OwnedStep acts p rep q ∧ ∀ c status, completedLind acts p.1 rep q.1 = some (c, status) →
    TidyAt p.1.world.mappings (argsOf rep.tracee.regs) c status

/-- What a step enters in the table. -/
def enteredBy (r : SyscallArgs) (c : LindCall) (status : ℤ) : List (ℤ × ℤ) :=
  if c.Creates ∧ 0 ≤ status ∧ 0 ≤ cInt r.retval then [(cInt r.retval, status)] else []

theorem creates_of_returnsDescriptor {c : LindCall} (h : c.ReturnsDescriptor) : c.Creates := by
  cases c <;> first | rfl | cases h

/-- **One call.** Under the condition, what is entered is what should be. -/
theorem recorded_entered {table : List (ℤ × ℤ)} {r : SyscallArgs} {c : LindCall} {status : ℤ}
    (h : TidyAt table r c status) :
    recorded (enteredBy r c status ++ table) =
      Owners.after (recorded table) (eventOf r c status) := by
  by_cases hs : status < 0
  · rw [enteredBy, if_neg (by omega), eventOf, if_pos hs]
    rfl
  obtain ⟨hclose, hret, hstat⟩ := h (not_lt.1 hs)
  rw [eventOf, if_neg hs]
  by_cases hc : c = .close
  · rw [if_pos hc, enteredBy, if_neg (by simp [hc, LindCall.Creates]), Owners.after, ← hclose hc,
      Function.update_eq_self]
    rfl
  rw [if_neg hc]
  by_cases hd : c.ReturnsDescriptor
  · rw [if_pos hd, Owners.after, enteredBy]
    by_cases hn : 0 ≤ cInt r.retval
    · rw [if_pos ⟨creates_of_returnsDescriptor hd, not_lt.1 hs, hn⟩, if_pos hn]
      exact recorded_cons _ _ _
    · -- the host has no descriptor for it: the one recorded before must be none, too
      rw [if_neg fun h ↦ hn h.2.2, if_neg hn, ← hret hd (not_le.1 hn), Function.update_eq_self]
      rfl
  · rw [if_neg hd, Owners.after, enteredBy]
    split_ifs with hcreate
    · rw [List.singleton_append, recorded_cons, ← hstat ⟨hcreate.1, hd⟩ hcreate.2.2,
        Function.update_eq_self]
    · rfl

/-! ### What a round does to the table -/

/-- The table is as it was. -/
structure SameTable (w w' : World) : Prop where
  mappings : w'.mappings = w.mappings

instance : Std.Refl SameTable := ⟨fun _ ↦ ⟨rfl⟩⟩

instance : IsTrans World SameTable := ⟨fun _ _ _ h h' ↦ ⟨h'.mappings.trans h.mappings⟩⟩

theorem sameTable_fetch {α : Type} (q : Fetch α) : Keeps SameTable (fetch q) :=
  keeps_focus q fun _ _ ↦ ⟨rfl⟩

theorem tolerates_sameTable : Tolerates SameTable where
  branch _ _ := keeps_modify fun _ ↦ ⟨rfl⟩
  read _ := sameTable_fetch _
  setEntering _ := keeps_modify fun _ ↦ ⟨rfl⟩
  setRetval _ := keeps_modify fun _ ↦ ⟨rfl⟩
  setArgs := keeps_modify fun _ ↦ ⟨rfl⟩

theorem permits_sameTable : Permits SameTable where
  read := sameTable_fetch
  send _ := (keeps_modify fun _ ↦ ⟨rfl⟩).bind fun _ ↦ keeps_ask.bind fun _ ↦ keeps_get.bind fun _ ↦
    keeps_pure _
  setErrno _ := keeps_modify fun _ ↦ ⟨rfl⟩

/-- The calls that set a position first enter nothing. -/
theorem sameTable_positioned {c : LindCall} (h : c.own = 3) (r : SyscallArgs) :
    Keeps SameTable (c.emulation r) := by
  cases c with
  | pread64 => exact permits_sameTable.monitorPread64 r
  | pwritev => exact permits_sameTable.monitorPwritev r
  | _ => cases h

theorem creates_eq_false_of_own {c : LindCall} (h : c.own = 3) : c.Creates = false := by
  cases c <;> first | rfl | cases h

section Round

variable {acts : Actions} {s t : Sys} {rep : Report}

/-- A round that leaves no emulated call leaves the table as it was. -/
theorem mappings_round_of_not_leaving
    (h : ¬ (rep.stop.IsSyscall ∧ s.world.entering = false ∧
      choice acts rep.tracee.regs.orig_rax = .lind)) :
    (s.round acts rep).state.mappings = s.world.mappings := by
  by_cases hstop : rep.stop.IsSyscall
  swap
  · obtain ⟨regs, hstate⟩ := state_round_of_not_syscall acts s hstop
    rw [hstate]
  by_cases hlind : choice acts rep.tracee.regs.orig_rax = .lind
  · have hflag : s.world.entering = true := by
      by_contra hno
      exact h ⟨hstop, Bool.eq_false_iff.2 hno, hlind⟩
    rw [round_entering hstop hflag hlind]
    rfl
  rw [state_round_syscall acts s hstop]
  cases hc : choice acts rep.tracee.regs.orig_rax with
  | deny =>
    exact (tolerates_sameTable.monitorDeny (fun _ ↦ keeps_modify fun _ ↦ ⟨rfl⟩) rep.env
      (s.world.atStop rep.tracee)).mappings
  | os =>
    exact (tolerates_sameTable.osHandlerOf (fun _ ↦ keeps_modify fun _ ↦ ⟨rfl⟩)
      (fun _ ↦ tolerates_sameTable.monitorMmap fun _ _ ↦ ⟨rfl⟩) rep.env
      (s.world.atStop rep.tracee)).mappings
  | lind => exact absurd hc hlind
  | nothing => rfl

/-- A round that leaves an emulated call enters what its status says. -/
theorem mappings_round_of_leaving (h : LeavesEmulated acts s rep)
    (hgo : goesOn (s.round acts rep) = true) :
    (s.round acts rep).state.mappings =
      ((completedLind acts s rep (s.step acts rep)).elim [] fun c ↦
        enteredBy (argsOf rep.tracee.regs) c.1 c.2) ++ s.world.mappings := by
  cases he : s.emulate rep with
  | halt e u =>
    rw [(round_of_halt h he).1] at hgo
    cases hgo
  | done res u =>
    obtain ⟨-, -, hreq, hmap⟩ := round_of_done h he
    rw [hmap, completedLind, if_pos ⟨h.exit, h.lind⟩, lindStatus, step_world, hreq]
    cases hc : LindCall.ofNr (cInt rep.tracee.regs.orig_rax) with
    | none =>
      rw [Sys.emulate, emulationOf, hc] at he
      cases he
      rfl
    | some c =>
      rcases own_cases c with hown | hown
      · have hex := exchange_emulate (s := s) hc hown
        rw [he] at hex
        cases hex with
        | idle hr hm =>
          rw [if_pos hr, hm]
          rfl
        | replied hr hs _ hm =>
          have hne : u.requests ≠ s.world.requests := by
            rw [hr]
            exact List.cons_ne_self _ _
          rw [if_neg hne, hs, hm]
          simp only [LindCall.entered, enteredFd, Option.map_some, Option.elim_some, enteredBy]
          by_cases hcr : c.Creates <;> simp [hcr]
      · -- the calls that position the file ask more than once, and enter nothing
        have hkeep := (sameTable_positioned hown (argsOf rep.tracee.regs) rep.env
          (s.world.atLeave rep.tracee)).mappings
        rw [emulate_of_ofNr hc] at he
        rw [he, Outcome.state_done, atLeave_mappings] at hkeep
        rw [hkeep]
        split
        · rename_i c' status hcs _
          cases hcs
          simp [enteredBy, creates_eq_false_of_own hown]
        · rfl

end Round

/-! ### Runs -/

/-- The monitor's table is the one it should be, and its entries are descriptors. -/
structure Matches (s : Sys) (o : Owners) : Prop where
  owners : recorded s.world.mappings = o
  entries : ∀ m ∈ s.world.mappings, 0 ≤ m.1 ∧ m.1 < 2 ^ 31 ∧ 0 ≤ m.2

theorem cInt_bounds (w : Word) : -2 ^ 31 ≤ cInt w ∧ cInt w < 2 ^ 31 :=
  ⟨BitVec.le_toInt (w.setWidth 32), BitVec.toInt_lt (x := w.setWidth 32)⟩

/-- **One step** keeps the two tables together, where nothing has to be removed. -/
theorem matches_step {acts : Actions} {p q : Sys × Owners} {rep : Report}
    (hflag : FlagFits acts p.1) (hm : Matches p.1 p.2) (hstep : TidyStep acts p rep q)
    (halive : q.1.alive = true) : Matches q.1 q.2 := by
  obtain ⟨⟨⟨-, hlegal, ht⟩, hq⟩, htidy⟩ := hstep
  have hmap : q.1.world.mappings = (p.1.round acts rep).state.mappings := by rw [ht, step_world]
  by_cases hleave : rep.stop = .exit ∧ choice acts rep.tracee.regs.orig_rax = .lind
  · obtain ⟨hexit, hlind⟩ := hleave
    have hl : LeavesEmulated acts p.1 rep := by
      refine ⟨hexit, ?_, hlind⟩
      have hent := (entering_at_exit hflag hlegal hexit).2
      rwa [decide_eq_true (show HasPhases acts rep.tracee.regs.orig_rax by
        rw [HasPhases, hlind]; trivial)] at hent
    rw [ht, step_alive] at halive
    rw [mappings_round_of_leaving hl halive, ← ht] at hmap
    cases hc : completedLind acts p.1 rep q.1 with
    | none =>
      rw [hc] at hmap hq
      exact ⟨by rw [hmap, hq]; exact hm.owners, by rw [hmap]; exact hm.entries⟩
    | some c =>
      rw [hc] at hmap hq
      refine ⟨?_, ?_⟩
      · rw [hmap, hq, Option.elim_some, recorded_entered (htidy c.1 c.2 hc), hm.owners]
        rfl
      · rw [hmap, Option.elim_some]
        intro m hmem
        rcases List.mem_append.1 hmem with hnew | hold
        · rw [enteredBy] at hnew
          split_ifs at hnew with hcond
          · rw [List.mem_singleton.1 hnew]
            exact ⟨hcond.2.2, (cInt_bounds _).2, hcond.2.1⟩
          · exact absurd hnew List.not_mem_nil
        · exact hm.entries m hold
  · rw [completedLind, if_neg hleave] at hq
    rw [mappings_round_of_not_leaving] at hmap
    · exact ⟨by rw [hmap, hq]; exact hm.owners, by rw [hmap]; exact hm.entries⟩
    · -- a leaving branch of an emulated call is at its exit stop
      rintro ⟨hstop, hent, hlind⟩
      rcases hstop with hentry | hexit
      · rw [entering_at_entry hflag hlegal hentry] at hent
        cases hent
      · exact hleave ⟨hexit, hlind⟩

/-- **Every run** of such steps keeps the two tables together. -/
theorem matches_run {acts : Actions} {start : Sys} {p : Sys × Owners} {reps : List Report}
    (hstart : Initial start) (hrun : Run (TidyStep acts) (start, fun _ ↦ none) reps p) :
    p.1.alive = true → FlagFits acts p.1 ∧ Matches p.1 p.2 := by
  refine hrun.invariant
    (I := fun _ p ↦ p.1.alive = true → FlagFits acts p.1 ∧ Matches p.1 p.2) (fun _ ↦ ?_) ?_
  · refine ⟨?_, ?_, ?_⟩
    · rw [FlagFits, hstart.phase]
      exact hstart.entering
    · rw [hstart.mappings]
      rfl
    · rw [hstart.mappings]
      exact fun m hm ↦ absurd hm List.not_mem_nil
  · intro reps p rep q _ hinv hstep halive
    obtain ⟨hflag, hm⟩ := hinv hstep.1.1.1
    exact ⟨flagFits_step hflag hstep.1.1 halive, matches_step hflag hm hstep halive⟩

/-! ### `mmap` -/

/-- The Repy functions: `get_lind_map_to_native` returns what was recorded last, and something that
is no integer where nothing was. -/
def Records (env : Env) : Prop := ∀ table fd,
  match recorded table fd with
  | some native => env.lookup table fd = some (.int native)
  | none => ∃ v, env.lookup table fd = some v ∧ v.asLong = none

/-- The descriptor the host kernel receives with an `mmap`. -/
def HostCall.fd (c : HostCall) : ℤ := cInt (c.args.getD 4 0)

/-- The descriptor is the owner of the one the tracee passed, and negative where it has none. -/
def RightFd (o : Owners) (lind : ℤ) (c : HostCall) : Prop :=
  match o lind with
  | some native => c.fd = native
  | none => c.fd < 0

/-- The entry stop of an `mmap` the policy leaves to the host. -/
structure EntersMmap (acts : Actions) (rep : Report) : Prop where
  entry : rep.stop = .entry
  os : choice acts rep.tracee.regs.orig_rax = .os
  mmap : cInt rep.tracee.regs.orig_rax = OsCall.mmap.nr

theorem recorded_eq_none_of_neg {table : List (ℤ × ℤ)} {l : ℤ} (hl : l < 0)
    (h : ∀ m ∈ table, 0 ≤ m.1 ∧ m.1 < 2 ^ 31 ∧ 0 ≤ m.2) : recorded table l = none := by
  rw [recorded, Option.map_eq_none_iff, List.find?_eq_none]
  intro m hm
  have := (h m hm).2.2
  simp only [decide_eq_true_eq]
  omega

theorem mem_of_recorded {table : List (ℤ × ℤ)} {l native : ℤ} (h : recorded table l = some native) :
    ∃ m ∈ table, m.1 = native := by
  obtain ⟨m, hm, rfl⟩ := Option.map_eq_some_iff.1 h
  exact ⟨m, List.mem_of_find?_eq_some hm, rfl⟩

/-- What `get_mapping` makes of a recorded descriptor. -/
theorem lookupFd_of_records {env : Env} {table : List (ℤ × ℤ)} {fd : ℤ} (h : Records env)
    (hentries : ∀ m ∈ table, 0 ≤ m.1 ∧ m.1 < 2 ^ 31 ∧ 0 ≤ m.2) :
    lookupFd env table fd = some ((recorded table fd).getD (-1)) := by
  have hr := h table fd
  cases hrec : recorded table fd with
  | none =>
    rw [hrec] at hr
    obtain ⟨v, hv, hno⟩ := hr
    rw [lookupFd, hv, Option.map_some, hno]
    rfl
  | some native =>
    rw [hrec] at hr
    obtain ⟨m, hm, rfl⟩ := mem_of_recorded hrec
    obtain ⟨h0, hlt, -⟩ := hentries m hm
    rw [lookupFd, hr, Option.map_some, PyVal.asLong_int (by omega) (by omega)]
    exact congrArg some (wrapInt_eq_self (by omega) hlt)

/-- **The descriptor of `mmap`.** In every run whose steps remove no entry and take no status for a
descriptor, an `mmap` whose descriptor is not negative as a `long`, or is negative as an `int`,
passes the host the owner of that descriptor. -/
theorem mmap_receives_owner {acts : Actions} {start s t : Sys} {o : Owners} {reps : List Report}
    {rep : Report} (hstart : Initial start)
    (hrun : Run (TidyStep acts) (start, fun _ ↦ none) reps (s, o)) (hstep : Step acts s rep t)
    (hmmap : EntersMmap acts rep) (henv : Records rep.env)
    (hfd : 0 ≤ rep.tracee.regs.r8.toInt ∨ cInt rep.tracee.regs.r8 < 0) :
    ∃ c, t.executed = c :: s.executed ∧ RightFd o (cInt rep.tracee.regs.r8) c := by
  obtain ⟨hflag, hm⟩ := matches_run hstart hrun hstep.1
  have hent := entering_at_entry hflag hstep.2.1 hmmap.entry
  refine ⟨{ rep.tracee.regs with r8 := entryR8 acts s rep }.call, ?_, ?_⟩
  · rw [hstep.2.2, (step_entry acts s hmmap.entry).2, round_entry_call (.inl hmmap.entry) hent]
  · have hr8 : HostCall.fd { rep.tracee.regs with r8 := entryR8 acts s rep }.call =
        cInt (entryR8 acts s rep) := rfl
    have howner : o (cInt rep.tracee.regs.r8) =
        recorded s.world.mappings (cInt rep.tracee.regs.r8) := congrFun hm.owners.symm _
    rw [RightFd, howner, hr8, entryR8]
    by_cases hpos : 0 ≤ rep.tracee.regs.r8.toInt
    · rw [if_pos ⟨hmmap.os, hmmap.mmap, hpos⟩, lookupFd_of_records henv hm.entries]
      cases hrec : recorded s.world.mappings (cInt rep.tracee.regs.r8) with
      | none =>
        show cInt (ofInt (-1)) < 0
        decide
      | some native =>
        obtain ⟨m, hmem, rfl⟩ := mem_of_recorded hrec
        obtain ⟨h0, hlt, -⟩ := hm.entries m hmem
        show cInt (ofInt m.1) = m.1
        exact (cInt_ofInt _).trans (wrapInt_eq_self (by omega) hlt)
    · -- no lookup is made, and none would find anything
      have hneg := hfd.resolve_left hpos
      rw [if_neg fun h ↦ hpos h.2.2, recorded_eq_none_of_neg hneg hm.entries]
      exact hneg

/-! ### A small run

`dup` returns descriptor 3 of Lind and descriptor 7 of the host, and `mmap` uses it. -/

/-- The policy that leaves `mmap` to the host, and emulates everything else. -/
def fileActs : Actions := fun n ↦ if n = 9 then ALLOW_OS else ALLOW_LIND

/-- The entry stop of a call. -/
def callEntry (n : Word) : Report := ⟨.entry, ⟨callRegs n, nullMemory⟩, steadyEnv none⟩

/-- The exit stop of `dup`. -/
def dupExit : Report :=
  ⟨.exit, ⟨{ callRegs 32 with rax := 7 }, nullMemory⟩, steadyEnv (some (successResponse 3 []))⟩

/-- The exit stop of `close`, of descriptor 3. -/
def closeExit : Report :=
  ⟨.exit, ⟨{ callRegs 3 with rdi := 3 }, nullMemory⟩, steadyEnv (some (successResponse 0 []))⟩

/-- The system after `dup`. -/
def dupSys : Sys := (bootSys.step fileActs (callEntry 32)).step fileActs dupExit

/-- The system after `dup` and `close`. -/
def closedSys : Sys := (dupSys.step fileActs (callEntry 3)).step fileActs closeExit

/-- An entry stop completes no call. -/
theorem tidyStep_callEntry (n : Word) {s : Sys} (halive : s.alive = true) (hphase : s.phase = .user)
    (o : Owners) :
    TidyStep fileActs (s, o) (callEntry n) (s.step fileActs (callEntry n), o) := by
  have hnone : completedLind fileActs s (callEntry n) (s.step fileActs (callEntry n)) = none :=
    if_neg fun h ↦ by cases h.1
  refine ⟨⟨⟨halive, ?_, rfl⟩, ?_⟩, fun c status h ↦ ?_⟩
  · show Legal s (callEntry n)
    rw [Legal, hphase]
    trivial
  · show o = o.after ((completedLind fileActs s (callEntry n) _).bind _)
    rw [hnone]
    rfl
  · rw [hnone] at h
    cases h

theorem completedLind_dup : completedLind fileActs (bootSys.step fileActs (callEntry 32)) dupExit
    dupSys = some (.dup, 3) := rfl

theorem step_dupExit :
    OwnedStep fileActs (bootSys.step fileActs (callEntry 32), fun _ ↦ none) dupExit
    (dupSys, Owners.after (fun _ ↦ none) (some (.created 7 3))) := by
  refine ⟨⟨rfl, ⟨rfl, by decide⟩, rfl⟩, ?_⟩
  show _ = Owners.after _ ((completedLind fileActs _ dupExit dupSys).bind _)
  rw [completedLind_dup]
  rfl

theorem run_dup :
    Run (TidyStep fileActs) (bootSys, fun _ ↦ none) ([] ++ [callEntry 32] ++ [dupExit])
    (dupSys, Owners.after (fun _ ↦ none) (some (.created 7 3))) := by
  refine (Run.nil.snoc (tidyStep_callEntry 32 rfl rfl _)).snoc ⟨step_dupExit, fun c status h ↦ ?_⟩
  cases completedLind_dup.symm.trans h
  intro _
  exact ⟨by decide, by decide, by decide⟩

theorem records_steadyEnv (answer : Option Response) : Records (steadyEnv answer) := by
  intro table fd
  rw [recorded]
  cases h : table.find? fun m ↦ m.2 = fd with
  | some m => simp [steadyEnv, h]
  | none => exact ⟨.none, by simp [steadyEnv, h], rfl⟩

theorem mmap_receives_owner_dup :
    ∃ c, (dupSys.step fileActs mmapEntry).executed = c :: dupSys.executed ∧
      RightFd (Owners.after (fun _ ↦ none) (some (.created 7 3)))
        (cInt mmapEntry.tracee.regs.r8) c :=
  mmap_receives_owner initial_bootSys run_dup ⟨rfl, trivial, rfl⟩ ⟨rfl, by decide, by decide⟩
    (records_steadyEnv none) (.inl (by decide))

theorem completedLind_close : completedLind fileActs (dupSys.step fileActs (callEntry 3)) closeExit
    closedSys = some (.close, 0) := rfl

/-- The table after `dup` and `close`, as it should be. -/
def closedOwners : Owners :=
  Owners.after (Owners.after (fun _ ↦ none) (some (.created 7 3))) (some (.closed 3))

theorem step_closeExit : OwnedStep fileActs (dupSys.step fileActs (callEntry 3),
    Owners.after (fun _ ↦ none) (some (.created 7 3))) closeExit (closedSys, closedOwners) := by
  refine ⟨⟨rfl, ⟨rfl, by decide⟩, rfl⟩, ?_⟩
  show _ = Owners.after _ ((completedLind fileActs _ closeExit closedSys).bind _)
  rw [completedLind_close]
  rfl

theorem run_close : Run (OwnedStep fileActs) (bootSys, fun _ ↦ none)
    ([] ++ [callEntry 32] ++ [dupExit] ++ [callEntry 3] ++ [closeExit]) (closedSys, closedOwners) :=
  ((run_dup.mono And.left).snoc (tidyStep_callEntry 3 rfl rfl _).1).snoc step_closeExit

/-- The descriptor is not always the right one: after `dup` and `close`, `mmap` of descriptor 3
still receives descriptor 7. -/
theorem not_mmap_receives_owner : ¬ ∀ (acts : Actions) (start s t : Sys) (o : Owners)
    (reps : List Report) (rep : Report), Initial start →
      Run (OwnedStep acts) (start, fun _ ↦ none) reps (s, o) → Step acts s rep t →
      EntersMmap acts rep → Records rep.env →
      ∃ c, t.executed = c :: s.executed ∧ RightFd o (cInt rep.tracee.regs.r8) c := fun h ↦ by
  obtain ⟨c, hc, hfd⟩ := h fileActs bootSys closedSys _ closedOwners _ mmapEntry initial_bootSys
    run_close ⟨rfl, trivial, rfl⟩ ⟨rfl, by decide, by decide⟩ (records_steadyEnv none)
  have hseven : (closedSys.step fileActs mmapEntry).executed =
      (mmapRegs 7).call :: closedSys.executed := by rfl
  cases (List.cons.inj (hc.symm.trans hseven)).1
  exact absurd (show (mmapRegs 7).call.fd < 0 from hfd) (by decide)

end ReferenceMonitor
