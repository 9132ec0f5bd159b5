import ReferenceMonitor.Monitor.Pasts
import ReferenceMonitor.System.FileCalls

/-!
# What a run depends on of the past

Two systems are started at the same point: the tracee is in the same phase, and `entering` holds the
same. Everything else about their pasts may differ: the requests sent, the descriptors entered, the
calls executed, `errno`, and what is left in `regs`. If Lind and Repy cannot tell the pasts apart,
every run of the one is a run of the other, under the same reports, and the tracee is given the same
registers and memory at every stop (`continues_alike`). So whatever the monitor has to know of the
past is with Lind and Repy, and a monitor that is started anew in the middle of a program, where
these are in the state they were in, is not noticed.
-/

namespace ReferenceMonitor

open Halting

/-- What the monitor and the kernel keep from one stop to the next. -/
structure SameControl (s s' : Sys) : Prop where
  alive : s'.alive = s.alive
  phase : s'.phase = s.phase
  entering : s'.world.entering = s.world.entering

/-- The systems are at the same point, and since they were started the monitor has sent the same
requests and entered the same descriptors, and the host kernel has executed the same calls. -/
structure SamePoint (start start' s s' : Sys) : Prop extends SameControl s s' where
  requests : ∃ rs, s.world.requests = rs ++ start.world.requests ∧
    s'.world.requests = rs ++ start'.world.requests
  mappings : ∃ ms, s.world.mappings = ms ++ start.world.mappings ∧
    s'.world.mappings = ms ++ start'.world.mappings
  executed : ∃ cs, s.executed = cs ++ start.executed ∧ s'.executed = cs ++ start'.executed

theorem SameControl.samePoint {start start' : Sys} (h : SameControl start start') :
    SamePoint start start' start start' where
  toSameControl := h
  requests := ⟨[], rfl, rfl⟩
  mappings := ⟨[], rfl, rfl⟩
  executed := ⟨[], rfl, rfl⟩

variable {acts : Actions} {start start' s s' m : Sys} {rep : Report} {reps : List Report}

/-- The tracee is resumed alike. -/
theorem SamePoint.resume (h : SamePoint start start' s s')
    (htracee : s'.world.tracee = s.world.tracee) (stop : Stop) :
    SamePoint start start' (s.resume stop) (s'.resume stop) := by
  obtain ⟨cs, hs, hs'⟩ := h.executed
  cases stop with
  | entry =>
    refine ⟨⟨h.alive, ?_, h.entering⟩, h.requests, h.mappings,
      s.world.tracee.regs.call :: cs, ?_, ?_⟩
    · show Phase.kernel _ = Phase.kernel _
      rw [htracee]
    · exact congrArg _ hs
    · show s'.world.tracee.regs.call :: s'.executed = _
      rw [htracee, hs']
      rfl
  | exit => exact ⟨⟨h.alive, rfl, h.entering⟩, h.requests, h.mappings, cs, hs, hs'⟩
  | other sig => exact h
  | exited => exact h
  | killed status => exact h

theorem goesOn_of_alike {R : World → World → Prop} {o o' : Outcome Halt World Bool}
    (h : Alike R Eq o o') : goesOn o' = goesOn o := by
  cases h with
  | done hab _ => rw [goesOn, goesOn, hab]
  | halt _ => rfl

/-- One step. -/
theorem SamePoint.step (h : SamePoint start start' s s')
    (henv : SameAnswers start.world start'.world rep.env) (hstep : Step acts s rep m) :
    ∃ m', Step acts s' rep m' ∧ SamePoint start start' m m' ∧
      m'.world.tracee = m.world.tracee := by
  obtain ⟨halive, hlegal, rfl⟩ := hstep
  have hstop : SameStop start.world start'.world { s.world with tracee := rep.tracee }
      { s'.world with tracee := rep.tracee } := ⟨h.entering, rfl, h.requests, h.mappings⟩
  have hround : Alike (SameStop start.world start'.world) Eq (s.round acts rep)
      (s'.round acts rep) := alike_interceptStop henv hstop acts rep.stop.status
  have hstate := hround.state
  have hpoint : SamePoint start start'
      { s with world := (s.round acts rep).state, alive := goesOn (s.round acts rep) }
      { s' with world := (s'.round acts rep).state, alive := goesOn (s'.round acts rep) } :=
    ⟨⟨goesOn_of_alike hround, h.phase, hstate.entering⟩, hstate.requests, hstate.mappings,
      h.executed⟩
  refine ⟨s'.step acts rep, ⟨h.alive.trans halive, ?_, rfl⟩, ?_, ?_⟩
  · rw [Legal, h.phase]
    exact hlegal
  · rw [step_eq, step_eq]
    exact hpoint.resume hstate.tracee rep.stop
  · rw [step_world, step_world]
    exact hstate.tracee

/-- **Pasts.** Of two systems at the same point, whose pasts Lind and Repy do not tell apart, each
run of the one is matched by a run of the other under the same reports: the monitor goes on or ends
with the same stop, leaves the tracee the same at every stop, and has Lind and the host kernel do
the same. -/
theorem continues_alike (hstart : SameControl start start')
    (henv : ∀ rep ∈ reps, SameAnswers start.world start'.world rep.env)
    (hrun : Run (Step acts) start reps m) :
    ∃ m', Run (Step acts) start' reps m' ∧ SamePoint start start' m m' ∧
      (reps ≠ [] → m'.world.tracee = m.world.tracee) := by
  induction hrun with
  | nil => exact ⟨start', .nil, hstart.samePoint, fun h ↦ absurd rfl h⟩
  | snoc hrun hstep ih =>
    obtain ⟨s', hrun', hpoint, -⟩ := ih fun rep hrep ↦ henv rep (List.mem_append_left _ hrep)
    obtain ⟨m', hstep', hpoint', htracee⟩ := hpoint.step (henv _ (by simp)) hstep
    exact ⟨m', hrun'.snoc hstep', hpoint', fun _ ↦ htracee⟩

/-! Where Lind is a machine, it answers alike after pasts that have led it to the same state. -/

theorem sameAnswers_of_after {σ : Type} {S : Server σ Request (Option Response)} {s₀ : σ}
    {past past' : World} {env : Env} (hl : S.Answers s₀ env.lind)
    (hafter : S.after s₀ past'.requests = S.after s₀ past.requests)
    (hmappings : past'.mappings = past.mappings) : SameAnswers past past' env where
  lind rs hrs := by
    obtain ⟨r, rs, rfl⟩ := List.exists_cons_of_ne_nil hrs
    rw [List.cons_append, List.cons_append, hl, hl, S.after_append, S.after_append, hafter]
  lookup ms fd := by rw [hmappings]

/-- A monitor that has sought the start of the file, and has an old error in `errno`. -/
def soughtSys : Sys :=
  { bootSys with
    world.requests := [seekRequest 0 3 SEEK_SET]
    world.errno := EBADF }

/-- The `read` that follows is the same for a monitor that has just started. -/
theorem continues_alike_read :
    let m := (bootSys.step lindActs (readingReport .entry)).step lindActs (readingReport .exit)
    ∃ m', Run (Step lindActs) soughtSys [readingReport .entry, readingReport .exit] m' ∧
      SamePoint bootSys soughtSys m m' ∧
      ([readingReport .entry, readingReport .exit] ≠ [] →
        m'.world.tracee = m.world.tracee) := by
  have henv (stop : Stop) : SameAnswers bootSys.world soughtSys.world (readingReport stop).env :=
    sameAnswers_of_after (answers_fileEnv [1, 2, 3] 0) rfl rfl
  have hentry : Step lindActs bootSys (readingReport .entry)
      (bootSys.step lindActs (readingReport .entry)) := ⟨rfl, trivial, rfl⟩
  have hexit : Step lindActs (bootSys.step lindActs (readingReport .entry)) (readingReport .exit)
      ((bootSys.step lindActs (readingReport .entry)).step lindActs (readingReport .exit)) :=
    ⟨rfl, ⟨rfl, by decide⟩, rfl⟩
  refine continues_alike ⟨rfl, rfl, rfl⟩ (fun rep hrep ↦ ?_) ((Run.nil.snoc hentry).snoc hexit)
  rcases List.mem_pair.1 hrep with rfl | rfl
  · exact henv .entry
  · exact henv .exit

end ReferenceMonitor
