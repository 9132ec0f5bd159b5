import ReferenceMonitor.Monitor.Outcomes
import ReferenceMonitor.System.Rounds

/-!
# The exit stop of one emulated call

What the tracee goes on with is decided by the result of the emulation: its return value goes to
`rax`, its copies to the memory, and every other register is written back as it was read
(`emulated_done`). `emulated_fill` is the case of the handlers that fill one buffer from the payload
of the answer.
-/

namespace ReferenceMonitor

open Halting

section ExitStops

variable {c : LindCall} {env : Env} {w u : World} {t : Tracee}

theorem emulated_apply (e : Emulation) (hflag : w.entering = false) :
    emulated e env (w.atStop t) = ((e (argsOf t.regs) env (w.atLeave t)).andThen fun res u ↦
      finish res env u).andThen fun _ u ↦ .done () { u with entering := true } := by
  rw [emulated, phased_of_leaving _ _ _ (show (w.atStop t).entering = false from hflag)]
  rfl

/-- What a reply leaves in the memory. -/
theorem emulated_mem (hflag : w.entering = false) {ret : Word} {backs : List CopyBack}
    (h : c.emulation (argsOf t.regs) env (w.atLeave t) = .done (some (ret, backs)) u) :
    ∃ w', emulated c.emulation env (w.atStop t) = .done () w' ∧
      w'.tracee.mem = copyMem env t.mem backs := by
  have hframe := frame_emulation c (argsOf t.regs) env (w.atLeave t)
  rw [h] at hframe
  have htracee : u.tracee = t := hframe.tracee
  have hrun : emulated c.emulation env (w.atStop t) = _ := emulated_apply _ hflag
  rw [h, Outcome.andThen_done, finish_some_apply, Outcome.andThen_done] at hrun
  refine ⟨_, hrun, ?_⟩
  dsimp only
  rw [htracee]

/-- A reply with a return value. -/
theorem emulated_done (hc : c ≠ .getsockname) (hflag : w.entering = false) {ret : Word}
    {backs : List CopyBack}
    (h : c.emulation (argsOf t.regs) env (w.atLeave t) = .done (some (ret, backs)) u) :
    ∃ w', emulated c.emulation env (w.atStop t) = .done () w' ∧
      w'.tracee = ⟨{ t.regs with rax := ret }, copyMem env t.mem backs⟩ ∧
      w'.requests = u.requests := by
  have hframe := frame_emulation c (argsOf t.regs) env (w.atLeave t)
  rw [h] at hframe
  have hregs : u.regs = argsOf t.regs := hframe.regs_eq hc
  have htracee : u.tracee = t := hframe.tracee
  have hrun : emulated c.emulation env (w.atStop t) = _ := emulated_apply _ hflag
  rw [h, Outcome.andThen_done, finish_some_apply, Outcome.andThen_done] at hrun
  refine ⟨_, hrun, ?_, rfl⟩
  dsimp only
  rw [hregs, htracee]
  rfl

/-- An emulation that halts. -/
theorem emulated_halt {e : Emulation} (hflag : w.entering = false) {h : Halt}
    (hhalt : e (argsOf t.regs) env (w.atLeave t) = .halt h u) :
    emulated e env (w.atStop t) = .halt h u := by
  rw [emulated_apply _ hflag, hhalt]
  rfl

variable {o : Output} {q : Block → Fetch Request} {request : Request} {log : List Word}
  {resp : Response} {b : Block}

/-- Building the request of `fill`, with the reads it makes. -/
theorem fetch_fill (limit : ℤ) (hq : q (malloc 0 o.size) (env, t.mem) [] = .done request log) :
    fetch ((fun buff ↦ do return (← q buff, limit)) (malloc 0 o.size)) env (w.atLeave t) =
      .done (request, limit)
        { w.atLeave t with trace := log.map Event.foreign ++ (w.atLeave t).trace } := by
  refine fetch_done ?_
  show (q (malloc 0 o.size) (env, t.mem) []).andThen _ = _
  rw [hq]
  rfl

theorem verdictOn_log (hl : env.lind (request :: w.requests) = some resp) :
    verdictOn env { w.atLeave t with trace := log.map Event.foreign ++ (w.atLeave t).trace }
      request = some (judge resp) := by
  show (env.lind (request :: w.requests)).map judge = _
  rw [hl, Option.map_some]

/-- A payload that is received in a fresh buffer and copied back. -/
theorem emulated_fill (hc : c ≠ .getsockname) (he : c.emulation (argsOf t.regs) = fill o q)
    (hflag : w.entering = false) (hq : q (malloc 0 o.size) (env, t.mem) [] = .done request log)
    (hl : env.lind (request :: w.requests) = some resp)
    (hb : received env (malloc 0 o.size) o.limit (judge resp) = some b) :
    ∃ w', emulated c.emulation env (w.atStop t) = .done () w' ∧
      w'.tracee = ⟨{ t.regs with rax := ofInt (judge resp).status },
        writeMem t.mem o.dst (b.wordAt env) o.count⟩ ∧
      w'.requests = request :: w.requests := by
  have hdone : fill o q env (w.atLeave t) = _ := fillWith_apply (fetch_fill (w := w) o.limit hq)
  simp only [verdictOn_log hl, hb] at hdone
  obtain ⟨w', hrun, htracee, hrequests⟩ := emulated_done hc hflag ((congrFun₂ he ..).trans hdone)
  exact ⟨w', hrun, htracee, hrequests.trans (requests_answered ..)⟩

/-- A payload that the fresh buffer does not take. -/
theorem emulated_fill_corrupt (he : c.emulation (argsOf t.regs) = fill o q)
    (hflag : w.entering = false) (hq : q (malloc 0 o.size) (env, t.mem) [] = .done request log)
    (hl : env.lind (request :: w.requests) = some resp)
    (hb : received env (malloc 0 o.size) o.limit (judge resp) = none) :
    ∃ u, emulated c.emulation env (w.atStop t) = .halt .corrupt u := by
  have hdone : fill o q env (w.atLeave t) = _ := fillWith_apply (fetch_fill (w := w) o.limit hq)
  simp only [verdictOn_log hl, hb] at hdone
  exact ⟨_, emulated_halt hflag ((congrFun₂ he ..).trans hdone)⟩

/-- A request that cannot be built. -/
theorem emulated_fill_halt (he : c.emulation (argsOf t.regs) = fill o q)
    (hflag : w.entering = false) {h : Halt}
    (hq : q (malloc 0 o.size) (env, t.mem) [] = .halt h log) :
    ∃ u, emulated c.emulation env (w.atStop t) = .halt h u := by
  have hfetch : fetch ((fun buff ↦ do return (← q buff, o.limit)) (malloc 0 o.size)) env
      (w.atLeave t) = .halt h
        { w.atLeave t with trace := log.map Event.foreign ++ (w.atLeave t).trace } := by
    refine fetch_halt ?_
    show (q (malloc 0 o.size) (env, t.mem) []).andThen _ = _
    rw [hq]
    rfl
  have hhalt : ∃ u, c.emulation (argsOf t.regs) env (w.atLeave t) = .halt h u := by
    rw [he, fill, fillWith, bind_apply, hfetch]
    exact ⟨_, rfl⟩
  obtain ⟨u, hu⟩ := hhalt
  exact ⟨u, emulated_halt hflag hu⟩

end ExitStops

end ReferenceMonitor
