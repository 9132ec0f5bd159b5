import Mathlib.Data.List.Forall2
import ReferenceMonitor.System.Descriptors

/-!
# Where the entries of the descriptor table come from

The table is what connects the descriptors of Lind, which the tracee holds, with those of the host
kernel. Nothing is ever removed from it, so that an entry may be out of date; but none is made up.
In every run the entries are, in their order, the native results and Lind's answers at exit stops of
calls that create descriptors, each at most once, and an `mmap` that is left to the host gets one of
these native results, for the descriptor the tracee named, or `-1`.
-/

namespace ReferenceMonitor

open Halting

/-- The entry was made at this report: the exit stop of an emulated call that creates a descriptor,
with the native result for its first part and Lind's for its second. -/
structure EnteredAt (acts : Actions) (rep : Report) (m : ℤ × ℤ) : Prop where
  exit : rep.stop = .exit
  lind : choice acts rep.tracee.regs.orig_rax = .lind
  creates : ∃ c, LindCall.ofNr (cInt rep.tracee.regs.orig_rax) = some c ∧ c.Creates = true
  native : m.1 = cInt rep.tracee.regs.rax
  answer : ∃ asked resp, rep.env.lind asked = some resp ∧ m.2 = (judge resp).status
  valid : 0 ≤ m.1 ∧ 0 ≤ m.2

section Step

variable {acts : Actions} {s t : Sys} {rep : Report}

theorem lindStatus_eq_some {status : ℤ} (h : lindStatus s t rep = some status) :
    ∃ asked resp, rep.env.lind asked = some resp ∧ status = (judge resp).status := by
  rw [lindStatus] at h
  split_ifs at h
  obtain ⟨resp, hresp, rfl⟩ := Option.map_eq_some_iff.1 h
  exact ⟨_, resp, hresp, rfl⟩

/-- What a completed call enters was entered at its exit stop. -/
theorem enteredAt_of_completed {c : LindCall} {status : ℤ}
    (hc : completedLind acts s rep t = some (c, status)) {m : ℤ × ℤ}
    (hm : m ∈ enteredBy (argsOf rep.tracee.regs) c status) : EnteredAt acts rep m := by
  rw [enteredBy] at hm
  split_ifs at hm with hcond
  swap
  · exact absurd hm List.not_mem_nil
  obtain rfl := List.mem_singleton.1 hm
  rw [completedLind] at hc
  split_ifs at hc with hexit
  cases hnr : LindCall.ofNr (cInt rep.tracee.regs.orig_rax) with
  | none => simp [hnr] at hc
  | some c' =>
    cases hst : lindStatus s t rep with
    | none => simp [hnr, hst] at hc
    | some status' =>
      simp only [hnr, hst, Option.some.injEq, Prod.mk.injEq] at hc
      obtain ⟨rfl, rfl⟩ := hc
      exact ⟨hexit.1, hexit.2, ⟨c', hnr, hcond.1⟩, rfl, lindStatus_eq_some hst, hcond.2.2,
        hcond.2.1⟩

theorem length_enteredBy (r : SyscallArgs) (c : LindCall) (status : ℤ) :
    (enteredBy r c status).length ≤ 1 := by
  rw [enteredBy]
  split <;> simp

/-- One step adds an entry at most, and that one was entered at its report. -/
theorem mappings_step (hflag : FlagFits acts s) (hstep : Step acts s rep t)
    (halive : t.alive = true) :
    t.world.mappings = s.world.mappings ∨
      ∃ m, t.world.mappings = m :: s.world.mappings ∧ EnteredAt acts rep m := by
  obtain ⟨-, hlegal, rfl⟩ := hstep
  rw [step_alive] at halive
  rw [step_world]
  by_cases h : rep.stop.IsSyscall ∧ s.world.entering = false ∧
      choice acts rep.tracee.regs.orig_rax = .lind
  swap
  · exact .inl (mappings_round_of_not_leaving h)
  obtain ⟨hstop, hleaving, hlind⟩ := h
  have hexit : rep.stop = .exit := by
    refine hstop.resolve_left fun hentry ↦ ?_
    rw [entering_at_entry hflag hlegal hentry] at hleaving
    cases hleaving
  rw [mappings_round_of_leaving ⟨hexit, hleaving, hlind⟩ halive]
  cases hc : completedLind acts s rep (s.step acts rep) with
  | none => exact .inl rfl
  | some p =>
    rw [Option.elim_some]
    have hlen := length_enteredBy (argsOf rep.tracee.regs) p.1 p.2
    rcases hb : enteredBy (argsOf rep.tracee.regs) p.1 p.2 with - | ⟨m, _ | ⟨m', ms⟩⟩
    · exact .inl rfl
    · exact .inr ⟨m, rfl, enteredAt_of_completed hc (by rw [hb]; exact List.mem_singleton.2 rfl)⟩
    · rw [hb] at hlen
      simp at hlen

end Step

section Run

variable {acts : Actions} {start s t : Sys} {reps : List Report} {rep : Report}

/-- The entries of a run, in their order, are results of some of its reports. -/
theorem provenance_of_run (hstart : Initial start) (hrun : Run (Step acts) start reps s)
    (halive : s.alive = true) :
    ∃ origins, origins.Sublist reps ∧
      List.Forall₂ (EnteredAt acts) origins s.world.mappings.reverse := by
  induction hrun with
  | nil => exact ⟨[], List.Sublist.refl _, by rw [hstart.mappings]; exact .nil⟩
  | @snoc reps s t rep hrun' hstep ih =>
    obtain ⟨origins, hsub, horigins⟩ := ih hstep.1
    rcases mappings_step (flagFits_run hstart hrun' hstep.1) hstep halive with h | ⟨m, h, hm⟩
    · exact ⟨origins, hsub.trans (List.sublist_append_left _ _), by rw [h]; exact horigins⟩
    · refine ⟨origins ++ [rep], hsub.append (List.Sublist.refl _), ?_⟩
      rw [h, List.reverse_cons]
      exact List.rel_append horigins (.cons hm .nil)

theorem exists_enteredAt (hstart : Initial start) (hrun : Run (Step acts) start reps s)
    (halive : s.alive = true) {m : ℤ × ℤ} (hm : m ∈ s.world.mappings) :
    ∃ rep ∈ reps, EnteredAt acts rep m := by
  obtain ⟨origins, hsub, horigins⟩ := provenance_of_run hstart hrun halive
  obtain ⟨i, hi, hget⟩ := List.getElem_of_mem (List.mem_reverse.2 hm)
  have hlen := horigins.length_eq
  refine ⟨origins[i], hsub.subset (List.getElem_mem (by omega)), ?_⟩
  rw [← hget]
  exact horigins.get (by omega) hi

end Run

theorem run_dup_step : Run (Step fileActs) bootSys ([] ++ [callEntry 32] ++ [dupExit]) dupSys := by
  have hexit : Step fileActs (bootSys.step fileActs (callEntry 32)) dupExit dupSys :=
    ⟨rfl, ⟨rfl, by decide⟩, rfl⟩
  exact (Run.nil.snoc ⟨rfl, trivial, rfl⟩).snoc hexit

end ReferenceMonitor
