import ReferenceMonitor.Monitor.PolicyText
import ReferenceMonitor.System.Phases

/-!
# The configuration file and the runs under it

What the monitor does over a run depends on its configuration file in one way only: through the
verdict the file has on each call the tracee issues. Where that verdict stands in the file, what
comments are around it, and what the file says about other calls makes no difference to any run.
-/

namespace ReferenceMonitor

open Halting

/-! ### The verdict of a policy on a number -/

/-- The verdict a line has on the call of this number. -/
def PolicyLine.verdict (n : ℤ) : PolicyLine → Option Verb
  | remark _ => none
  | directive call verb => if ((call : ℕ) : ℤ) = n then some verb else none

/-- The verdict of a policy on the call of this number. -/
def Policy.verdict (p : Policy) (n : ℤ) : Option Verb := p.findSome? (PolicyLine.verdict n)

/-- What the dispatch does with a verdict, and without one. -/
def Verb.choice : Verb → Choice
  | allowLind => .lind
  | denyLind => .deny
  | allowOs => .os

theorem choice_of_action {acts : Actions} {n : Word} (verb : Verb)
    (h : acts (cInt n) = verb.action) : choice acts n = verb.choice := by
  rw [choice, h]
  cases verb <;> rfl

theorem choice_of_noVal {acts : Actions} {n : Word} (h : acts (cInt n) = NO_VAL) :
    choice acts n = .nothing := by
  rw [choice, h]
  rfl

section Loaded

variable {around acts : Actions} {p : Policy}

/-- The table a policy makes. -/
theorem tableOf_policy (h : loadConfig around p.text = .ok acts) : TableOf around p.lines acts := by
  rw [loadConfig_eq, pieces_text] at h
  by_cases hacc : Accepted (emptyActions around) p.lines
  · obtain ⟨acts', hload, htable⟩ := loaded_of_accepted hacc
    rw [hload] at h
    cases h
    exact htable
  · rw [loaded_of_not_accepted hacc] at h
    cases h

/-- The entry of a call with a verdict. -/
theorem entry_of_verdict (h : loadConfig around p.text = .ok acts) {n : ℤ} {verb : Verb}
    (hverb : p.verdict n = some verb) : acts n = verb.action := by
  obtain ⟨pre, line, post, hp, hline, -⟩ := List.findSome?_eq_some_iff.1 hverb
  cases line with
  | remark r => cases hline
  | directive call verb' =>
    rw [PolicyLine.verdict] at hline
    split_ifs at hline with hcall
    cases hline
    have hentry := (tableOf_policy h).entry (Policy.lines pre) _ (Policy.lines post) _
      (by rw [hp, Policy.lines, List.map_append, List.map_cons]) (directive_verdict call verb)
    rw [getSyscallNum_callName, hcall] at hentry
    rw [hentry, inForce_append, lastOwn_of_some (directive_verdict call verb), ownAction_text]
    rfl

/-- The entry of a call without one. -/
theorem entry_of_no_verdict (h : loadConfig around p.text = .ok acts) {n : ℤ} (hin : InTable n)
    (hverb : p.verdict n = none) : acts n = NO_VAL := by
  refine ((tableOf_policy h).other n fun hmem ↦ ?_).trans (if_pos hin)
  rw [numbersOf, keysOf_lines, List.map_map] at hmem
  obtain ⟨call, hcall, hnum⟩ := List.mem_map.1 hmem
  rw [Function.comp_apply, getSyscallNum_callName] at hnum
  obtain ⟨line, hline, hsome⟩ := List.mem_filterMap.1 hcall
  have hnone := List.findSome?_eq_none_iff.1 hverb line hline
  cases line with
  | remark r => cases hsome
  | directive call' verb =>
    cases hsome
    rw [PolicyLine.verdict, if_pos hnum] at hnone
    cases hnone

/-- The dispatch does what the text says. -/
theorem choice_of_policy (h : loadConfig around p.text = .ok acts) {n : Word}
    (hin : InTable (cInt n)) : choice acts n = (p.verdict (cInt n)).elim .nothing Verb.choice := by
  cases hverb : p.verdict (cInt n) with
  | none => exact choice_of_noVal (entry_of_no_verdict h hin hverb)
  | some verb => exact choice_of_action verb (entry_of_verdict h hverb)

end Loaded

/-! ### Runs -/

section Runs

variable {acts acts' : Actions} {start s : Sys} {reps : List Report}

/-- A round asks the policy about the number at its stop, and about nothing else. -/
theorem round_congr (s : Sys) {rep : Report}
    (h : rep.stop.IsSyscall →
      choice acts rep.tracee.regs.orig_rax = choice acts' rep.tracee.regs.orig_rax) :
    s.round acts rep = s.round acts' rep := by
  by_cases hstop : rep.stop.IsSyscall
  · rw [round_syscall acts s hstop, round_syscall acts' s hstop, h hstop]
  · cases hs : rep.stop with
    | entry => exact absurd (.inl hs) hstop
    | exit => exact absurd (.inr hs) hstop
    | other sig => rw [round_other acts s hs, round_other acts' s hs]
    | exited | killed => rw [Sys.round, Sys.round, hs]; rfl

theorem step_congr {t : Sys} {rep : Report} (hstep : Step acts s rep t)
    (h : rep.stop.IsSyscall →
      choice acts rep.tracee.regs.orig_rax = choice acts' rep.tracee.regs.orig_rax) :
    Step acts' s rep t := by
  refine ⟨hstep.1, hstep.2.1, ?_⟩
  rw [hstep.2.2, Sys.step, Sys.step, round_congr s h]

/-- Policies that choose alike for the calls of a run have it in common. -/
theorem run_congr (hrun : Run (Step acts) start reps s)
    (h : ∀ rep ∈ reps, rep.stop.IsSyscall →
      choice acts rep.tracee.regs.orig_rax = choice acts' rep.tracee.regs.orig_rax) :
    Run (Step acts') start reps s := by
  induction hrun with
  | nil => exact .nil
  | snoc _ hstep ih =>
    exact (ih fun rep hrep ↦ h rep (List.mem_append_left _ hrep)).snoc
      (step_congr hstep (h _ (List.mem_append_right _ List.mem_cons_self)))

/-- The text has one verdict on each call of a run, the same in both policies. -/
def SameVerdicts (p p' : Policy) (reps : List Report) : Prop :=
  ∀ rep ∈ reps, rep.stop.IsSyscall → InTable (cInt rep.tracee.regs.orig_rax) ∧
    p.verdict (cInt rep.tracee.regs.orig_rax) = p'.verdict (cInt rep.tracee.regs.orig_rax)

/-- **The text governs the run by the calls in it.** Under two accepted files that have the same
verdicts on the calls the tracee issues, the system has the same runs. -/
theorem run_iff_of_sameVerdicts {around : Actions} {p p' : Policy}
    (h : loadConfig around p.text = .ok acts) (h' : loadConfig around p'.text = .ok acts')
    (hsame : SameVerdicts p p' reps) :
    Run (Step acts) start reps s ↔ Run (Step acts') start reps s := by
  have hchoice : ∀ rep ∈ reps, rep.stop.IsSyscall →
      choice acts rep.tracee.regs.orig_rax = choice acts' rep.tracee.regs.orig_rax := by
    intro rep hrep hstop
    obtain ⟨hin, hverdict⟩ := hsame rep hrep hstop
    rw [choice_of_policy h hin, choice_of_policy h' hin, hverdict]
  exact ⟨fun hrun ↦ run_congr hrun hchoice, fun hrun ↦ run_congr hrun fun rep hrep hstop ↦
    (hchoice rep hrep hstop).symm⟩

end Runs

/-! ### Two files with one verdict on `getuid` -/

theorem lt_length_syscallNames {k : ℕ} (h : k < 314) : k < syscallNames.length := by
  have hlen := totalSyscalls_eq
  rw [TOTAL_SYSCALLS] at hlen
  omega

/-- The policy with one verdict, on `getuid`. -/
def uidPolicy : Policy := [.directive ⟨102, lt_length_syscallNames (by decide)⟩ .allowLind]

/-- The same verdict, behind one on `unlink` and a blank line. -/
def longerPolicy : Policy :=
  [.directive ⟨87, lt_length_syscallNames (by decide)⟩ .denyLind,
    .remark ⟨[], by decide, by decide, by decide, .inl rfl⟩,
    .directive ⟨102, lt_length_syscallNames (by decide)⟩ .allowLind]

theorem loads_of_nodup (around : Actions) {p : Policy} (h : p.calls.Nodup) :
    ∃ acts, loadConfig around p.text = .ok acts := by
  obtain ⟨acts, hload, -⟩ := loaded_of_accepted ((accepted_lines around p).2 h)
  exact ⟨acts, by rw [loadConfig_eq, pieces_text, hload]⟩

theorem sameVerdicts_uid : SameVerdicts uidPolicy longerPolicy [getuidEntry, getuidExit] := by
  have hboth : InTable (cInt (callRegs 102).orig_rax) ∧
      uidPolicy.verdict (cInt (callRegs 102).orig_rax) =
        longerPolicy.verdict (cInt (callRegs 102).orig_rax) :=
    ⟨inTable_iff.2 (by decide), rfl⟩
  intro rep hrep _
  rcases List.mem_pair.1 hrep with rfl | rfl <;> exact hboth

theorem run_iff_of_sameVerdicts_uid : ∃ acts acts' : Actions,
    loadConfig (fun _ ↦ 0) uidPolicy.text = .ok acts ∧
      loadConfig (fun _ ↦ 0) longerPolicy.text = .ok acts' ∧
        ∀ s, Run (Step acts) bootSys [getuidEntry, getuidExit] s ↔
          Run (Step acts') bootSys [getuidEntry, getuidExit] s := by
  obtain ⟨acts, hload⟩ := loads_of_nodup (fun _ ↦ 0) (p := uidPolicy) (List.nodup_singleton _)
  obtain ⟨acts', hload'⟩ := loads_of_nodup (fun _ ↦ 0) (p := longerPolicy)
    (List.nodup_cons.2 ⟨by simp [PolicyLine.call?], List.nodup_singleton _⟩)
  exact ⟨acts, acts', hload, hload', fun s ↦
    run_iff_of_sameVerdicts hload hload' sameVerdicts_uid⟩

end ReferenceMonitor
