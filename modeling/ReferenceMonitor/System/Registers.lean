import ReferenceMonitor.Monitor.HostCalls
import ReferenceMonitor.System.Rounds

/-!
# The registers of the tracee in a round

`set_args` writes back whatever the handlers left in `regs`. `RegKeeps f` follows a view `f` of the
registers, such as one register or the whole call, through both places at once. Two handlers store
something else than a result in `regs`: `monitor_getsockname` in `arg3`, and `monitor_mmap` in
`arg5`. Every view that does not depend on these is kept by every round (`round_regs`).
-/

namespace ReferenceMonitor

open Halting

/-- The view `f` of `regs` is kept, and that of the tracee's registers is kept or taken from
`regs`. -/
structure RegKeeps {β : Type} (f : UserRegs → β) (w w' : World) : Prop where
  regs : f w'.regs.toRegs = f w.regs.toRegs
  tracee : f w'.tracee.regs = f w.tracee.regs ∨ f w'.tracee.regs = f w.regs.toRegs

variable {β : Type} {f : UserRegs → β}

instance : Std.Refl (RegKeeps f) := ⟨fun _ ↦ ⟨rfl, .inl rfl⟩⟩

instance : IsTrans World (RegKeeps f) where
  trans _ _ _ h h' := by
    refine ⟨h'.regs.trans h.regs, ?_⟩
    rcases h'.tracee with ht | ht
    · rw [ht]
      exact h.tracee
    · rw [ht, h.regs]
      exact .inr rfl

/-- The view does not show `rax`. -/
def IgnoresRax (f : UserRegs → β) : Prop := ∀ r v, f { r with rax := v } = f r

/-- The view does not show `rdx`. -/
def IgnoresRdx (f : UserRegs → β) : Prop := ∀ r v, f { r with rdx := v } = f r

/-- The view does not show `r8`. -/
def IgnoresR8 (f : UserRegs → β) : Prop := ∀ r v, f { r with r8 := v } = f r

theorem ignoresRax_call : IgnoresRax UserRegs.call := fun _ _ ↦ rfl

theorem ignoresRax_orig_rax : IgnoresRax UserRegs.orig_rax := fun _ _ ↦ rfl

theorem Frame.regKeeps {p : Prop} {w w' : World} (h : Frame p w w')
    (h3 : p → IgnoresRdx f) : RegKeeps f w w' := by
  refine ⟨?_, .inl (by rw [h.tracee])⟩
  by_cases hp : p
  · rw [h.regs]
    exact h3 hp w.regs.toRegs w'.regs.arg3
  · rw [h.regs_eq hp]

theorem regKeeps_setRetval (hrax : IgnoresRax f) (v : Word) : Keeps (RegKeeps f) (setRetval v) :=
  keeps_modify fun w ↦ ⟨hrax w.regs.toRegs v, .inl rfl⟩

theorem regKeeps_setArgs : Keeps (RegKeeps f) setArgs := keeps_modify fun _ ↦ ⟨rfl, .inr rfl⟩

theorem regKeeps_record (e : Event) : Keeps (RegKeeps f) (record e) :=
  keeps_modify fun _ ↦ ⟨rfl, .inl rfl⟩

theorem regKeeps_fetch {α : Type} (q : Fetch α) : Keeps (RegKeeps f) (fetch q) :=
  keeps_focus q fun _ _ ↦ ⟨rfl, .inl rfl⟩

theorem regKeeps_copyBacks (bs : List CopyBack) : Keeps (RegKeeps f) (copyBacks bs) := by
  induction bs with
  | nil => exact keeps_pure _
  | cons b bs ih =>
    exact Keeps.bind ((regKeeps_record _).bind fun _ ↦ keeps_ask.bind fun _ ↦
      keeps_modify fun _ ↦ ⟨rfl, .inl rfl⟩) fun _ ↦ ih

theorem regKeeps_finish (hrax : IgnoresRax f) (res : Option (Word × List CopyBack)) :
    Keeps (RegKeeps f) (finish res) := by
  unfold finish
  split
  · exact keeps_pure _
  · exact (regKeeps_setRetval hrax _).bind fun _ ↦ (regKeeps_copyBacks _).bind fun _ ↦
      regKeeps_setArgs

theorem observes_regKeeps : Observes (RegKeeps f) where
  branch _ _ := regKeeps_record _
  read _ := regKeeps_fetch _
  setEntering _ := keeps_modify fun _ ↦ ⟨rfl, .inl rfl⟩

theorem tolerates_regKeeps (hrax : IgnoresRax f) : Tolerates (RegKeeps f) where
  toObserves := observes_regKeeps
  setRetval v := regKeeps_setRetval hrax v
  setArgs := regKeeps_setArgs

theorem regKeeps_emulated {p : Prop} {e : Emulation} (hrax : IgnoresRax f)
    (he : ∀ r, Keeps (Frame p) (e r)) (h3 : p → IgnoresRdx f) :
    Keeps (RegKeeps f) (emulated e) :=
  (tolerates_regKeeps hrax).phased (keeps_pure _) (keeps_getRegs.bind fun r ↦
    ((he r).mono fun _ _ h ↦ h.regKeeps h3).bind fun res ↦ regKeeps_finish hrax res)

/-- The two calls whose handlers leave something in the registers, for a view that shows it. -/
def Disturbs (f : UserRegs → β) (ch : Choice) (n : ℤ) : Prop :=
  (ch = .lind ∧ n = LindCall.getsockname.nr ∧ ¬ IgnoresRdx f) ∨
    (ch = .os ∧ n = OsCall.mmap.nr ∧ ¬ IgnoresR8 f)

theorem regKeeps_handler (hrax : IgnoresRax f) {ch : Choice} {n : Word}
    (h : ¬ Disturbs f ch (cInt n)) : Keeps (RegKeeps f) (ch.handler n) := by
  rw [Disturbs, not_or] at h
  cases ch with
  | deny => exact (tolerates_regKeeps hrax).monitorDeny fun _ ↦ regKeeps_record _
  | os =>
    refine (tolerates_regKeeps hrax).osHandlerOf (fun _ ↦ regKeeps_record _) fun hn ↦
      (tolerates_regKeeps hrax).monitorMmap fun v w ↦ ?_
    have h5 : IgnoresR8 f := by_contra fun h5 ↦ h.2 ⟨rfl, hn, h5⟩
    exact ⟨h5 w.regs.toRegs v, .inl rfl⟩
  | lind =>
    exact regKeeps_emulated hrax (frame_emulationOf _) fun hn ↦
      by_contra fun h3 ↦ h.1 ⟨rfl, hn, h3⟩
  | nothing => exact keeps_pure _

/-- **A round keeps the registers**, in every view that hides `rax` and the argument its handler
stores something in. -/
theorem round_regs (hrax : IgnoresRax f) (acts : Actions) (s : Sys) {rep : Report}
    (hstop : rep.stop.IsSyscall)
    (h : ¬ Disturbs f (choice acts rep.tracee.regs.orig_rax) (cInt rep.tracee.regs.orig_rax)) :
    f (s.round acts rep).state.tracee.regs = f rep.tracee.regs := by
  rw [state_round_syscall acts s hstop]
  have hk := regKeeps_handler hrax h rep.env (s.world.atStop rep.tracee)
  rcases hk.tracee with ht | ht <;> exact ht

theorem round_orig_rax (acts : Actions) (s : Sys) {rep : Report} (hstop : rep.stop.IsSyscall) :
    (s.round acts rep).state.tracee.regs.orig_rax = rep.tracee.regs.orig_rax :=
  round_regs ignoresRax_orig_rax acts s hstop fun h ↦ by
    rcases h with ⟨-, -, h⟩ | ⟨-, -, h⟩ <;> exact h fun _ _ ↦ rfl

end ReferenceMonitor
