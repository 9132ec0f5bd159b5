import ReferenceMonitor.Monitor.Intercept
import ReferenceMonitor.Monitor.Silence

/-!
# The handlers of calls left to the host

These handlers do little: they note the branch they take and read the tracee. A relation that allows
these few things (`Observes`) is kept by every one of them, at both stops, with two exceptions:
`monitor_mmap` and `monitor_deny` write registers back (`Tolerates`). The handlers that print the
name of a call also look it up in a table.
-/

namespace ReferenceMonitor

open Halting

/-- The relation allows what most of these handlers are built from. -/
structure Observes (R : World → World → Prop) : Prop where
  branch : ∀ b n, Keeps R (record (.branch b n))
  read : ∀ {α : Type} {q : Fetch α}, Silent q → Keeps R (fetch q)
  setEntering : ∀ b, Keeps R (setEntering b)

/-- The relation allows that registers are written back, too. -/
structure Tolerates (R : World → World → Prop) : Prop extends Observes R where
  setRetval : ∀ v, Keeps R (setRetval v)
  setArgs : Keeps R setArgs

variable {R : World → World → Prop} [Std.Refl R] [IsTrans World R]

theorem keeps_getRegs : Keeps R getRegs := keeps_get.bind fun _ ↦ keeps_pure _

theorem keeps_getMapping (fd : ℤ) : Keeps R (getMapping fd) := by
  refine keeps_ask.bind fun env ↦ keeps_get.bind fun w ↦ ?_
  split
  · exact keeps_stop _
  · exact keeps_pure _

/-- Leaving `getcwd` only reads. -/
theorem leave_monitorGetcwd : leave monitorGetcwd =
    (do
      let r ← getRegs
      let _ ← fetch (getPath r.arg1)
      pure ()) := by
  simp [leave, monitorGetcwd, finish]

namespace Observes

theorem phased {enter leave : M Unit} (h : Observes R) (henter : Keeps R enter)
    (hleave : Keeps R leave) : Keeps R (phased enter leave) :=
  keeps_get.bind fun _ ↦ (h.branch _ _).bind fun _ ↦ Keeps.ite
    ((h.setEntering _).bind fun _ ↦ henter) (hleave.bind fun _ ↦ h.setEntering _)

/-- The handlers of the labels of the `switch`. -/
theorem handler {c : OsCall} (h : Observes R) (hmmap : c = .mmap → Keeps R monitorMmap) :
    Keeps R c.handler := by
  cases c with
  | mmap => exact hmmap rfl
  | execve =>
    exact h.phased (keeps_getRegs.bind fun _ ↦ h.read ((silent_getPath _).bind fun _ ↦
      (silent_argvCount _ _ _).bind fun _ ↦ silent_argvPaths _ _)) (keeps_pure _)
  | getcwd =>
    refine h.phased (keeps_pure _) ?_
    rw [leave_monitorGetcwd]
    exact keeps_getRegs.bind fun _ ↦ (h.read (silent_getPath _)).bind fun _ ↦ keeps_pure _
  | exit | exit_group => exact keeps_pure _
  | tgkill | arch_prctl | munmap | mprotect | gettid | brk =>
    exact h.phased (keeps_pure _) (keeps_pure _)

theorem osHandlerOf {n : ℤ} (h : Observes R) (hname : ∀ i, Keeps R (record (.namesAt i)))
    (hmmap : n = OsCall.mmap.nr → Keeps R monitorMmap) : Keeps R (osHandlerOf n) := by
  unfold ReferenceMonitor.osHandlerOf
  cases hc : OsCall.ofNr n with
  | none => exact h.phased (keeps_pure _) (keeps_getRegs.bind fun _ ↦ hname _)
  | some c => exact h.handler fun hm ↦ hmmap (by rw [← OsCall.nr_of_ofNr hc, hm])

/-- The argument `monitor_mmap` stores its descriptor in is a matter of its own. -/
theorem monitorMmap (h : Observes R) (hargs : Keeps R setArgs)
    (h5 : ∀ v w, R w { w with regs.arg5 := v }) : Keeps R monitorMmap :=
  h.phased
    (keeps_getRegs.bind fun _ ↦ Keeps.ite
      ((keeps_getMapping _).bind fun _ ↦ (keeps_modify fun w ↦ h5 _ w).bind fun _ ↦ hargs)
      (keeps_pure _))
    (keeps_pure _)

end Observes

namespace Tolerates

theorem monitorMmap (h : Tolerates R) (h5 : ∀ v w, R w { w with regs.arg5 := v }) :
    Keeps R monitorMmap := Observes.monitorMmap h.toObserves h.setArgs h5

theorem monitorDeny (h : Tolerates R) (hname : ∀ i, Keeps R (record (.namesAt i))) :
    Keeps R monitorDeny :=
  h.phased
    ((h.setRetval _).bind fun _ ↦ h.setArgs.bind fun _ ↦ keeps_getRegs.bind fun _ ↦
      (hname _).bind fun _ ↦ keeps_stop _)
    (keeps_getRegs.bind fun _ ↦ hname _)

end Tolerates

end ReferenceMonitor
