import ReferenceMonitor.Monitor.Judgements

/-!
# How the monitor ends inside a handler

A handler that does not return has either called `exit` or made a fault: a load where nothing is
mapped, or something to which C gives no meaning. Reading code and emulations never call `exit`, and
neither do the handlers of host calls (`handles_faults`); only `monitor_deny` does.
-/

namespace ReferenceMonitor

open Halting

/-- Where it does not return, it makes a fault. -/
abbrev Faults {ρ σ α : Type} (x : Halting ρ Halt σ α) : Prop := Fails Halt.IsFault x

theorem fetches_faults : Fetches fun _ q ↦ Faults q where
  toCompositional := compositional_fails Halt.IsFault
  note _ := fails_modify _
  fault := fails_stop

theorem faults_getMapping (fd : ℤ) : Faults (getMapping fd) := by
  refine fails_ask.bind fun env ↦ fails_get.bind fun w ↦ ?_
  split
  · exact fails_stop trivial
  · exact fails_pure _

/-- **No handler but `monitor_deny` calls `exit`.** -/
theorem handles_faults : Handles (fun _ q ↦ Faults q) (fun _ x ↦ Faults x) where
  toCompositional := compositional_fails Halt.IsFault
  reads := fetches_faults
  fetch hq := fails_focus hq
  fault := fails_stop
  send _ := (fails_modify _).bind fun _ ↦ fails_ask.bind fun _ ↦ fails_get.bind fun _ ↦ fails_pure _
  setErrno _ := fails_modify _
  addMapping _ _ := (fails_pure _).ite (fails_modify _)
  getMapping := faults_getMapping
  name _ := fails_modify _
  getRegs := fails_get.bind fun _ ↦ fails_pure _
  setRetval _ := fails_modify _
  setArg3 _ := fails_modify _
  setArg5 _ := fails_modify _
  setArgs := fails_modify _
  setMem _ _ _ := (fails_modify _).bind fun _ ↦ fails_ask.bind fun _ ↦ fails_modify _
  phased henter hleave := fails_get.bind fun _ ↦ (fails_modify _).bind fun _ ↦
    ((fails_modify _).bind fun _ ↦ henter).ite (hleave.bind fun _ ↦ fails_modify _)

end ReferenceMonitor
