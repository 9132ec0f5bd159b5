import ReferenceMonitor.Monitor.Judgements

/-!
# What a handler makes of the past

A handler sees the tracee as it stopped, and `entering`. It reads neither `errno` nor what an
earlier call has left in `regs`, and the requests sent and the descriptors entered so far count only
by the answers that Lind and Repy give after them. So after two pasts that Lind and Repy do not tell
apart (`SameAnswers`) the monitor does the same at every stop (`alike_interceptStop`).
-/

namespace ReferenceMonitor

open Halting

/-- Whatever comes next, Lind and Repy answer after the one past as they do after the other. -/
structure SameAnswers (past past' : World) (env : Env) : Prop where
  lind : ∀ rs, rs ≠ [] → env.lind (rs ++ past'.requests) = env.lind (rs ++ past.requests)
  lookup : ∀ ms fd, env.lookup (ms ++ past'.mappings) fd = env.lookup (ms ++ past.mappings) fd

/-- The monitor is at the same stop, and since the two pasts it has sent the same requests and
entered the same descriptors. -/
structure SameStop (past past' w w' : World) : Prop where
  entering : w'.entering = w.entering
  tracee : w'.tracee = w.tracee
  requests : ∃ rs, w.requests = rs ++ past.requests ∧ w'.requests = rs ++ past'.requests
  mappings : ∃ ms, w.mappings = ms ++ past.mappings ∧ w'.mappings = ms ++ past'.mappings

/-- It has read the registers, too. -/
structure Alongside (past past' w w' : World) : Prop extends SameStop past past' w w' where
  regs : w'.regs = w.regs

variable {past past' : World}

/-- It behaves alike after the two pasts. -/
abbrev ActsAlike (past past' : World) {α : Type} (x : M α) : Prop :=
  Respects (SameAnswers past past') (Alongside past past') x

/-! ### What handlers are put together from -/

/-- A change of `regs` that depends on `regs` alone. -/
theorem actsAlike_regs (f : SyscallArgs → SyscallArgs) :
    ActsAlike past past' (modify fun w ↦ { w with regs := f w.regs }) :=
  respects_modify fun _ _ h ↦
    ⟨⟨h.entering, h.tracee, h.requests, h.mappings⟩, congrArg f h.regs⟩

theorem actsAlike_record (e : Event) : ActsAlike past past' (record e) :=
  respects_modify fun _ _ h ↦ ⟨⟨h.entering, h.tracee, h.requests, h.mappings⟩, h.regs⟩

theorem actsAlike_getRegs : ActsAlike past past' getRegs :=
  respects_get_bind (fun _ _ h ↦ by rw [h.regs]) fun _ ↦ respects_pure _

/-- The same request is sent, and the answer is the same. -/
theorem actsAlike_makeLindSysCall (r : Request) : ActsAlike past past' (makeLindSysCall r) := by
  rintro _ env w w' ⟨rfl, henv⟩ h
  obtain ⟨rs, hw, hw'⟩ := h.requests
  have hsent : ∃ rs, (w.send r).requests = rs ++ past.requests ∧
      (w'.send r).requests = rs ++ past'.requests := ⟨r :: rs, congrArg _ hw, congrArg _ hw'⟩
  refine .done ?_ ⟨⟨h.entering, h.tracee, hsent, h.mappings⟩, h.regs⟩
  show env.lind (r :: w.requests) = env.lind (r :: w'.requests)
  rw [hw, hw']
  exact (henv.lind (r :: rs) (List.cons_ne_nil r rs)).symm

theorem actsAlike_addMapping (src dest : ℤ) : ActsAlike past past' (addMapping src dest) := by
  refine (respects_pure _).ite (respects_modify fun w w' h ↦ ?_)
  obtain ⟨ms, hw, hw'⟩ := h.mappings
  exact ⟨⟨h.entering, h.tracee, h.requests, (src, dest) :: ms, congrArg _ hw, congrArg _ hw'⟩,
    h.regs⟩

theorem actsAlike_getMapping (fd : ℤ) : ActsAlike past past' (getMapping fd) := by
  rintro _ env w w' ⟨rfl, henv⟩ h
  obtain ⟨ms, hw, hw'⟩ := h.mappings
  have hsame : lookupFd env w'.mappings fd = lookupFd env w.mappings fd := by
    rw [lookupFd, lookupFd, hw, hw', henv.lookup]
  simp only [getMapping, bind_apply, ask_apply, get_apply, Outcome.andThen_done, hsame]
  cases lookupFd env w.mappings fd with
  | none => exact .halt h
  | some v => exact .done rfl h

/-- Of the world a handler looks at `entering` and `regs` only. -/
theorem actsAlike_phased {enter leave : M Unit} (henter : ActsAlike past past' enter)
    (hleave : ActsAlike past past' leave) : ActsAlike past past' (phased enter leave) := by
  have hentering (b : Bool) : ActsAlike past past' (setEntering b) :=
    respects_modify fun _ _ h ↦ ⟨⟨rfl, h.tracee, h.requests, h.mappings⟩, h.regs⟩
  exact respects_get_bind (fun _ _ h ↦ by rw [h.entering, h.regs]) fun _ ↦
    (actsAlike_record _).bind fun _ ↦
      ((hentering _).bind fun _ ↦ henter).ite (hleave.bind fun _ ↦ hentering _)

theorem handles_actsAlike (past past' : World) :
    Handles (fun _ _ ↦ True) fun _ x ↦ ActsAlike past past' x where
  toCompositional := compositional_respects _ _
  reads := fetches_true
  fetch _ := respects_focus (fun env w w' h ↦ by rw [h.tracee])
    fun _ _ _ h ↦ ⟨⟨h.entering, h.tracee, h.requests, h.mappings⟩, h.regs⟩
  fault _ := respects_stop _
  send := actsAlike_makeLindSysCall
  setErrno _ := respects_modify fun _ _ h ↦
    ⟨⟨h.entering, h.tracee, h.requests, h.mappings⟩, h.regs⟩
  addMapping := actsAlike_addMapping
  getMapping := actsAlike_getMapping
  name _ := actsAlike_record _
  getRegs := actsAlike_getRegs
  setRetval v := actsAlike_regs fun regs ↦ { regs with retval := v }
  setArg3 v := actsAlike_regs fun regs ↦ { regs with arg3 := v }
  setArg5 v := actsAlike_regs fun regs ↦ { regs with arg5 := v }
  setArgs := respects_modify fun _ _ h ↦
    ⟨⟨h.entering, by rw [h.regs, h.tracee], h.requests, h.mappings⟩, by rw [h.regs]⟩
  setMem _ _ _ := (actsAlike_record _).bind fun _ ↦ respects_ask.bind fun _ ↦
    respects_modify fun _ _ h ↦ ⟨⟨h.entering, by rw [h.tracee], h.requests, h.mappings⟩, h.regs⟩
  phased := actsAlike_phased

/-! ### One round -/

theorem actsAlike_dispatch (acts : Actions) : ActsAlike past past' (dispatch acts) := by
  have h := handles_actsAlike past past'
  refine h.bind h.getRegs fun _ ↦ h.bind (actsAlike_record _) fun _ ↦
    h.ite ?_ (h.ite ?_ (h.ite ?_ ?_))
  · exact h.bind (handles_monitorDeny h (respects_stop _)) fun _ ↦ h.pure _
  · exact h.bind (handles_osHandlerOf h _) fun _ ↦ h.pure _
  · exact h.bind (handles_emulated h (handles_emulationOf h _)) fun _ ↦ h.pure _
  · exact h.pure _

/-- **Pasts.** At every stop the monitor acts alike after two pasts that Lind and Repy do not tell
apart, whatever is left in its `regs`: it goes on or ends for the same reason, leaves the tracee the
same registers and memory, sends the same requests and enters the same descriptors. -/
theorem alike_interceptStop {env : Env} (henv : SameAnswers past past' env) {w w' : World}
    (h : SameStop past past' w w') (acts : Actions) (status : WaitStatus) :
    Alike (SameStop past past') Eq (interceptStop acts status env w)
      (interceptStop acts status env w') := by
  cases status with
  | exited => exact .done rfl h
  | terminated status => exact .halt h
  | stopped sig =>
    have hregs : Alongside past past' { w with regs := argsOf w.tracee.regs }
        { w' with regs := argsOf w'.tracee.regs } :=
      ⟨⟨h.entering, h.tracee, h.requests, h.mappings⟩, by rw [h.tracee]⟩
    have hrest : ActsAlike past past'
        (if sig = SIGTRAP ||| 0x80 then dispatch acts else return true) :=
      (actsAlike_dispatch acts).ite (respects_pure _)
    rw [interceptStop, bind_apply, bind_apply, getArgs, modify_apply, modify_apply,
      Outcome.andThen_done, Outcome.andThen_done]
    exact (hrest ⟨rfl, henv⟩ hregs).mono_state fun _ _ ht ↦ ht.toSameStop

end ReferenceMonitor
