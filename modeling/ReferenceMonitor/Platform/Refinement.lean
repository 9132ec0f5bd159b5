import ReferenceMonitor.Platform.Globals

/-!
# The calls of the platform refine what they stand for

`PlatformCall.atWorld` says what a call of the platform is for: the request it sends, the response
it parses, the entry it makes in the descriptor table. Behind it stand the C API, the GIL,
references and the error indicator. Once the interpreter is started, and as long as the calls of the
C API succeed, none of this is seen from the world: any sequence of calls does to it what the calls
stand for, and stops where they do (`platform_refines`). What carries this is that no call leaves an
exception pending, since `ParseResponse` would take it for one of its own.
-/

namespace ReferenceMonitor

open Halting

/-- `MakeLindSysCall`, with a request that is built first. -/
def requestOf (request : Fetch Request) : M (Option Response) := fetch request >>= makeLindSysCall

/-- What a call of the platform is for. -/
def PlatformCall.atWorld : PlatformCall → M Unit
  | init | finalize | getHostFd _ => pure ()
  | wrapper request num varg =>
    (do parseResponse (← requestOf request) num varg) >>= fun _ ↦ pure ()
  | makeLindSysCall request => requestOf request >>= fun _ ↦ pure ()
  | addMapping src dest => ReferenceMonitor.addMapping src dest
  | getMapping fd => ReferenceMonitor.getMapping fd >>= fun _ ↦ pure ()

/-- One call of a sequence, seen from the world. -/
def worldStep (c : PyEnv × PlatformCall) (w : World) : Outcome Halt World Unit :=
  c.2.atWorld c.1.env w

/-! ### `ParseResponse` leaves no exception -/

theorem triple_errOccurred :
    Triple (fun _ ↦ True) errOccurred fun raised t ↦ raised = t.raised := by
  rintro env s - raised t ⟨⟩
  rfl

theorem keeps_raised_inWorld {α : Type} (x : M α) :
    Keeps (fun s t : Interp ↦ t.raised = s.raised) (inWorld x) := by
  intro env s
  rw [inWorld]
  split <;> rfl

/-- A result is there only where no exception was pending. -/
theorem triple_parseAttrs (isError : Bool) (attrCode : PyVal) (attr : Option PyVal) (num : ℕ)
    (varg : List Dest) :
    Triple (fun _ ↦ True) (parseAttrs isError attrCode attr num varg) fun result t ↦
      result.isSome → t.raised = false := by
  have hnone {P : Interp → Prop} : Triple P (pure none : Py (Option (ℤ × List Ptr))) fun result t ↦
      result.isSome → t.raised = false := triple_pure fun _ _ h ↦ by cases h
  have hworld {α : Type} (x : M α) : Triple (fun s : Interp ↦ s.raised = false) (inWorld x)
      fun _ t ↦ t.raised = false :=
    (keeps_raised_inWorld x).triple fun _ _ hst hs ↦ hst.trans hs
  refine Triple.ite (fun _ ↦ hnone) fun _ ↦ triple_bind fun code ↦ triple_bind fun _ ↦ ?_
  refine Triple.ite (fun _ ↦ hnone) fun _ ↦ triple_bind fun bytes ↦ ?_
  refine triple_errOccurred.bind fun raised ↦ Triple.ite (fun _ ↦ hnone) fun hraised ↦ ?_
  have hclear : Triple (fun t ↦ raised = t.raised)
      (inWorld (setErrno (if isError then wrapInt code else 0))) fun _ t ↦ t.raised = false := by
    intro env s hs
    exact hworld _ (hs.symm.trans (by simpa using hraised))
  refine hclear.bind fun _ ↦ Triple.ite (fun _ ↦ triple_pure fun _ h _ ↦ h) fun _ ↦ ?_
  exact (hworld _).bind fun _ ↦ triple_pure fun _ h _ ↦ h

theorem triple_parseBody (r : Response) (num : ℕ) (varg : List Dest) :
    Triple (fun _ ↦ True) (parseBody r num varg) fun p t ↦ p.2.isSome → t.raised = false := by
  refine triple_bind fun attrIsError ↦ ?_
  cases attrIsError with
  | none => exact triple_pure fun _ _ h ↦ by cases h
  | some attrIsError =>
    refine triple_bind fun attrCode ↦ ?_
    cases attrCode with
    | none => exact triple_pure fun _ _ h ↦ by cases h
    | some attrCode =>
      exact triple_bind fun attr ↦ (triple_parseAttrs _ _ _ _ _).bind fun result ↦
        triple_pure fun _ h ↦ h

/-- Whatever was pending before, nothing is where `ParseResponse` returns. -/
theorem raised_parseResponseObject {response : Option Response} {num : ℕ} {varg : List Dest}
    {env : Env} {s t : Interp} {v : ℤ × List Ptr}
    (h : parseResponseObject response num varg env s = .done v t) : t.raised = false := by
  cases response with
  | none => cases h
  | some r =>
    obtain ⟨⟨attrs, result⟩, u, hbody, hcleanup⟩ := Outcome.andThen_eq_done_iff.1 h
    have hresult : result.isSome → u.raised = false := triple_parseBody r num varg trivial hbody
    change cleanup attrs result varg env u = .done v t at hcleanup
    rw [cleanup_apply] at hcleanup
    cases hcleanup
    cases result with
    | none => rfl
    | some p => exact hresult rfl

/-! ### Sessions in which the API succeeds -/

/-- Every call of the C API succeeds, and `REPY_PATH` is set. -/
structure PyEnv.Succeeds (env : PyEnv) : Prop where
  repyPath : env.repyPath = true
  ok : ∀ o, env.ok o = true

/-- There is a dictionary, and no exception is pending. -/
structure Session.Ready (s : Session) : Prop where
  context : s.context = true
  raised : s.interp.raised = false

section Step

variable {env : PyEnv} {s t : Session}

/-- `GetHostFdFromLindFd` leaves the interpreter as it was. -/
theorem getHostFdFromLindFd_ready (lindFd : ℤ) (henv : env.Succeeds) (hs : s.Ready) :
    ∃ r t, getHostFdFromLindFd lindFd env s = .done r t ∧ t.interp = s.interp := by
  have hraised := hs.raised
  rw [getHostFdFromLindFd]
  by_cases hneg : lindFd < 0
  · rw [if_pos hneg]
    exact ⟨_, _, rfl, rfl⟩
  · rw [if_neg hneg]
    simp only [withGil, callPythonFunc1, bind_apply, inInterp_apply, gilEnsure, modify_apply,
      newRef_apply, henv.ok, Bool.and_self, Outcome.andThen_done, callPythonFunc_apply,
      context_got, hs.context, if_true, ask_apply, pure_apply, printIf_apply, decref_apply,
      gilRelease]
    rw [noted_eq]
    refine ⟨_, _, rfl, ?_⟩
    simp only [Session.release, Session.count, Session.called, Session.got, if_true, hraised,
      Bool.and_false, Nat.add_sub_cancel]
    rw [← hraised]

/-- The value of a call is not looked at. -/
theorem bimap_forget {α : Type} (x : Capi α) :
    ((x >>= fun _ ↦ pure ()) env s).bimap id (·.interp.world) =
      ((x env s).bimap id (·.interp.world)).andThen fun _ w ↦ .done () w := by
  rw [bind_apply]
  cases x env s <;> rfl

/-- What `MakeLindSysCall` does to the interpreter. -/
theorem makeLindSysCallObject_ready (request : Fetch Request) (henv : env.Succeeds)
    (hs : s.Ready) :
    (makeLindSysCallObject request env s).bimap id Session.interp =
      match requestOf request env.env s.interp.world with
      | .done response w => .done response { s.interp with world := w }
      | .halt e w => .halt e { s.interp with world := w, gil := s.interp.gil + 1 } := by
  have hraised (b : Bool) : (b && s.interp.raised) = s.interp.raised := by
    rw [hs.raised, Bool.and_false]
  rw [makeLindSysCallObject_interp henv.ok hs.context, requestOf]
  cases (fetch request >>= makeLindSysCall) env.env s.interp.world with
  | done response w =>
    exact congrArg (fun b ↦ Outcome.done response { s.interp with world := w, raised := b })
      (hraised response.isSome)
  | halt e w => rfl

theorem makeLindSysCallObject_world (request : Fetch Request) (henv : env.Succeeds)
    (hs : s.Ready) :
    (makeLindSysCallObject request env s).bimap id (·.interp.world) =
      requestOf request env.env s.interp.world := by
  have htwice : (makeLindSysCallObject request env s).bimap id (·.interp.world) =
      ((makeLindSysCallObject request env s).bimap id Session.interp).bimap id Interp.world := by
    cases makeLindSysCallObject request env s <;> rfl
  rw [htwice, makeLindSysCallObject_ready request henv hs]
  cases requestOf request env.env s.interp.world <;> rfl

/-- **One call.** It does to the world what it stands for. -/
theorem platformStep_world {c : PyEnv × PlatformCall} (hc : c.2.Asks) (henv : c.1.Succeeds)
    (hs : s.Ready) :
    (platformStep c s).bimap id (·.interp.world) = worldStep c s.interp.world := by
  obtain ⟨env, call⟩ := c
  cases call with
  | init | finalize => exact hc.elim
  | wrapper request num varg =>
    refine (bimap_forget _).trans ?_
    rw [lindWrapper_world henv.ok hs.context hs.raised, ← bind_bind_eq]
    rfl
  | makeLindSysCall request =>
    refine (bimap_forget _).trans ?_
    rw [makeLindSysCallObject_world request henv hs]
    rfl
  | getHostFd lindFd =>
    obtain ⟨r, t, hdone, ht⟩ := getHostFdFromLindFd_ready lindFd henv hs
    refine (bimap_forget _).trans ?_
    rw [hdone, Outcome.bimap, Outcome.andThen_done, ht]
    rfl
  | addMapping src dest => exact addMappingObject_world henv.ok hs.context
  | getMapping fd =>
    refine (bimap_forget _).trans ?_
    rw [getMappingObject_world henv.ok hs.context]
    rfl

/-- `add_mapping` and `get_mapping` leave no exception pending. -/
theorem raised_addMappingObject {src dest : ℤ} (henv : env.Succeeds) (hs : s.Ready)
    (h : addMappingObject src dest env s = .done () t) : t.interp.raised = false := by
  by_cases hneg : src < 0 ∨ dest < 0
  · rw [addMappingObject, if_pos hneg] at h
    cases h
    exact hs.raised
  · rw [addMappingObject, if_neg hneg] at h
    simp only [bind_apply, newRef_apply, Outcome.andThen_done, henv.ok, Bool.and_self,
      callPythonFunc_apply, context_got, hs.context, if_true, inInterp_apply, inWorld_apply,
      addMapping, if_neg hneg, modify_apply, ask_apply, pure_apply, decref_apply] at h
    rw [noted_eq] at h
    cases h
    exact hs.raised

theorem raised_getMappingObject {fd v : ℤ} (henv : env.Succeeds) (hs : s.Ready)
    (h : getMappingObject fd env s = .done v t) : t.interp.raised = false := by
  simp only [getMappingObject, bind_apply, newRef_apply, Outcome.andThen_done, henv.ok,
    Bool.and_self, callPythonFunc_apply, context_got, hs.context, if_true] at h
  obtain ⟨result, u, hcall, hret⟩ := Outcome.andThen_eq_done_iff.1 h
  rw [noted_eq] at hcall
  obtain ⟨-, rfl⟩ := Outcome.done.inj hcall
  cases result with
  | none => cases hret
  | some result =>
    cases hret
    show (_ && s.interp.raised) = false
    rw [hs.raised, Bool.and_false]

/-- No call leaves an exception pending. -/
theorem raised_platformStep {c : PyEnv × PlatformCall} (hc : c.2.Asks) (henv : c.1.Succeeds)
    (hs : s.Ready) (h : platformStep c s = .done () t) : t.interp.raised = false := by
  obtain ⟨env, call⟩ := c
  cases call with
  | init | finalize => exact hc.elim
  | wrapper request num varg =>
    obtain ⟨v, hv⟩ := forget_eq_done_iff.1 h
    obtain ⟨response, u, -, hparse⟩ := Outcome.andThen_eq_done_iff.1 hv
    change inInterp (parseResponseObject response num varg) env u = .done v t at hparse
    rw [inInterp_apply] at hparse
    split at hparse
    · cases hparse
      exact raised_parseResponseObject ‹_›
    · cases hparse
  | makeLindSysCall request =>
    obtain ⟨response, hresponse⟩ := forget_eq_done_iff.1 h
    have hinterp := makeLindSysCallObject_ready request henv hs
    rw [hresponse, Outcome.bimap] at hinterp
    cases hrun : requestOf request env.env s.interp.world with
    | done response' w =>
      rw [hrun] at hinterp
      rw [(Outcome.done.inj hinterp).2]
      exact hs.raised
    | halt e w =>
      rw [hrun] at hinterp
      cases hinterp
  | getHostFd lindFd =>
    obtain ⟨v, hv⟩ := forget_eq_done_iff.1 h
    obtain ⟨r, u, hdone, hu⟩ := getHostFdFromLindFd_ready lindFd henv hs
    rw [hdone] at hv
    cases hv
    rw [hu, hs.raised]
  | addMapping src dest => exact raised_addMappingObject henv hs h
  | getMapping fd =>
    obtain ⟨v, hv⟩ := forget_eq_done_iff.1 h
    exact raised_getMappingObject henv hs hv

theorem ready_platformStep {c : PyEnv × PlatformCall} (hc : c.2.Asks) (henv : c.1.Succeeds)
    (hs : s.Ready) (h : platformStep c s = .done () t) : t.Ready where
  context := by
    have hmodest := modest_run hc c.1 s
    rw [show c.2.run c.1 s = .done () t from h] at hmodest
    exact hmodest.context.trans hs.context
  raised := raised_platformStep hc henv hs h

end Step

/-! ### Sequences of calls -/

theorem startRepy_succeeds {env : PyEnv} (henv : env.Succeeds) (s : Session) :
    ∃ t, startRepy env s = .done true t ∧ t.context = true ∧ t.interp = s.interp := by
  simp only [startRepy, parseGlobals, bind_apply, ask_apply, get_apply, modify_apply, require,
    henv.repyPath, henv.ok, newRef_apply, ite_run, if_true, Bool.and_self, Bool.not_true,
    Bool.false_eq_true, if_false, Outcome.andThen_done, pure_apply]
  exact ⟨_, rfl, rfl, rfl⟩

/-- The start of the interpreter. -/
theorem ready_init {env : PyEnv} (henv : env.Succeeds) (w : World) :
    ∃ t, platformStep (env, .init) (Session.initial w) = .done () t ∧ t.Ready ∧
      t.interp.world = w := by
  obtain ⟨t, hstart, hcontext, hinterp⟩ :=
    startRepy_succeeds henv { Session.initial w with initialized := 1 }
  have hinit : lindPythonInit env (Session.initial w) = .done 1 t := by
    rw [lindPythonInit_initial, hstart]
    rfl
  refine ⟨{ t with started := true }, ?_, ⟨hcontext, ?_⟩, ?_⟩
  · show (lindPythonInit env (Session.initial w)).andThen _ = _
    rw [hinit]
    rfl
  · rw [hinterp]
    rfl
  · rw [hinterp]
    rfl

/-- **Refinement.** After a start that succeeded, and where the calls of the C API go on to succeed,
any sequence of requests, mappings and look-ups does to the world what the calls stand for, and
halts where they do and for their reasons. -/
theorem platform_refines {env : PyEnv} (henv : env.Succeeds) {calls : List (PyEnv × PlatformCall)}
    (hcalls : ∀ c ∈ calls, c.2.Asks ∧ c.1.Succeeds) (w : World) :
    (inSequence platformStep ((env, .init) :: calls) (Session.initial w)).bimap id
        (·.interp.world) = inSequence worldStep calls w := by
  obtain ⟨t, hinit, ht, rfl⟩ := ready_init henv w
  rw [inSequence, hinit, Outcome.andThen_done]
  have hview {c : PyEnv × PlatformCall} {s : Session} (hc : c.2.Asks ∧ c.1.Succeeds)
      (hs : s.Ready) := platformStep_world hc.1 hc.2 hs
  have hkeep {c : PyEnv × PlatformCall} {s t : Session} (hc : c.2.Asks ∧ c.1.Succeeds)
      (hs : s.Ready) (hdone : platformStep c s = .done () t) :=
    ready_platformStep hc.1 hc.2 hs hdone
  exact bimap_inSequence hview hkeep hcalls ht

theorem succeeds_smooth : PyEnv.smooth.Succeeds := ⟨rfl, fun _ ↦ rfl⟩

/-- Some calls: a request, an entry in the table, and a look-up in it. -/
def someCalls : List (PyEnv × PlatformCall) :=
  [(.smooth, .wrapper (pure lindGetuid) 0 []), (.smooth, .addMapping 3 4), (.smooth, .getMapping 4)]

theorem platform_refines_smooth :
    (inSequence platformStep ((.smooth, .init) :: someCalls) (Session.initial zeroWorld)).bimap id
        (·.interp.world) = inSequence worldStep someCalls zeroWorld :=
  platform_refines succeeds_smooth (by
    intro c hc
    simp only [someCalls, List.mem_cons, List.not_mem_nil, or_false] at hc
    rcases hc with rfl | rfl | rfl <;> exact ⟨trivial, succeeds_smooth⟩) zeroWorld

end ReferenceMonitor
