import ReferenceMonitor.Platform.Sessions
import ReferenceMonitor.Platform.Wrappers

/-!
# The GIL along a session

A function is in order where every `CallPythonFunc` it makes runs with the GIL held and where it
leaves the GIL as deep as it found it (`Disciplined`). `MakeLindSysCall`, `GetHostFdFromLindFd` and
`ParseResponse` take the GIL and give it back on every path, whatever fails in between;
`LindPythonFinalize` does so where the interpreter is initialized, and `add_mapping` and
`get_mapping` never take it (`disciplined_run_iff`). A sequence of calls is in order exactly where
these three are kept from going wrong (`gil_disciplined_iff`).
-/

namespace ReferenceMonitor

open Halting

/-! ### Code that leaves the GIL alone -/

/-- The GIL is as deep as it was, and no call was recorded. -/
def SameLock (s s' : Session) : Prop :=
  s'.interp.gil = s.interp.gil ∧ s'.started = s.started ∧ s'.depths = s.depths

instance : Std.Refl SameLock := ⟨fun _ ↦ ⟨rfl, rfl, rfl⟩⟩

instance : IsTrans Session SameLock :=
  ⟨fun _ _ _ ⟨h, h', h''⟩ ⟨k, k', k''⟩ ↦ ⟨k.trans h, k'.trans h', k''.trans h''⟩⟩

/-- The GIL is as deep as it was, and so it was at every call that was recorded. -/
def SameDepth (s s' : Session) : Prop :=
  s'.interp.gil = s.interp.gil ∧ s'.started = s.started ∧
    ∃ ds, s'.depths = ds ++ s.depths ∧ ∀ d ∈ ds, d = s.interp.gil

instance : Std.Refl SameDepth := ⟨fun _ ↦ ⟨rfl, rfl, [], rfl, by simp⟩⟩

instance : IsTrans Session SameDepth := by
  refine ⟨fun s t u ⟨hgil, hstarted, ds, hds, hall⟩ ⟨hgil', hstarted', ds', hds', hall'⟩ ↦
    ⟨hgil'.trans hgil, hstarted'.trans hstarted, ds' ++ ds, ?_, fun d hd ↦ ?_⟩⟩
  · rw [hds', hds, List.append_assoc]
  · rcases List.mem_append.1 hd with hd | hd
    · rw [hall' d hd, hgil]
    · exact hall d hd

theorem SameLock.sameDepth {s s' : Session} (h : SameLock s s') : SameDepth s s' :=
  ⟨h.1, h.2.1, [], h.2.2, by simp⟩

theorem sameDepth_of_sameLock {α : Type} {x : Capi α} (hx : Keeps SameLock x) :
    Keeps SameDepth x := hx.mono fun _ _ h ↦ h.sameDepth

theorem sameHeld_errPrint : Keeps SameHeld errPrint := keeps_modify fun _ ↦ ⟨rfl, rfl⟩

theorem sameLock_inInterp {α : Type} {x : Py α} (hx : Keeps SameHeld x) :
    Keeps SameLock (inInterp x) := by
  intro env s
  have hgil := (hx env.env s.interp).1
  rw [inInterp_apply]
  cases hrun : x env.env s.interp with
  | done a t =>
    rw [hrun] at hgil
    exact ⟨hgil, rfl, rfl⟩
  | halt e t =>
    rw [hrun] at hgil
    exact ⟨hgil, rfl, rfl⟩

theorem sameLock_got (s : Session) (o : PyObj) (obj : Bool) : SameLock s (s.got o obj) := by
  cases obj <;> exact ⟨rfl, rfl, rfl⟩

theorem sameLock_newRef (o : PyObj) (given : Bool) : Keeps SameLock (newRef o given) := by
  intro env s
  rw [newRef_apply]
  exact sameLock_got s o _

theorem sameLock_decref (o : PyObj) (obj : Bool) : Keeps SameLock (decref o obj) :=
  keeps_modify fun _ ↦ ⟨rfl, rfl, rfl⟩

theorem sameLock_errPrint : Keeps SameLock (inInterp errPrint) :=
  sameLock_inInterp sameHeld_errPrint

theorem sameLock_printIf (error : Bool) : Keeps SameLock (printIf error) :=
  Keeps.ite sameLock_errPrint (keeps_pure _)

theorem sameLock_parseGlobals : Keeps SameLock parseGlobals :=
  keeps_ask.bind fun _ ↦ Keeps.ite (keeps_modify fun _ ↦ ⟨rfl, rfl, rfl⟩)
    (sameLock_inInterp sameHeld_raise)

theorem sameLock_require (c : Bool) (reason : Halt) : Keeps SameLock (require c reason) :=
  Keeps.ite (keeps_pure _) (keeps_stop _)

theorem sameLock_startRepy : Keeps SameLock startRepy := by
  refine keeps_ask.bind fun _ ↦ (sameLock_require _ _).bind fun _ ↦ ?_
  refine keeps_ask.bind fun _ ↦ Keeps.ite (keeps_pure _) ?_
  refine (sameLock_newRef _ _).bind fun _ ↦ (sameLock_newRef _ _).bind fun _ ↦ ?_
  refine (sameLock_newRef _ _).bind fun _ ↦ (keeps_modify fun _ ↦ ⟨rfl, rfl, rfl⟩).bind fun _ ↦ ?_
  refine Keeps.ite (keeps_pure _) ((sameLock_newRef _ _).bind fun _ ↦ ?_)
  refine Keeps.ite (keeps_pure _) ((sameLock_newRef _ _).bind fun _ ↦ ?_)
  refine (sameLock_newRef _ _).bind fun _ ↦ Keeps.ite (keeps_pure _) ?_
  refine sameLock_parseGlobals.bind fun _ ↦ keeps_get.bind fun _ ↦ ?_
  exact Keeps.ite (keeps_pure _) (sameLock_newRef _ _)

theorem sameLock_lindPythonInit : Keeps SameLock lindPythonInit := by
  refine keeps_get.bind fun _ ↦ (sameLock_require _ _).bind fun _ ↦ ?_
  refine (keeps_modify fun _ ↦ ⟨rfl, rfl, rfl⟩).bind fun _ ↦ Keeps.ite (keeps_pure _) ?_
  refine sameLock_startRepy.bind fun _ ↦ Keeps.ite (keeps_pure _) ?_
  refine (keeps_modify fun _ ↦ ⟨rfl, rfl, rfl⟩).bind fun _ ↦ ?_
  exact sameLock_errPrint.bind fun _ ↦ keeps_pure _

/-! ### `CallPythonFunc` -/

/-- One call was recorded, at the depth the GIL had and still has. -/
def Noted (s s' : Session) : Prop := SameLock s.noted s'

theorem gil_noted (s : Session) : s.noted.interp.gil = s.interp.gil := by
  rw [Session.noted]
  split <;> rfl

theorem started_noted (s : Session) : s.noted.started = s.started := by
  rw [Session.noted]
  split <;> rfl

theorem depths_noted (s : Session) :
    s.noted.depths = (if s.started then [s.interp.gil] else []) ++ s.depths := by
  rw [Session.noted]
  split <;> rfl

theorem Noted.trans_sameLock {s t u : Session} (h : Noted s t) (h' : SameLock t u) : Noted s u :=
  trans_of SameLock h h'

theorem Noted.of_got {s t : Session} (o : PyObj) (obj : Bool) (h : Noted (s.got o obj) t) :
    Noted s t := by
  obtain ⟨hgil, hstarted, hdepths⟩ := sameLock_got s o obj
  refine trans_of SameLock ⟨?_, ?_, ?_⟩ h
  · rw [gil_noted, gil_noted, hgil]
  · rw [started_noted, started_noted, hstarted]
  · rw [depths_noted, depths_noted, hstarted, hgil, hdepths]

theorem Noted.sameDepth {s t : Session} (h : Noted s t) : SameDepth s t := by
  refine ⟨h.1.trans (gil_noted s), h.2.1.trans (started_noted s), _,
    h.2.2.trans (depths_noted s), fun d hd ↦ ?_⟩
  split at hd
  · exact List.mem_singleton.1 hd
  · exact absurd hd List.not_mem_nil

section CallPythonFunc

variable {α : Type} {func : PyFunc} {call : Capi (Option α)}

theorem noted_callPythonFunc {args : Bool} (hcall : Keeps SameLock call) :
    Keeps Noted (callPythonFunc func args call) := by
  intro env s
  have hcalled := Keeps.ite (c := (env.ok (.func func) && args) = true) hcall (keeps_pure none)
    env s.noted
  rw [callPythonFunc_apply]
  split
  · cases hrun : (if env.ok (.func func) && args then call else pure none) env s.noted with
    | done result t =>
      rw [hrun] at hcalled
      exact ⟨hcalled.1, hcalled.2.1, hcalled.2.2⟩
    | halt e t =>
      rw [hrun] at hcalled
      exact hcalled
  · exact refl_of SameLock _

/-- A call that is followed by code that leaves the GIL alone. -/
theorem noted_callPythonFunc_bind {β : Type} {args : Bool} {f : Option α → Capi β}
    (hcall : Keeps SameLock call) (hf : ∀ result, Keeps SameLock (f result)) :
    Keeps Noted (callPythonFunc func args call >>= f) :=
  (noted_callPythonFunc hcall).comp hf (fun _ _ h ↦ h) fun _ _ _ h h' ↦ h.trans_sameLock h'

theorem sameDepth_callPythonFunc {args : Bool} (hcall : Keeps SameLock call) :
    Keeps SameDepth (callPythonFunc func args call) :=
  (noted_callPythonFunc hcall).mono fun _ _ h ↦ h.sameDepth

theorem sameDepth_newRef (o : PyObj) (given : Bool) : Keeps SameDepth (newRef o given) :=
  sameDepth_of_sameLock (sameLock_newRef o given)

theorem sameDepth_decref (o : PyObj) (obj : Bool) : Keeps SameDepth (decref o obj) :=
  sameDepth_of_sameLock (sameLock_decref o obj)

theorem sameDepth_printIf (error : Bool) : Keeps SameDepth (printIf error) :=
  sameDepth_of_sameLock (sameLock_printIf error)

end CallPythonFunc

/-! ### Functions in order -/

/-- Every `CallPythonFunc` that is recorded runs with the GIL held, and a function that returns
leaves the GIL as deep as it was. -/
structure Disciplined {α : Type} (x : Capi α) (env : PyEnv) (s : Session) : Prop where
  held : ∃ ds, (x env s).state.depths = ds ++ s.depths ∧ ∀ d ∈ ds, 0 < d
  balanced : ∀ ⦃a t⦄, x env s = .done a t → t.interp.gil = s.interp.gil

section Disciplined

variable {α β : Type} {x : Capi α} {env : PyEnv} {s : Session}

theorem disciplined_of_sameLock (hx : Keeps SameLock x) : Disciplined x env s := by
  refine ⟨⟨[], (hx env s).2.2, by simp⟩, fun a t hdone ↦ ?_⟩
  have hgil := (hx env s).1
  rwa [hdone] at hgil

/-- Between `PyGILState_Ensure` and `PyGILState_Release`, the GIL is held. -/
theorem disciplined_withGil (hx : Keeps SameDepth x) : Disciplined (withGil x) env s := by
  obtain ⟨hgil, -, ds, hds, hall⟩ :=
    hx env { s with interp := { s.interp with gil := s.interp.gil + 1 } }
  have hrun : withGil x env s =
      (x env { s with interp := { s.interp with gil := s.interp.gil + 1 } }).andThen fun a t ↦
        .done a { t with interp := { t.interp with gil := t.interp.gil - 1 } } := rfl
  refine ⟨⟨ds, ?_, fun d hd ↦ ?_⟩, fun a t hdone ↦ ?_⟩
  · rw [hrun, ← hds]
    cases x env { s with interp := { s.interp with gil := s.interp.gil + 1 } } <;> rfl
  · -- the depth at every call is the one behind `PyGILState_Ensure`
    rw [hall d hd]
    exact Nat.succ_pos _
  · rw [hrun] at hdone
    obtain ⟨b, u, hbody, hret⟩ := Outcome.andThen_eq_done_iff.1 hdone
    cases hret
    rw [hbody] at hgil
    exact Nat.sub_eq_of_eq_add hgil

/-- One function after another, each in order. -/
theorem Disciplined.bind {f : α → Capi β} (hx : Disciplined x env s)
    (hf : ∀ a t, x env s = .done a t → Disciplined (f a) env t) : Disciplined (x >>= f) env s := by
  obtain ⟨ds, hds, hall⟩ := hx.held
  cases hrun : x env s with
  | halt e t =>
    -- the calls made before the halt count all the same
    have hbind : (x >>= f) env s = .halt e t := by rw [bind_apply, hrun, Outcome.andThen_halt]
    rw [hrun] at hds
    refine ⟨⟨ds, by rw [hbind]; exact hds, hall⟩, fun a t' hdone ↦ ?_⟩
    rw [hbind] at hdone
    cases hdone
  | done a t =>
    have hbind : (x >>= f) env s = f a env t := by rw [bind_apply, hrun, Outcome.andThen_done]
    rw [hrun] at hds
    obtain ⟨ds', hds', hall'⟩ := (hf a t hrun).held
    refine ⟨⟨ds' ++ ds, ?_, fun d hd ↦ ?_⟩, fun b u hdone ↦ ?_⟩
    · rw [hbind, hds', List.append_assoc]
      exact congrArg (ds' ++ ·) hds
    · exact (List.mem_append.1 hd).elim (hall' d) (hall d)
    · rw [hbind] at hdone
      rw [(hf a t hrun).balanced hdone, hx.balanced hrun]

/-- The value does not count. -/
theorem disciplined_forget_iff :
    Disciplined (x >>= fun _ ↦ pure ()) env s ↔ Disciplined x env s := by
  have hrun : (x >>= fun _ ↦ pure ()) env s = (x env s).andThen fun _ t ↦ .done () t := rfl
  refine ⟨fun ⟨hheld, hbalanced⟩ ↦ ⟨?_, fun a t hdone ↦ ?_⟩, fun h ↦
    h.bind fun _ _ _ ↦ disciplined_of_sameLock (keeps_pure _)⟩
  · rw [hrun] at hheld
    cases hx : x env s <;> rwa [hx] at hheld
  · exact hbalanced (by rw [hrun, hdone, Outcome.andThen_done])

/-- A function that makes one call where the GIL is as deep as at its beginning. -/
theorem disciplined_iff_of_noted (h : Noted s (x env s).state) :
    Disciplined x env s ↔ (s.started = true → 0 < s.interp.gil) := by
  have hdepths := h.2.2.trans (depths_noted s)
  constructor
  · rintro ⟨⟨ds, hds, hall⟩, -⟩ hstarted
    -- what was recorded is just this one call
    rw [hds, if_pos hstarted] at hdepths
    rw [List.append_cancel_right hdepths] at hall
    exact hall _ (List.mem_singleton_self _)
  · intro hpos
    refine ⟨⟨_, hdepths, fun d hd ↦ ?_⟩, fun a t hdone ↦ ?_⟩
    · split at hd
      · rw [List.mem_singleton.1 hd]
        exact hpos (by assumption)
      · exact absurd hd List.not_mem_nil
    · have hgil := h.sameDepth.1
      rwa [hdone] at hgil

end Disciplined

/-! ### The functions of the platform -/

section Functions

variable {env : PyEnv} {s : Session}

theorem disciplined_makeLindSysCallObject (request : Fetch Request) :
    Disciplined (makeLindSysCallObject request) env s := by
  refine disciplined_withGil ?_
  refine (sameDepth_of_sameLock (sameLock_inInterp (sameHeld_inWorld _))).bind fun _ ↦ ?_
  refine (sameDepth_newRef _ _).bind fun _ ↦ (sameDepth_newRef _ _).bind fun _ ↦ ?_
  refine (sameDepth_callPythonFunc (sameLock_inInterp (sameHeld_inWorld _))).bind fun _ ↦ ?_
  exact (sameDepth_decref _ _).bind fun _ ↦ (sameDepth_decref _ _).bind fun _ ↦ keeps_pure _

/-- `ParseResponse` calls no Python function. -/
theorem disciplined_parseResponseObject (response : Option Response) (num : ℕ) (varg : List Dest) :
    Disciplined (inInterp (parseResponseObject response num varg)) env s := by
  cases hrun : parseResponseObject response num varg env.env s.interp with
  | done v t =>
    refine ⟨⟨[], ?_, by simp⟩, fun a t' hdone ↦ ?_⟩
    · rw [inInterp_apply, hrun]
      rfl
    · rw [inInterp_apply, hrun] at hdone
      cases hdone
      exact (settled_of_returns hrun).gil
  | halt e t =>
    refine ⟨⟨[], ?_, by simp⟩, fun a t' hdone ↦ ?_⟩
    · rw [inInterp_apply, hrun]
      rfl
    · rw [inInterp_apply, hrun] at hdone
      cases hdone

theorem disciplined_lindWrapper (request : Fetch Request) (num : ℕ) (varg : List Dest) :
    Disciplined (lindWrapper request num varg) env s :=
  (disciplined_makeLindSysCallObject request).bind fun response _ _ ↦
    disciplined_parseResponseObject response num varg

theorem disciplined_getHostFdFromLindFd (lindFd : ℤ) :
    Disciplined (getHostFdFromLindFd lindFd) env s := by
  refine disciplined_withGil (Keeps.ite (keeps_pure _) ?_)
  refine (sameDepth_newRef _ _).bind fun _ ↦ Keeps.bind ((sameDepth_newRef _ _).bind fun _ ↦ ?_) ?_
  · exact sameDepth_callPythonFunc (keeps_ask.bind fun _ ↦ keeps_pure _)
  · refine fun _ ↦ (sameDepth_printIf _).bind fun _ ↦ (sameDepth_decref _ _).bind fun _ ↦ ?_
    exact (sameDepth_decref _ _).bind fun _ ↦ keeps_pure _

theorem sameDepth_finalizeCalls : Keeps SameDepth finalizeCalls := by
  refine Keeps.bind ((sameDepth_newRef _ _).bind fun _ ↦ ?_) fun _ ↦ ?_
  · exact sameDepth_callPythonFunc (keeps_ask.bind fun _ ↦ keeps_pure _)
  · refine Keeps.ite (keeps_pure _) (keeps_get.bind fun _ ↦ ?_)
    refine (sameDepth_of_sameLock (sameLock_require _ _)).bind fun _ ↦ ?_
    refine (sameDepth_newRef _ _).bind fun _ ↦ Keeps.ite (keeps_pure _) ?_
    refine (sameDepth_newRef _ _).bind fun _ ↦ (sameDepth_newRef _ _).bind fun _ ↦ ?_
    exact Keeps.ite (keeps_pure _) (keeps_pure _)

theorem sameDepth_finalizeBody : Keeps SameDepth finalizeBody := by
  refine sameDepth_finalizeCalls.bind fun ⟨held, finalized⟩ ↦ ?_
  have hfinalized : Keeps SameLock (modify fun s ↦
      { s with initialized := if finalized then 0 else s.initialized } : Capi Unit) :=
    keeps_modify fun _ ↦ ⟨rfl, rfl, rfl⟩
  refine (sameDepth_of_sameLock hfinalized).bind fun _ ↦ ?_
  refine (sameDepth_printIf _).bind fun _ ↦ Keeps.bind ?_ fun _ ↦ keeps_get.bind fun _ ↦ ?_
  · induction held with
    | nil => exact keeps_pure _
    | cons o held ih => exact (sameDepth_decref o true).bind fun _ ↦ ih
  · refine (sameDepth_decref _ _).bind fun _ ↦ (sameDepth_decref _ _).bind fun _ ↦ ?_
    exact (sameDepth_decref _ _).bind fun _ ↦ keeps_pure _

/-- Without an initialized interpreter, the GIL is not given back. -/
theorem disciplined_lindPythonFinalize_iff :
    Disciplined lindPythonFinalize env s ↔ s.initialized ≠ 0 := by
  have hrun : lindPythonFinalize env s =
      if s.initialized = 0 then
        .done 0 { s with interp := { s.interp with gil := s.interp.gil + 1 } }
      else withGil finalizeBody env s := by
    simp only [lindPythonFinalize, bind_apply, inInterp_apply, gilEnsure, modify_apply, get_apply,
      Outcome.andThen_done, ite_run, pure_apply]
    rfl
  refine ⟨fun h hzero ↦ ?_, fun hne ↦ ?_⟩
  · -- the early return leaves the GIL one deeper
    rw [if_pos hzero] at hrun
    exact absurd (h.balanced hrun) (Nat.succ_ne_self _)
  · rw [if_neg hne] at hrun
    have hbody : Disciplined (withGil finalizeBody) env s :=
      disciplined_withGil sameDepth_finalizeBody
    obtain ⟨hheld, hbalanced⟩ := hbody
    rw [← hrun] at hheld
    exact ⟨hheld, fun a t hdone ↦ hbalanced (hrun ▸ hdone)⟩

/-- `add_mapping` calls Python with the GIL as it is. -/
theorem disciplined_addMappingObject_iff {src dest : ℤ} :
    Disciplined (addMappingObject src dest) env s ↔
      (s.started = true → 0 < s.interp.gil ∨ src < 0 ∨ dest < 0) := by
  by_cases hneg : src < 0 ∨ dest < 0
  · have hpure : addMappingObject src dest = pure () := if_pos hneg
    rw [hpure]
    exact iff_of_true (disciplined_of_sameLock (keeps_pure _)) fun _ ↦ .inr hneg
  · have hnoted : Noted s (addMappingObject src dest env s).state := by
      refine Noted.of_got .args (env.ok .args) ?_
      rw [addMappingObject, if_neg hneg, bind_apply, newRef_apply, Bool.true_and]
      refine noted_callPythonFunc_bind ?_ (fun _ ↦ ?_) env _
      · refine (sameLock_inInterp (sameHeld_inWorld _)).bind fun _ ↦ ?_
        exact keeps_ask.bind fun _ ↦ keeps_pure _
      · exact (sameLock_decref _ _).bind fun _ ↦ sameLock_decref _ _
    simp only [disciplined_iff_of_noted hnoted, hneg, or_false]

/-- So does `get_mapping`. -/
theorem disciplined_getMappingObject_iff {fd : ℤ} :
    Disciplined (getMappingObject fd) env s ↔ (s.started = true → 0 < s.interp.gil) := by
  refine disciplined_iff_of_noted (Noted.of_got .args (env.ok .args) ?_)
  rw [getMappingObject, bind_apply, newRef_apply, Bool.true_and]
  refine noted_callPythonFunc_bind ?_ (fun result ↦ ?_) env _
  · exact keeps_ask.bind fun _ ↦ keeps_get.bind fun _ ↦ keeps_pure _
  · rcases result with - | result
    · exact keeps_stop _
    · exact (sameLock_decref _ _).bind fun _ ↦ (sameLock_decref _ _).bind fun _ ↦ keeps_pure _

end Functions

/-! ### Along a sequence -/

/-- A call that is in order while the GIL is free: the mappings are not used once there is a
session, and `LindPythonFinalize` is not called without an initialized interpreter. -/
def PlatformCall.LocksKept (s : Session) : PlatformCall → Prop
  | addMapping src dest => s.started = true → src < 0 ∨ dest < 0
  | getMapping _ => s.started = false
  | finalize => s.initialized ≠ 0
  | _ => True

instance (s : Session) : (c : PlatformCall) → Decidable (c.LocksKept s)
  | .addMapping _ _ => inferInstanceAs (Decidable (_ → _ ∨ _))
  | .getMapping _ => inferInstanceAs (Decidable (_ = _))
  | .finalize => inferInstanceAs (Decidable (_ ≠ _))
  | .init | .wrapper _ _ _ | .makeLindSysCall _ | .getHostFd _ => inferInstanceAs (Decidable True)

/-- **One call.** It is in order exactly under this condition. -/
theorem disciplined_run_iff {env : PyEnv} {s : Session} (hs : s.interp.gil = 0)
    (c : PlatformCall) : Disciplined c.run env s ↔ c.LocksKept s := by
  cases c with
  | init =>
    -- no `CallPythonFunc` and no GIL in `LindPythonInit`; only then the session has started
    have hinit : Disciplined lindPythonInit env s := disciplined_of_sameLock sameLock_lindPythonInit
    refine iff_of_true (hinit.bind fun _ _ _ ↦ ⟨⟨[], rfl, by simp⟩, fun _ _ hdone ↦ ?_⟩) trivial
    cases hdone
    rfl
  | finalize => exact disciplined_forget_iff.trans disciplined_lindPythonFinalize_iff
  | wrapper request num varg =>
    exact iff_of_true (disciplined_forget_iff.2 (disciplined_lindWrapper request num varg)) trivial
  | makeLindSysCall request =>
    exact iff_of_true (disciplined_forget_iff.2 (disciplined_makeLindSysCallObject request)) trivial
  | getHostFd lindFd =>
    exact iff_of_true (disciplined_forget_iff.2 (disciplined_getHostFdFromLindFd lindFd)) trivial
  | addMapping src dest =>
    refine disciplined_addMappingObject_iff.trans ?_
    simp only [hs, lt_irrefl, false_or]
    rfl
  | getMapping fd =>
    refine disciplined_forget_iff.trans (disciplined_getMappingObject_iff.trans ?_)
    simp only [hs, lt_irrefl, imp_false, Bool.not_eq_true]
    rfl

/-- **Lock discipline.** From a state in which the GIL is free, a sequence of calls is in order
exactly where every call meets its condition. -/
theorem gil_disciplined_iff {s : Session} (hs : s.interp.gil = 0)
    (calls : List (PyEnv × PlatformCall)) :
    AllSteps platformStep (fun c s ↦ Disciplined c.2.run c.1 s) calls s ↔
      AllSteps platformStep (fun c s ↦ c.2.LocksKept s) calls s :=
  allSteps_iff_of_invariant (I := fun s ↦ s.interp.gil = 0) hs
    (fun hgil h hdone ↦ (h.balanced hdone).trans hgil) fun hgil ↦ disciplined_run_iff hgil _

/-- From the loading of the monitor to `LindPythonFinalize`. -/
theorem gil_disciplined_session :
    AllSteps platformStep (fun c s ↦ Disciplined c.2.run c.1 s)
      [(.smooth, .init), (.smooth, .makeLindSysCall (pure lindGetpid)), (.smooth, .getHostFd 3),
        (.smooth, .finalize)] (Session.initial zeroWorld) := by
  refine (gil_disciplined_iff rfl _).2 ⟨trivial, fun _ s h ↦ ⟨trivial, fun _ t h' ↦
    ⟨trivial, fun _ u h'' ↦ ⟨?_, fun _ _ _ ↦ trivial⟩⟩⟩⟩
  cases h
  cases h'
  cases h''
  exact Nat.succ_ne_zero 0

/-- `add_mapping` behind `LindPythonInit`. -/
theorem not_gil_disciplined : ¬ ∀ calls : List (PyEnv × PlatformCall),
    AllSteps platformStep (fun c s ↦ Disciplined c.2.run c.1 s) calls
      (Session.initial zeroWorld) := by
  intro h
  obtain ⟨-, hrest⟩ := h [(.smooth, .init), (.smooth, .addMapping 3 4)]
  obtain ⟨hmapping, -⟩ := hrest () _ rfl
  have hkept := (disciplined_run_iff rfl (.addMapping 3 4)).1 hmapping
  exact absurd (hkept rfl) (by decide)

end ReferenceMonitor
