import Mathlib.Data.List.Count
import Mathlib.Data.List.Nodup
import ReferenceMonitor.Platform.MultiPart

/-!
# `ParseResponse` as a client of the interpreter

`parseResponse` says what becomes of a response. What it leaves out is how `ParseResponse` gets at
it: the GIL it takes and gives back, the references it obtains and releases, and the error indicator
of the interpreter, which `PyErr_Occurred` reads whoever set it. `parseResponseObject` follows the
source with these, `goto`s included.

While no exception is pending, the two agree, and every run that returns leaves the GIL and the
references as it should (`parseResponseObject_apply`). A complete response is then parsed as
documented exactly where the narrowed length of its payload does not cut the copy short
(`parsesWell_iff`).
-/

namespace ReferenceMonitor

open Halting

/-! ### The interpreter -/

/-- The references `ParseResponse` holds, under the names of its variables. -/
inductive Ref where
  | response
  | attrIsError
  | attrCode
  | attrDataOrMessage
  deriving DecidableEq

/-- What happens to a reference. -/
inductive RefEvent where
  | obtain (ref : Ref)
  | release (ref : Ref)
  deriving DecidableEq

/-- The world, and the interpreter in it: the depth of the GIL, whether an exception is pending, and
what happened to the references, newest first. -/
structure Interp where
  world : World
  gil : ℕ
  raised : Bool
  refs : List RefEvent

/-- The monitor's code, as far as it calls the interpreter. -/
abbrev Py := Halting Env Halt Interp

/-- Run code that does not call the interpreter. -/
def inWorld {α : Type} (x : M α) : Py α := fun env s ↦
  match x env s.world with
  | .done a w => .done a { s with world := w }
  | .halt e w => .halt e { s with world := w }

/-- Set the error indicator. -/
def raise : Py Unit := modify fun s ↦ { s with raised := true }

/-- `PyGILState_Ensure`. -/
def gilEnsure : Py Unit := modify fun s ↦ { s with gil := s.gil + 1 }

/-- `PyGILState_Release`. -/
def gilRelease : Py Unit := modify fun s ↦ { s with gil := s.gil - 1 }

/-- `PyErr_Occurred`. -/
def errOccurred : Py Bool := return (← get).raised

/-- `PyErr_Print`, which clears the indicator. -/
def errPrint : Py Unit := modify fun s ↦ { s with raised := false }

/-- `PyObject_GetAttrString`: a new reference, or a null pointer and an exception. -/
def getAttrString (ref : Ref) : Option PyVal → Py (Option PyVal)
  | some v => do
    modify fun s ↦ { s with refs := .obtain ref :: s.refs }
    return some v
  | none => do
    raise
    return none

/-- The interpreter after an attribute was looked up. -/
def Interp.lookedUp (s : Interp) (ref : Ref) : Option PyVal → Interp
  | some _ => { s with refs := .obtain ref :: s.refs }
  | none => { s with raised := true }

@[simp] theorem getAttrString_apply (ref : Ref) (attr : Option PyVal) (env : Env) (s : Interp) :
    getAttrString ref attr env s = .done attr (s.lookedUp ref attr) := by
  cases attr <;> rfl

/-- `Py_XDECREF`. -/
def xdecref (ref : Ref) : Option PyVal → Py Unit
  | some _ => modify fun s ↦ { s with refs := .release ref :: s.refs }
  | none => pure ()

/-- `PyInt_AsLong`: `-1` and an exception where it raises. -/
def intAsLong (v : PyVal) : Py ℤ :=
  match v.asLong with
  | some i => pure i
  | none => do
    raise
    return -1

/-- `PyString_Size` and `PyString_AsString`: the string, or an exception. -/
def stringBytes : PyVal → Py (List Byte)
  | .str bytes => pure bytes
  | _ => do
    raise
    return []

/-! ### `ParseResponse` -/

/-- The attributes `ParseResponse` has looked up when it comes to its end. -/
structure Attrs where
  attrIsError : Option PyVal
  attrCode : Option PyVal
  attrDataOrMessage : Option PyVal

/-- From the look-up of `data` or `message` on: the result, or nothing for a `goto error`. -/
def parseAttrs (isError : Bool) (attrCode : PyVal) (attrDataOrMessage : Option PyVal) (num : ℕ)
    (varg : List Dest) : Py (Option (ℤ × List Ptr)) := do
  if isError && attrDataOrMessage.isNone then return none
  let code ← intAsLong attrCode
  if ← errOccurred then return none
  let dataOrMessage ← (attrDataOrMessage.map stringBytes).getD (pure [])
  if ← errOccurred then return none
  inWorld (setErrno (if isError then wrapInt code else 0))
  if isError then return some (-1, varg.map Dest.ptr)
  let dsts ← inWorld (fetch (copyPayload num dataOrMessage varg))
  return some (wrapInt code, dsts)

/-- Up to the labels `error` and `cleanup`. -/
def parseBody (r : Response) (num : ℕ) (varg : List Dest) :
    Py (Attrs × Option (ℤ × List Ptr)) := do
  match ← getAttrString .attrIsError r.isError with
  | none => return (⟨none, none, none⟩, none)
  | some attrIsError =>
    match ← getAttrString .attrCode r.returnCode with
    | none => return (⟨some attrIsError, none, none⟩, none)
    | some attrCode =>
      let isError := decide (attrIsError = .bool true)
      let attrDataOrMessage ← getAttrString .attrDataOrMessage (if isError then r.message else r.data)
      let result ← parseAttrs isError attrCode attrDataOrMessage num varg
      return (⟨some attrIsError, some attrCode, attrDataOrMessage⟩, result)

/-- The labels `error` and `cleanup`. -/
def cleanup (attrs : Attrs) (result : Option (ℤ × List Ptr)) (varg : List Dest) :
    Py (ℤ × List Ptr) := do
  if result.isNone then errPrint
  xdecref .attrIsError attrs.attrIsError
  xdecref .attrCode attrs.attrCode
  xdecref .attrDataOrMessage attrs.attrDataOrMessage
  xdecref .response (some .other)
  gilRelease
  return result.getD (0, varg.map Dest.ptr)

/-- `ParseResponse`, with what it does to the interpreter. -/
def parseResponseObject (response : Option Response) (num : ℕ) (varg : List Dest) :
    Py (ℤ × List Ptr) := do
  gilEnsure
  match response with
  | none => stop (.segv 0)
  | some r =>
    let (attrs, result) ← parseBody r num varg
    cleanup attrs result varg

/-! ### What is taken is given back -/

/-- The references in a record of look-ups, newest first. -/
def Attrs.held (attrs : Attrs) : List Ref :=
  (attrs.attrDataOrMessage.map fun _ ↦ Ref.attrDataOrMessage).toList ++
    ((attrs.attrCode.map fun _ ↦ Ref.attrCode).toList ++
      (attrs.attrIsError.map fun _ ↦ Ref.attrIsError).toList)

theorem nodup_held (attrs : Attrs) : attrs.held.Nodup := by
  rcases attrs with ⟨_ | _, _ | _, _ | _⟩ <;> simp [Attrs.held]

theorem response_not_mem_held (attrs : Attrs) : .response ∉ attrs.held := by
  rcases attrs with ⟨_ | _, _ | _, _ | _⟩ <;> simp [Attrs.held]

theorem cleanup_apply (attrs : Attrs) (result : Option (ℤ × List Ptr)) (varg : List Dest)
    (env : Env) (s : Interp) :
    cleanup attrs result varg env s = .done (result.getD (0, varg.map Dest.ptr))
      { world := s.world, gil := s.gil - 1, raised := result.isSome && s.raised,
        refs := .release .response :: (attrs.held.map .release ++ s.refs) } := by
  rcases attrs with ⟨_ | _, _ | _, _ | _⟩ <;> cases result <;> rfl

/-- What becomes of these references: they are obtained, and released at the end, as the response
is. -/
def Attrs.events (attrs : Attrs) : List RefEvent :=
  .release .response :: (attrs.held.map .release ++ attrs.held.map .obtain)

theorem count_obtain_events (attrs : Attrs) (ref : Ref) :
    attrs.events.count (.obtain ref) = attrs.held.count ref := by
  have hobtain : (attrs.held.map RefEvent.obtain).count (.obtain ref) = attrs.held.count ref :=
    List.count_map_of_injective _ _ (fun _ _ h ↦ by cases h; rfl) _
  have hrelease : (attrs.held.map RefEvent.release).count (.obtain ref) = 0 :=
    List.count_eq_zero.2 (by simp)
  simp [Attrs.events, hobtain, hrelease]

theorem count_release_events (attrs : Attrs) (ref : Ref) :
    attrs.events.count (.release ref) =
      attrs.held.count ref + if ref = .response then 1 else 0 := by
  have hobtain : (attrs.held.map RefEvent.obtain).count (.release ref) = 0 :=
    List.count_eq_zero.2 (by simp)
  have hrelease : (attrs.held.map RefEvent.release).count (.release ref) = attrs.held.count ref :=
    List.count_map_of_injective _ _ (fun _ _ h ↦ by cases h; rfl) _
  rw [Attrs.events, List.count_cons, List.count_append, hobtain, hrelease, add_zero]
  cases ref <;> rfl

/-- The GIL and the references are as they were. -/
def SameHeld (s s' : Interp) : Prop := s'.gil = s.gil ∧ s'.refs = s.refs

instance : Std.Refl SameHeld := ⟨fun _ ↦ ⟨rfl, rfl⟩⟩

instance : IsTrans Interp SameHeld :=
  ⟨fun _ _ _ h h' ↦ ⟨h'.1.trans h.1, h'.2.trans h.2⟩⟩

theorem sameHeld_inWorld {α : Type} (x : M α) : Keeps SameHeld (inWorld x) := by
  intro env s
  rw [inWorld]
  split <;> exact ⟨rfl, rfl⟩

theorem sameHeld_raise : Keeps SameHeld raise := keeps_modify fun _ ↦ ⟨rfl, rfl⟩

theorem sameHeld_errOccurred : Keeps SameHeld errOccurred :=
  keeps_get.bind fun _ ↦ keeps_pure _

theorem sameHeld_intAsLong (v : PyVal) : Keeps SameHeld (intAsLong v) := by
  rw [intAsLong]
  split
  · exact keeps_pure _
  · exact sameHeld_raise.bind fun _ ↦ keeps_pure _

theorem sameHeld_stringBytes (v : PyVal) : Keeps SameHeld (stringBytes v) := by
  cases v with
  | str bytes => exact keeps_pure _
  | _ => exact sameHeld_raise.bind fun _ ↦ keeps_pure _

/-- Between the last look-up and the labels, nothing is taken. -/
theorem sameHeld_parseAttrs (isError : Bool) (attrCode : PyVal) (attrDataOrMessage : Option PyVal)
    (num : ℕ) (varg : List Dest) :
    Keeps SameHeld (parseAttrs isError attrCode attrDataOrMessage num varg) := by
  refine Keeps.ite (keeps_pure _) ?_
  refine (sameHeld_intAsLong _).bind fun code ↦ sameHeld_errOccurred.bind fun _ ↦ ?_
  refine Keeps.ite (keeps_pure _) (Keeps.bind ?_ fun bytes ↦ sameHeld_errOccurred.bind fun _ ↦ ?_)
  · cases attrDataOrMessage with
    | none => exact keeps_pure _
    | some obj => exact sameHeld_stringBytes obj
  · refine Keeps.ite (keeps_pure _) ((sameHeld_inWorld _).bind fun _ ↦ ?_)
    exact Keeps.ite (keeps_pure _) ((sameHeld_inWorld _).bind fun _ ↦ keeps_pure _)

/-- Up to the labels, the references in the record are taken. -/
theorem parseBody_done {r : Response} {num : ℕ} {varg : List Dest} {env : Env} {s s' : Interp}
    {attrs : Attrs} {result : Option (ℤ × List Ptr)}
    (h : parseBody r num varg env s = .done (attrs, result) s') :
    s'.gil = s.gil ∧ s'.refs = attrs.held.map .obtain ++ s.refs := by
  unfold parseBody at h
  cases hflag : r.isError with
  | none =>
    rw [hflag] at h
    cases h
    exact ⟨rfl, rfl⟩
  | some flag =>
    cases hcode : r.returnCode with
    | none =>
      rw [hflag, hcode] at h
      cases h
      exact ⟨rfl, rfl⟩
    | some attrCode =>
      simp only [bind_apply, getAttrString_apply, hflag, hcode, Outcome.andThen_done] at h
      obtain ⟨res, t, hparse, hret⟩ := Outcome.andThen_eq_done_iff.1 h
      -- what follows the third look-up takes nothing
      obtain ⟨hgil, hrefs⟩ : SameHeld _ t := by
        rw [← Outcome.state_done res t, ← hparse]
        exact sameHeld_parseAttrs _ _ _ _ _ _ _
      simp only [pure_apply, Outcome.done.injEq, Prod.mk.injEq] at hret
      obtain ⟨⟨rfl, rfl⟩, rfl⟩ := hret
      rw [hgil, hrefs]
      cases if decide (flag = .bool true) = true then r.message else r.data <;> exact ⟨rfl, rfl⟩

/-- A reference that is looked up is released, each as often as it was obtained and at most once;
the reference to the response is released once. The GIL is as deep as before. -/
structure Settled (s s' : Interp) : Prop where
  gil : s'.gil = s.gil
  refs : ∃ events, s'.refs = events ++ s.refs ∧
    (∀ ref ≠ .response, events.count (.release ref) = events.count (.obtain ref) ∧
      events.count (.obtain ref) ≤ 1) ∧
    events.count (.release .response) = 1 ∧ events.count (.obtain .response) = 0

/-- Every run that returns gives back what it took, whatever the response and whether or not an
exception was pending. -/
theorem settled_of_returns {response : Option Response} {num : ℕ} {varg : List Dest} {env : Env}
    {s s' : Interp} {v : ℤ × List Ptr}
    (h : parseResponseObject response num varg env s = .done v s') : Settled s s' := by
  cases response with
  | none => cases h
  | some r =>
    obtain ⟨⟨attrs, result⟩, t, hbody, h⟩ := Outcome.andThen_eq_done_iff.1 h
    obtain ⟨hgil, hrefs⟩ := parseBody_done hbody
    change cleanup attrs result varg env t = .done v s' at h
    rw [cleanup_apply, Outcome.done.injEq] at h
    obtain ⟨-, rfl⟩ := h
    have hone := List.nodup_iff_count_le_one.1 (nodup_held attrs)
    have hzero := List.count_eq_zero_of_not_mem (response_not_mem_held attrs)
    refine ⟨by simp [hgil], attrs.events, by simp [hrefs, Attrs.events], fun ref hne ↦ ?_, ?_, ?_⟩
    · rw [count_release_events, count_obtain_events, if_neg hne]
      exact ⟨rfl, hone ref⟩
    · rw [count_release_events, hzero, if_pos rfl]
    · rw [count_obtain_events, hzero]

/-! ### Seen from the world -/

/-- The part of `ParseResponse` behind the last check, on the verdict of `judge`. -/
def afterJudge (num : ℕ) (varg : List Dest) : Verdict → M (ℤ × List Ptr)
  | .failed => return (0, varg.map Dest.ptr)
  | .error code => do
    setErrno (wrapInt code)
    return (-1, varg.map Dest.ptr)
  | .success code data => do
    setErrno 0
    let dsts ← fetch (copyPayload num data varg)
    return (wrapInt code, dsts)

theorem parseResponse_some (r : Response) (num : ℕ) (varg : List Dest) :
    parseResponse (some r) num varg = afterJudge num varg (judge r) := by
  rw [parseResponse]
  cases judge r <;> rfl

theorem afterJudge_error (num : ℕ) (varg : List Dest) (code : ℤ) (env : Env) (w : World) :
    afterJudge num varg (.error code) env w =
      .done (-1, varg.map Dest.ptr) { w with errno := wrapInt code } := rfl

theorem afterJudge_success (num : ℕ) (varg : List Dest) (code : ℤ) (data : List Byte) (env : Env)
    (w : World) :
    afterJudge num varg (.success code data) env w =
      (fetch (copyPayload num data varg) env { w with errno := 0 }).andThen fun dsts w' ↦
        .done (wrapInt code, dsts) w' := rfl

theorem intAsLong_apply (v : PyVal) (env : Env) (s : Interp) :
    intAsLong v env s = match v.asLong with
      | some i => .done i s
      | none => .done (-1) { s with raised := true } := by
  rw [intAsLong]
  cases v.asLong <;> rfl

theorem errOccurred_apply (env : Env) (s : Interp) : errOccurred env s = .done s.raised s := rfl

theorem inWorld_apply {α : Type} (x : M α) (env : Env) (s : Interp) :
    inWorld x env s = match x env s.world with
      | .done a w => .done a { s with world := w }
      | .halt e w => .halt e { s with world := w } := rfl

/-- A conversion that raised ends in the label `error`. -/
theorem parseAttrs_of_raised {isError : Bool} {attrCode : PyVal} {attrDataOrMessage : Option PyVal}
    {num : ℕ} {varg : List Dest} {env : Env} {s : Interp}
    (h : s.raised = true ∨ attrCode.asLong = none) :
    ∃ t, parseAttrs isError attrCode attrDataOrMessage num varg env s = .done none t ∧
      t.world = s.world := by
  rw [parseAttrs, ite_run]
  split
  · exact ⟨s, rfl, rfl⟩
  · rw [bind_apply, intAsLong_apply]
    cases hcode : attrCode.asLong with
    | none => exact ⟨_, rfl, rfl⟩
    | some code =>
      have hraised : s.raised = true := h.resolve_right (by simp [hcode])
      simp only [Outcome.andThen_done, bind_apply, errOccurred_apply, ite_run, hraised, if_true]
      exact ⟨_, rfl, rfl⟩

/-- So does a payload or a message that is no string. -/
theorem parseAttrs_of_not_str {isError : Bool} {attrCode obj : PyVal} {num : ℕ} {varg : List Dest}
    {env : Env} {s : Interp} (hobj : ∀ bytes, obj ≠ .str bytes) :
    ∃ t, parseAttrs isError attrCode (some obj) num varg env s = .done none t ∧
      t.world = s.world := by
  by_cases hraise : s.raised = true ∨ attrCode.asLong = none
  · exact parseAttrs_of_raised hraise
  · obtain ⟨hraised, hcode⟩ := not_or.1 hraise
    obtain ⟨code, hcode⟩ := Option.ne_none_iff_exists'.1 hcode
    refine ⟨{ s with raised := true }, ?_, rfl⟩
    rw [parseAttrs, ite_run, if_neg (by simp), bind_apply, intAsLong_apply, hcode]
    simp only [Outcome.andThen_done, bind_apply, errOccurred_apply, ite_run, hraised]
    cases obj with
    | str bytes => exact absurd rfl (hobj bytes)
    | _ => rfl

/-- With both at hand, what is left is the world's. -/
theorem parseAttrs_complete {isError : Bool} {attrCode : PyVal} {code : ℤ} {bytes : List Byte}
    {num : ℕ} {varg : List Dest} {env : Env} {s : Interp} (hraised : s.raised = false)
    (hcode : attrCode.asLong = some code) :
    parseAttrs isError attrCode (some (.str bytes)) num varg env s =
      (inWorld (afterJudge num varg (if isError then .error code else .success code bytes))
        env s).bimap some id := by
  rw [parseAttrs, ite_run, if_neg (by simp), bind_apply, intAsLong_apply, hcode]
  simp only [Outcome.andThen_done, bind_apply, errOccurred_apply, ite_run, hraised,
    Option.map_some, Option.getD_some, stringBytes, pure_apply, inWorld_apply, Bool.false_eq_true,
    if_false]
  cases isError with
  | true => rfl
  | false =>
    simp only [setErrno, modify_apply, afterJudge, bind_apply, Outcome.andThen_done,
      Bool.false_eq_true, if_false]
    cases fetch (copyPayload num bytes varg) env { s.world with errno := 0 } <;> rfl

/-- The verdict, by what the look-ups found. -/
def judgeAttrs (flag attrCode : PyVal) (attr : Option PyVal) : Verdict :=
  match attr, attrCode.asLong with
  | some (.str dataOrMessage), some code =>
    if flag = .bool true then .error code else .success code dataOrMessage
  | _, _ => .failed

theorem judge_eq_judgeAttrs {r : Response} {flag attrCode : PyVal} (hflag : r.isError = some flag)
    (hcode : r.returnCode = some attrCode) :
    judge r = judgeAttrs flag attrCode (if flag = .bool true then r.message else r.data) := by
  rw [judge.eq_def, hflag, hcode]
  rfl

theorem parseAttrs_world {flag attrCode : PyVal} {attr : Option PyVal} {num : ℕ}
    {varg : List Dest} {env : Env} {s : Interp} (h : s.raised = attr.isNone) :
    (parseAttrs (decide (flag = .bool true)) attrCode attr num varg env s).bimap
        (·.getD (0, varg.map Dest.ptr)) Interp.world =
      afterJudge num varg (judgeAttrs flag attrCode attr) env s.world := by
  have hfailed (hparse : ∃ t, parseAttrs (decide (flag = .bool true)) attrCode attr num varg env s =
      .done none t ∧ t.world = s.world) :
      (parseAttrs (decide (flag = .bool true)) attrCode attr num varg env s).bimap
        (·.getD (0, varg.map Dest.ptr)) Interp.world = afterJudge num varg .failed env s.world := by
    obtain ⟨t, hparse, hworld⟩ := hparse
    rw [hparse, ← hworld]
    rfl
  rcases attr with - | obj
  · exact hfailed (parseAttrs_of_raised (.inl h))
  · cases hcode : attrCode.asLong with
    | none =>
      rw [hfailed (parseAttrs_of_raised (.inr hcode)), judgeAttrs.eq_def, hcode]
      cases obj <;> rfl
    | some code =>
      cases obj with
      | str bytes =>
        rw [parseAttrs_complete h hcode, judgeAttrs.eq_def, hcode]
        by_cases hflag : flag = .bool true
        · simp only [hflag, decide_true, if_true, inWorld_apply]
          cases afterJudge num varg (.error code) env s.world <;> rfl
        · simp only [hflag, decide_false, if_false, Bool.false_eq_true, inWorld_apply]
          cases afterJudge num varg (.success code bytes) env s.world <;> rfl
      | _ => exact hfailed (parseAttrs_of_not_str fun _ hobj ↦ by cases hobj)

theorem parseResponseObject_bimap (r : Response) (num : ℕ) (varg : List Dest) (env : Env)
    (s : Interp) :
    (parseResponseObject (some r) num varg env s).bimap id Interp.world =
      (parseBody r num varg env { s with gil := s.gil + 1 }).bimap
        (fun v ↦ v.2.getD (0, varg.map Dest.ptr)) Interp.world := by
  have hstep : parseResponseObject (some r) num varg env s =
      (parseBody r num varg env { s with gil := s.gil + 1 }).andThen fun v t ↦
        cleanup v.1 v.2 varg env t := rfl
  rw [hstep]
  cases parseBody r num varg env { s with gil := s.gil + 1 } with
  | done v t =>
    rw [Outcome.andThen_done, cleanup_apply]
    rfl
  | halt e t => rfl

/-- After the first two look-ups, both successful. -/
def Interp.entered (s : Interp) : Interp :=
  { s with gil := s.gil + 1, refs := .obtain .attrCode :: .obtain .attrIsError :: s.refs }

/-- Where the first two look-ups succeed, what follows the third decides. -/
theorem parseResponseObject_entered {r : Response} {flag attrCode : PyVal} (num : ℕ)
    (varg : List Dest) (env : Env) (s : Interp) (hflag : r.isError = some flag)
    (hcode : r.returnCode = some attrCode) :
    let attr := if flag = .bool true then r.message else r.data
    (parseResponseObject (some r) num varg env s).bimap id Interp.world =
      (parseAttrs (decide (flag = .bool true)) attrCode attr num varg env
        (s.entered.lookedUp .attrDataOrMessage attr)).bimap
          (·.getD (0, varg.map Dest.ptr)) Interp.world := by
  rw [parseResponseObject_bimap]
  unfold parseBody
  simp only [bind_apply, getAttrString_apply, Outcome.andThen_done, decide_eq_true_eq, hflag, hcode,
    pure_apply]
  exact Outcome.bimap_andThen
    (g := fun result : Option (ℤ × List Ptr) ↦ result.getD (0, varg.map Dest.ptr))

/-- **Refinement.** While no exception is pending, `ParseResponse` does to the world what
`parseResponse` says. -/
theorem parseResponseObject_world {response : Option Response} {num : ℕ} {varg : List Dest}
    {env : Env} {s : Interp} (h : s.raised = false) :
    (parseResponseObject response num varg env s).bimap id Interp.world =
      parseResponse response num varg env s.world := by
  rcases response with - | r
  · rfl
  rw [parseResponse_some]
  cases hflag : r.isError with
  | none =>
    rw [parseResponseObject_bimap, parseBody.eq_def, judge.eq_def, hflag]
    rfl
  | some flag =>
    cases hcode : r.returnCode with
    | none =>
      rw [parseResponseObject_bimap, parseBody.eq_def, judge.eq_def, hflag, hcode]
      rfl
    | some attrCode =>
      rw [parseResponseObject_entered num varg env s hflag hcode, judge_eq_judgeAttrs hflag hcode]
      -- the third look-up raises where the attribute is missing
      cases if flag = .bool true then r.message else r.data with
      | none => exact parseAttrs_world rfl
      | some obj => exact parseAttrs_world h

/-- An exception that was pending before makes any response a success with the code `0`, and its
payload is dropped. -/
theorem parseResponseObject_of_raised (r : Response) (num : ℕ) (varg : List Dest) (env : Env)
    {s : Interp} (h : s.raised = true) :
    (parseResponseObject (some r) num varg env s).bimap id Interp.world =
      .done (0, varg.map Dest.ptr) s.world := by
  cases hflag : r.isError with
  | none =>
    rw [parseResponseObject_bimap, parseBody.eq_def, hflag]
    rfl
  | some flag =>
    cases hcode : r.returnCode with
    | none =>
      rw [parseResponseObject_bimap, parseBody.eq_def, hflag, hcode]
      rfl
    | some attrCode =>
      rw [parseResponseObject_entered num varg env s hflag hcode]
      generalize (if flag = .bool true then r.message else r.data) = attr
      have hraised : (s.entered.lookedUp .attrDataOrMessage attr).raised = true := by
        cases attr with
        | none => rfl
        | some obj => exact h
      obtain ⟨t, hparse, hworld⟩ : ∃ t, parseAttrs (decide (flag = .bool true)) attrCode attr num
          varg env (s.entered.lookedUp .attrDataOrMessage attr) = .done none t ∧
            t.world = (s.entered.lookedUp .attrDataOrMessage attr).world :=
        parseAttrs_of_raised (.inl hraised)
      rw [hparse, Outcome.bimap, hworld]
      cases attr <;> rfl

/-! ### Complete responses -/

/-- A complete response: a flag, a code that is an `int`, and a string for a payload or a
message. -/
structure Response.Complete (r : Response) (isError : Bool) (code : ℤ) (bytes : List Byte) :
    Prop where
  flag : r.isError = some (.bool isError)
  returnCode : r.returnCode = some (.int code)
  low : -2 ^ 31 ≤ code
  high : code < 2 ^ 31
  string : (if isError then r.message else r.data) = some (.str bytes)

theorem Response.Complete.judge_eq {r : Response} {isError : Bool} {code : ℤ} {bytes : List Byte}
    (h : r.Complete isError code bytes) :
    judge r = if isError then .error code else .success code bytes := by
  have hlow := h.low
  have hhigh := h.high
  have hstring := h.string
  rw [judge_eq_judgeAttrs h.flag h.returnCode, judgeAttrs.eq_def,
    PyVal.asLong_int (by omega) (by omega)]
  cases isError <;> simp_all

/-- `ParseResponse` returns this, sets `errno` to this and changes nothing else but the
destinations, and gives back what it took. -/
def EndsWith (r : Response) (num : ℕ) (varg : List Dest) (env : Env) (s : Interp) (ret errno : ℤ)
    (dsts : List Ptr) : Prop :=
  ∃ s', parseResponseObject (some r) num varg env s = .done (ret, dsts) s' ∧
    s'.world = { s.world with errno := errno } ∧ Settled s s'

theorem endsWith_iff {r : Response} {num : ℕ} {varg : List Dest} {env : Env} {s : Interp}
    {ret errno : ℤ} {dsts : List Ptr} (h : s.raised = false) :
    EndsWith r num varg env s ret errno dsts ↔
      parseResponse (some r) num varg env s.world =
        .done (ret, dsts) { s.world with errno := errno } := by
  rw [← parseResponseObject_world h, EndsWith]
  cases hrun : parseResponseObject (some r) num varg env s with
  | done v s' =>
    have hsettled := settled_of_returns hrun
    constructor
    · rintro ⟨_, hdone, hworld, -⟩
      cases hdone
      rw [Outcome.bimap, id, hworld]
    · intro hdone
      rw [Outcome.bimap, Outcome.done.injEq] at hdone
      exact ⟨s', by rw [← hdone.1, id], hdone.2, hsettled⟩
  | halt e s' => simp [Outcome.bimap]

/-- A complete response is parsed as documented: an error for every number of destinations, a
success for none and for one destination with this limit. The response is parsed in a state with or
without a pending exception. -/
structure ParsesWell (r : Response) (isError : Bool) (code : ℤ) (bytes : List Byte) (limit : ℤ)
    (raised : Bool) : Prop where
  error : isError = true → ∀ num varg env s, s.raised = raised →
    EndsWith r num varg env s (-1) code (varg.map Dest.ptr)
  none : isError = false → ∀ env s, s.raised = raised → EndsWith r 0 [] env s code 0 []
  one : isError = false → ∀ dst env s, s.raised = raised → Dest.Takes ⟨dst, limit⟩ bytes.length →
    EndsWith r 1 [⟨dst, limit⟩] env s code 0 [partStored ⟨dst, limit⟩ bytes]
  settled : ∀ num varg env s v s', s.raised = raised →
    parseResponseObject (some r) num varg env s = .done v s' → Settled s s'

/-- The narrowed length of a payload does not cut a copy short that has this limit. -/
def LongEnough (limit : ℤ) (n : ℕ) : Prop := n < 2 ^ 31 ∨ limit ≤ wrapInt n

instance (limit : ℤ) (n : ℕ) : Decidable (LongEnough limit n) := inferInstanceAs (Decidable (_ ∨ _))

/-- Only the length of the copy counts. -/
theorem copyData_congr {dst : Ptr} {src : ℤ → Byte} {maxlen n n' : ℤ}
    (h : copyLen maxlen n = copyLen maxlen n') :
    copyData dst src maxlen n = copyData dst src maxlen n' := by
  rw [copyData.eq_def, copyData.eq_def, h]

theorem copyLen_of_longEnough {limit : ℤ} {n : ℕ} (h : LongEnough limit n) :
    copyLen limit (wrapInt n) = copyLen limit n := by
  rcases h with hlt | hle
  · rw [wrapInt_eq_self (by omega) (by omega)]
  · have hself := wrapInt_le_self (Int.natCast_nonneg n)
    rw [copyLen, copyLen]
    split <;> split <;> omega

/-- One destination, copied in full. -/
theorem fetch_copyPayload_one {dst : Ptr} {limit : ℤ} {bytes : List Byte}
    (htakes : Dest.Takes ⟨dst, limit⟩ bytes.length) (h : LongEnough limit bytes.length) (env : Env)
    (w : World) :
    fetch (copyPayload 1 bytes [⟨dst, limit⟩]) env w =
      .done [partStored ⟨dst, limit⟩ bytes] w := by
  have hcopy : copyData dst (payloadAt env bytes) limit (wrapInt bytes.length) =
      pure (partStored ⟨dst, limit⟩ bytes) := by
    have hdata := copyData_of_takes htakes (payloadAt env bytes) 0
    rw [bytesFrom_eq fun j b hj ↦ by rw [zero_add, payloadAt_natCast hj]] at hdata
    simp only [zero_add] at hdata
    rw [copyData_congr (copyLen_of_longEnough h), hdata]
  simp only [fetch, focus, copyPayload, bind_apply, ask_apply, Outcome.andThen_done, if_true, hcopy]
  rfl

/-- A payload that is cut short: there is a destination whose bytes tell. -/
theorem exists_not_done {limit : ℤ} {bytes : List Byte} (hlimit : 0 ≤ limit)
    (h : ¬ LongEnough limit bytes.length) (env : Env) (w : World) :
    ∃ b : Block, Dest.Takes ⟨.block b, limit⟩ bytes.length ∧
      fetch (copyPayload 1 bytes [⟨.block b, limit⟩]) env w ≠
        .done [partStored ⟨.block b, limit⟩ bytes] w := by
  have hself := wrapInt_le_self (Int.natCast_nonneg bytes.length)
  have hbounds := wrapInt_bounds bytes.length
  rw [LongEnough, not_or] at h
  have hlen : copyLen limit (wrapInt bytes.length) = wrapInt bytes.length := by
    rw [copyLen]
    split <;> omega
  -- a buffer of the size that is copied, with a byte that the first byte not copied is not
  obtain ⟨k, hcut⟩ : ∃ k, (wrapInt bytes.length).toNat = k := ⟨_, rfl⟩
  let other : Byte := bytes[k]?.getD 0 + 1
  refine ⟨⟨0, List.replicate (min limit.toNat bytes.length) (.stored other)⟩,
    ⟨hlimit, .inr ⟨_, rfl, by simp⟩⟩, fun hdone ↦ ?_⟩
  rw [fetch_copyPayload_block] at hdone
  split at hdone
  · rename_i hfits
    have hnonneg : 0 ≤ wrapInt bytes.length := by
      rw [← hlen]
      exact hfits.1
    have hk : k < min limit.toNat bytes.length := by omega
    simp only [Outcome.done.injEq, List.cons.injEq, Ptr.block.injEq, partStored, and_true] at hdone
    have hcells := congrArg (fun b : Block ↦ b.cells[k]?) hdone
    simp only [getElem?_store, length_payloadCells, hlen, hcut, lt_irrefl, if_false, List.length_map,
      List.length_take, hk, if_true, List.getElem?_replicate, List.getElem?_map,
      List.getElem?_take_of_lt (show k < limit.toNat by omega)] at hcells
    have hget : bytes[k]? = some bytes[k] := List.getElem?_eq_getElem (by omega)
    rw [hget, Option.map_some, Option.some.injEq, Cell.stored.injEq] at hcells
    exact absurd hcells (by simp [other, hget])
  · cases hdone

section Complete

variable {r : Response} {isError raised : Bool} {code limit : ℤ} {bytes : List Byte}

/-- A pending exception is taken for one of the response: an error is not reported, and a success
leaves `errno` as it was. -/
theorem not_parsesWell_of_raised (h : ParsesWell r isError code bytes limit true) : False := by
  have hlost (s : Interp) (hs : s.raised = true) (ret errno : ℤ)
      (hends : EndsWith r 0 [] Env.blank s ret errno []) : ret = 0 ∧ s.world.errno = errno := by
    obtain ⟨s', hrun, hworld, -⟩ := hends
    have hzero := parseResponseObject_of_raised r 0 [] Env.blank hs
    rw [hrun, Outcome.bimap, hworld, Outcome.done.injEq] at hzero
    exact ⟨congrArg Prod.fst hzero.1, (congrArg World.errno hzero.2).symm⟩
  cases isError with
  | true =>
    have hret := (hlost ⟨zeroWorld, 0, true, []⟩ rfl _ _ (h.error rfl 0 [] Env.blank _ rfl)).1
    exact absurd hret (by decide)
  | false =>
    have herrno := (hlost ⟨{ zeroWorld with errno := 1 }, 0, true, []⟩ rfl _ _
      (h.none rfl Env.blank _ rfl)).2
    exact absurd herrno (by decide)

/-- A success whose payload is cut short is not parsed well. -/
theorem longEnough_of_parsesWell (hr : r.Complete false code bytes) (hlimit : 0 ≤ limit)
    (h : ParsesWell r false code bytes limit false) : LongEnough limit bytes.length := by
  by_contra hshort
  obtain ⟨b, htakes, hne⟩ := exists_not_done hlimit hshort Env.blank { zeroWorld with errno := 0 }
  have hends := (endsWith_iff rfl).1
    (h.one rfl (.block b) Env.blank ⟨zeroWorld, 0, false, []⟩ rfl htakes)
  rw [parseResponse_some, hr.judge_eq, if_neg (by decide), afterJudge_success] at hends
  obtain ⟨dsts, w', hfetch, hret⟩ := Outcome.andThen_eq_done_iff.1 hends
  rw [Outcome.done.injEq, Prod.mk.injEq] at hret
  obtain ⟨⟨-, rfl⟩, rfl⟩ := hret
  exact hne hfetch

/-- **Complete responses.** One is parsed as documented exactly where no exception is pending and
the copy of its payload, if there is one, is not cut short by the narrowed length. -/
theorem parsesWell_iff (hr : r.Complete isError code bytes) (hlimit : 0 ≤ limit) :
    ParsesWell r isError code bytes limit raised ↔
      raised = false ∧ (isError = true ∨ LongEnough limit bytes.length) := by
  constructor
  · intro h
    cases raised with
    | true => exact (not_parsesWell_of_raised h).elim
    | false =>
      cases isError with
      | true => exact ⟨rfl, .inl rfl⟩
      | false => exact ⟨rfl, .inr (longEnough_of_parsesWell hr hlimit h)⟩
  · rintro ⟨rfl, hcopy⟩
    have hcode : wrapInt code = code := wrapInt_eq_self hr.low hr.high
    refine ⟨fun herror num varg env s hs ↦ ?_, fun hsuccess env s hs ↦ ?_,
      fun hsuccess dst env s hs htakes ↦ ?_, fun _ _ _ _ _ _ _ ↦ settled_of_returns⟩
    · subst herror
      rw [endsWith_iff hs, parseResponse_some, hr.judge_eq, if_pos rfl, afterJudge_error, hcode]
    · subst hsuccess
      rw [endsWith_iff hs, parseResponse_some, hr.judge_eq, if_neg (by decide), afterJudge_success,
        hcode]
      rfl
    · subst hsuccess
      have hlong := hcopy.resolve_left (by decide)
      rw [endsWith_iff hs, parseResponse_some, hr.judge_eq, if_neg (by decide), afterJudge_success,
        hcode, fetch_copyPayload_one htakes hlong, Outcome.andThen_done]

end Complete

/-- A payload of one byte. -/
theorem complete_oneByte : (successResponse 1 [7]).Complete false 1 [7] :=
  ⟨rfl, rfl, by decide, by decide, rfl⟩

theorem parsesWell_iff_oneByte :
    ParsesWell (successResponse 1 [7]) false 1 [7] 4 false ↔
      false = false ∧ (false = true ∨ LongEnough 4 [(7 : Byte)].length) :=
  parsesWell_iff complete_oneByte (by decide)

/-- A payload of `2 ^ 31` bytes has a negative length. -/
theorem not_parsesWell : ¬ ∀ (r : Response) (isError : Bool) (code : ℤ) (bytes : List Byte)
    (limit : ℤ), r.Complete isError code bytes → 0 ≤ limit →
      ParsesWell r isError code bytes limit false := by
  intro h
  have hr : (successResponse 0 (List.replicate (2 ^ 31) 0)).Complete false 0
      (List.replicate (2 ^ 31) 0) := ⟨rfl, rfl, by decide, by decide, rfl⟩
  have hlong := longEnough_of_parsesWell hr (by decide) (h _ _ _ _ 1 hr (by decide))
  rw [List.length_replicate] at hlong
  exact absurd hlong (by decide)

end ReferenceMonitor
