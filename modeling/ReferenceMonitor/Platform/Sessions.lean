import Mathlib.Algebra.Group.Pi.Basic
import Mathlib.Algebra.Group.Int.Defs
import ReferenceMonitor.Library.Runs
import ReferenceMonitor.Platform.References

/-!
# Sessions with the interpreter: the functions of `lind_platform.c` that call Python

`makeLindSysCall`, `addMapping` and `getMapping` say what reaches Lind. Here these functions, and
those that start and stop the interpreter, are followed through the C API: which of its calls may
fail, which references they take and release, and where the GIL is taken. A `Session` is the state
they share, the globals `initialized`, `repylib`, `code` and `context` included.

`PyDict_GetItemString`, `PySys_GetObject` and `PyArg_ParseTuple` yield borrowed references;
`Py_BuildValue`, `PyObject_CallObject` and the other calls yield new ones. The reference to a
response passes to `ParseResponse`, which accounts for it itself (`Interp.refs`).
-/

namespace ReferenceMonitor

open Halting

/-! ### Objects and sessions -/

/-- The functions `CallPythonFunc` is asked for. -/
inductive PyFunc where
  | lindSyscall
  | mapNativeToLind
  | getLindMapToNative
  | getHostFdFromLindFd
  | finalize
  deriving DecidableEq

/-- The objects these functions get from the C API, under the names of their variables. -/
inductive PyObj where
  /-- `func_obj`, as the dictionary `context` holds it. -/
  | func (f : PyFunc)
  | args
  | callandarg
  /-- What a function called by `CallPythonFunc` returned. -/
  | result
  | pyLindFd
  | path
  | repyPath
  | repylibName
  | repylib
  | repyMainFunc
  | repyMainArgs
  /-- What `repy_main` returned. -/
  | mainResult
  | code
  | context
  /-- What `PyEval_EvalCode` returned. -/
  | evalResult
  | repyFinalizeFunc
  | repyFinalizeArgs
  /-- What `finalize` of `repylib` returned. -/
  | finalizeResult
  deriving DecidableEq

/-- What a call finds around it: the monitor's surroundings, and how the interpreter answers. -/
structure PyEnv where
  env : Env
  /-- `REPY_PATH` is set. -/
  repyPath : Bool
  /-- Whether the API call that yields this object succeeds. -/
  ok : PyObj → Bool
  /-- The answer of `GetHostFdFromLindFd`; nothing when the call raised. -/
  hostFd : ℤ → Option PyVal

/-- Every call succeeds: a request with the code `0`, and a descriptor is given back as it is. -/
def PyEnv.smooth : PyEnv where
  env :=
    { Env.blank with
      lind := fun _ ↦ some (successResponse 0 [])
      lookup := fun _ fd ↦ some (.int fd) }
  repyPath := true
  ok _ := true
  hostFd fd := some (.int fd)

/-- The interpreter, the globals of `lind_platform.c` (of a pointer, whether it is set), and what is
recorded of the calls made. -/
structure Session where
  interp : Interp
  initialized : ℕ
  repylib : Bool
  code : Bool
  context : Bool
  /-- A call of `LindPythonInit` has returned. -/
  started : Bool
  /-- How many references to an object were taken, less those released. -/
  balance : PyObj → ℤ
  /-- The depth of the GIL at each `CallPythonFunc` made since, newest first. -/
  depths : List ℕ

/-- The session when the monitor is loaded. -/
def Session.initial (w : World) : Session where
  interp := ⟨w, 0, false, []⟩
  initialized := 0
  repylib := false
  code := false
  context := false
  started := false
  balance := 0
  depths := []

/-- The code of the monitor that calls the C API. -/
abbrev Capi := Halting PyEnv Halt Session

/-- Run code that leaves the globals alone. -/
def inInterp {α : Type} (x : Py α) : Capi α := fun env s ↦
  match x env.env s.interp with
  | .done a t => .done a { s with interp := t }
  | .halt e t => .halt e { s with interp := t }

/-- Stop unless a condition is met. -/
def require (c : Bool) (reason : Halt) : Capi Unit := if c then pure () else stop reason

/-- `PyErr_Print` on the way through a label `error`. -/
def printIf (error : Bool) : Capi Unit := if error then inInterp errPrint else pure ()

/-- Count references to an object. -/
def Session.count (s : Session) (o : PyObj) (n : ℤ) : Session :=
  { s with balance := s.balance + Pi.single o n }

/-- An API call that yields a new reference, or a null pointer and an exception. It fails where a
null pointer is among what it is given. -/
def newRef (o : PyObj) (given : Bool) : Capi Bool := do
  let obj := given && (← ask).ok o
  if obj then modify (Session.count · o 1) else inInterp raise
  return obj

/-- The session after `Py_XDECREF`. -/
def Session.release (s : Session) (o : PyObj) (obj : Bool) : Session :=
  s.count o (if obj then -1 else 0)

/-- `Py_XDECREF`. -/
def decref (o : PyObj) (obj : Bool) : Capi Unit := modify fun s ↦ s.release o obj

@[simp] theorem inInterp_apply {α : Type} (x : Py α) (env : PyEnv) (s : Session) :
    inInterp x env s = match x env.env s.interp with
      | .done a t => .done a { s with interp := t }
      | .halt e t => .halt e { s with interp := t } := rfl

/-- The session after an API call was to yield a new reference. -/
def Session.got (s : Session) (o : PyObj) (obj : Bool) : Session :=
  if obj then s.count o 1 else { s with interp := { s.interp with raised := true } }

@[simp] theorem newRef_apply (o : PyObj) (given : Bool) (env : PyEnv) (s : Session) :
    newRef o given env s = .done (given && env.ok o) (s.got o (given && env.ok o)) := by
  simp only [newRef, Session.got, bind_apply, ask_apply, Outcome.andThen_done]
  cases given && env.ok o <;> rfl

@[simp] theorem decref_apply (o : PyObj) (obj : Bool) (env : PyEnv) (s : Session) :
    decref o obj env s = .done () (s.release o obj) := rfl

@[simp] theorem printIf_apply (error : Bool) (env : PyEnv) (s : Session) :
    printIf error env s = .done ()
      { s with interp := { s.interp with raised := !error && s.interp.raised } } := by
  cases error <;> rfl

@[simp] theorem context_got (s : Session) (o : PyObj) (obj : Bool) :
    (s.got o obj).context = s.context := by
  cases obj <;> rfl

@[simp] theorem world_got (s : Session) (o : PyObj) (obj : Bool) :
    (s.got o obj).interp.world = s.interp.world := by
  cases obj <;> rfl

@[simp] theorem balance_got (s : Session) (o : PyObj) (obj : Bool) :
    (s.got o obj).balance = s.balance + Pi.single o (if obj then 1 else 0) := by
  cases obj with
  | true => rfl
  | false => simp [Session.got]

/-- Between `PyGILState_Ensure` and `PyGILState_Release`. -/
def withGil {α : Type} (x : Capi α) : Capi α := do
  inInterp gilEnsure
  let a ← x
  inInterp gilRelease
  return a

/-! ### `CallPythonFunc` -/

/-- The session with a call of `CallPythonFunc` recorded. -/
def Session.noted (s : Session) : Session :=
  if s.started then { s with depths := s.interp.gil :: s.depths } else s

/-- `CallPythonFunc`, with what the call of the function comes to. Looking a name up in a null
dictionary is a load at address zero. -/
def callPythonFunc {α : Type} (func : PyFunc) (args : Bool) (call : Capi (Option α)) :
    Capi (Option α) := do
  modify Session.noted
  require (← get).context (.segv 0)
  let funcObj := (← ask).ok (.func func)
  -- without a function or arguments `goto error`, as for a call that raises
  let result ← if funcObj && args then call else pure none
  modify fun s ↦ s.count .result (if result.isSome then 1 else 0)
  printIf result.isNone
  -- the reference in `func_obj` is borrowed
  decref (.func func) (funcObj && result.isNone)
  return result

/-- The session at the end of `CallPythonFunc`, by whether there is a result. -/
def Session.called (s : Session) (func : PyFunc) (funcObj result : Bool) : Session :=
  { s with
    interp := { s.interp with raised := result && s.interp.raised }
    balance := s.balance + Pi.single .result (if result then 1 else 0) +
      Pi.single (.func func) (if funcObj && !result then -1 else 0) }

/-- `CallPythonFunc`, by the state of the dictionary and the outcome of the call. -/
theorem callPythonFunc_apply {α : Type} (func : PyFunc) (args : Bool) (call : Capi (Option α))
    (env : PyEnv) (s : Session) :
    callPythonFunc func args call env s =
      if s.context then
        ((if env.ok (.func func) && args then call else pure none) env s.noted).andThen
          fun result t ↦ .done result (t.called func (env.ok (.func func)) result.isSome)
      else .halt (.segv 0) s.noted := by
  have hcontext : s.noted.context = s.context := by
    rw [Session.noted]
    split <;> rfl
  simp only [callPythonFunc, bind_apply, modify_apply, get_apply, ask_apply, Outcome.andThen_done,
    hcontext]
  cases s.context with
  | false => rfl
  | true =>
    cases env.ok (.func func) && args with
    | false => rfl
    | true =>
      refine congrArg (call env s.noted).andThen ?_
      funext result t
      cases result <;> rfl

/-- `CallPythonFunc0`. -/
def callPythonFunc0 {α : Type} (func : PyFunc) (call : Capi (Option α)) : Capi (Option α) := do
  let args ← newRef .args true
  callPythonFunc func args call

/-- `CallPythonFunc1`. -/
def callPythonFunc1 {α : Type} (func : PyFunc) (arg : Bool) (call : Capi (Option α)) :
    Capi (Option α) := do
  let args ← newRef .args arg
  callPythonFunc func args call

/-! ### `LindPythonInit` and `LindPythonFinalize` -/

/-- `PyArg_ParseTuple(result, "OO", &code, &context)`. A result of another form leaves both as they
were. -/
def parseGlobals : Capi Unit := do
  if (← ask).ok .code then modify fun s ↦ { s with code := true, context := true }
  else inInterp raise

/-- `LindPythonInit` up to the label `error`; false for a `goto error`. -/
def startRepy : Capi Bool := do
  require (← ask).repyPath (.exit (-1))
  if !(← ask).ok .path then return false
  -- the list takes a reference of its own to the string
  let _ ← newRef .repyPath true
  let repylibName ← newRef .repylibName true
  let repylib ← newRef .repylib repylibName
  modify fun s ↦ { s with repylib := repylib }
  if !repylib then return false
  if !(← newRef .repyMainFunc true) then return false
  -- null arguments would be a call without arguments
  let _ ← newRef .repyMainArgs true
  if !(← newRef .mainResult true) then return false
  parseGlobals
  let s ← get
  if !(s.code && s.context) then return false
  newRef .evalResult true

/-- `LindPythonInit`. -/
def lindPythonInit : Capi ℤ := do
  let initialized := (← get).initialized
  require (initialized ≠ 2 ^ 31 - 1) .intOverflow
  modify fun s ↦ { s with initialized := initialized + 1 }
  -- a further call counts, and does nothing else
  if initialized ≠ 0 then return 1
  if ← startRepy then return 1
  modify fun s ↦ { s with initialized := 0 }
  inInterp errPrint
  return 0

/-- The calls of `LindPythonFinalize` up to the labels: what `repy_finalize_func` and `result` refer
to when they are reached, and whether `Py_Finalize` was. -/
def finalizeCalls : Capi (List PyObj × Bool) := do
  let result ← callPythonFunc0 .finalize (return if (← ask).ok .result then some () else none)
  if result.isNone then return ([], false)
  require (← get).repylib (.segv 0)
  if !(← newRef .repyFinalizeFunc true) then return ([.result], false)
  let _ ← newRef .repyFinalizeArgs true
  -- the new `result` takes the place of the first, which is not released
  if ← newRef .finalizeResult true then return ([.repyFinalizeFunc, .finalizeResult], true)
  else return ([.repyFinalizeFunc], false)

/-- `LindPythonFinalize` with an initialized interpreter, between `PyGILState_Ensure` and
`PyGILState_Release`. -/
def finalizeBody : Capi ℤ := do
  let (held, finalized) ← finalizeCalls
  modify fun s ↦ { s with initialized := if finalized then 0 else s.initialized }
  printIf !finalized
  -- the label `cleanup`
  held.forM (decref · true)
  let s ← get
  decref .code s.code
  decref .context s.context
  decref .repylib s.repylib
  return if finalized then 1 else 0

/-- `LindPythonFinalize`. -/
def lindPythonFinalize : Capi ℤ := do
  inInterp gilEnsure
  -- the one exit without `PyGILState_Release`
  if (← get).initialized = 0 then return 0
  let retval ← finalizeBody
  inInterp gilRelease
  return retval

/-! ### Requests and mappings -/

/-- `MakeLindSysCall`. -/
def makeLindSysCallObject (request : Fetch Request) : Capi (Option Response) := withGil do
  let r ← inInterp (inWorld (fetch request))
  let args ← newRef .args true
  -- `Py_BuildValue` fails on null arguments
  let callandarg ← newRef .callandarg args
  let response ← callPythonFunc .lindSyscall callandarg (inInterp (inWorld (makeLindSysCall r)))
  decref .callandarg callandarg
  decref .args args
  return response

/-- A wrapper `lind_*`, as far as it calls the interpreter: `ParseResponse` of `MakeLindSysCall`. -/
def lindWrapper (request : Fetch Request) (num : ℕ) (varg : List Dest) : Capi (ℤ × List Ptr) := do
  let response ← makeLindSysCallObject request
  inInterp (parseResponseObject response num varg)

/-- `PyInt_CheckExact` and `PyInt_AsLong`: booleans and long integers do not pass. -/
def PyVal.exactInt : PyVal → Option ℤ
  | .int i => (PyVal.int i).asLong
  | _ => Option.none

/-- `GetHostFdFromLindFd`. -/
def getHostFdFromLindFd (lindFd : ℤ) : Capi ℤ := withGil do
  if lindFd < 0 then return -1
  let pyLindFd ← newRef .pyLindFd true
  let pyHostFd ← callPythonFunc1 .getHostFdFromLindFd pyLindFd (return (← ask).hostFd lindFd)
  -- `goto error` for a null result and for one of another type
  let hostFd := pyHostFd.bind PyVal.exactInt
  printIf hostFd.isNone
  decref .pyLindFd pyLindFd
  decref .result pyHostFd.isSome
  return (hostFd.map wrapInt).getD (-1)

/-- `add_mapping`. -/
def addMappingObject (src dest : ℤ) : Capi Unit := do
  if src < 0 ∨ dest < 0 then return
  -- no `PyGILState_Ensure` here, nor in `get_mapping`
  let args ← newRef .args true
  let result ← callPythonFunc .mapNativeToLind args do
    inInterp (inWorld (addMapping src dest))
    return if (← ask).ok .result then some () else none
  decref .args args
  decref .result result.isSome

/-- The answer of `get_lind_map_to_native`. -/
def lindMapToNative (fd : ℤ) : Capi (Option PyVal) :=
  return (← ask).env.lookup (← get).interp.world.mappings fd

/-- `get_mapping`. Asking for the type of a null result is a load at address zero. -/
def getMappingObject (fd : ℤ) : Capi ℤ := do
  let args ← newRef .args true
  match ← callPythonFunc .getLindMapToNative args (lindMapToNative fd) with
  | none => stop (.segv 0)
  | some result =>
    decref .args args
    decref .result true
    return (result.asLong.map wrapInt).getD (-1)

/-! ### Seen from the world -/

theorem noted_eq (s : Session) : s.noted = { s with depths := s.noted.depths } := by
  rw [Session.noted]
  split <;> rfl

section World

variable {env : PyEnv} {s : Session}

/-- Where no call of the API fails, `MakeLindSysCall` sends its request and takes the answer. -/
theorem makeLindSysCallObject_interp {request : Fetch Request} (hok : ∀ o, env.ok o = true)
    (hcontext : s.context = true) :
    (makeLindSysCallObject request env s).bimap id Session.interp =
      match (fetch request >>= makeLindSysCall) env.env s.interp.world with
      | .done response w =>
        .done response { s.interp with
          world := w
          raised := response.isSome && s.interp.raised }
      | .halt e w => .halt e { s.interp with world := w, gil := s.interp.gil + 1 } := by
  simp only [makeLindSysCallObject, withGil, bind_apply, inInterp_apply, gilEnsure, modify_apply,
    inWorld_apply, Outcome.andThen_done]
  cases fetch request env.env s.interp.world with
  | halt e w => rfl
  | done r w =>
    simp only [Outcome.andThen_done, newRef_apply, hok, Bool.and_self, callPythonFunc_apply,
      context_got, hcontext, if_true]
    rw [noted_eq]
    rfl

/-- **Refinement.** A wrapper does to the world what its request and `parseResponse` say, while no
exception is pending. -/
theorem lindWrapper_world {request : Fetch Request} {num : ℕ} {varg : List Dest}
    (hok : ∀ o, env.ok o = true) (hcontext : s.context = true) (hraised : s.interp.raised = false) :
    (lindWrapper request num varg env s).bimap id (·.interp.world) =
      (do parseResponse (← makeLindSysCall (← fetch request)) num varg : M (ℤ × List Ptr))
        env.env s.interp.world := by
  have hworld : (do parseResponse (← makeLindSysCall (← fetch request)) num varg :
      M (ℤ × List Ptr)) env.env s.interp.world =
        ((fetch request >>= makeLindSysCall) env.env s.interp.world).andThen fun response w ↦
          parseResponse response num varg env.env w := by
    rw [← bind_bind_eq]
    rfl
  have hinterp : (lindWrapper request num varg env s).bimap id (·.interp.world) =
      (((makeLindSysCallObject request env s).bimap id Session.interp).andThen fun response t ↦
        parseResponseObject response num varg env.env t).bimap id Interp.world := by
    rw [lindWrapper, bind_apply]
    cases makeLindSysCallObject request env s with
    | halt e t => rfl
    | done response t =>
      simp only [Outcome.bimap, Outcome.andThen_done, inInterp_apply, id]
      cases parseResponseObject response num varg env.env t.interp <;> rfl
  rw [hinterp, makeLindSysCallObject_interp hok hcontext, hworld]
  cases (fetch request >>= makeLindSysCall) env.env s.interp.world with
  | halt e w => rfl
  | done response w =>
    -- an answer leaves no exception pending
    exact parseResponseObject_world (by rw [hraised, Bool.and_false])

/-- So does `add_mapping`. -/
theorem addMappingObject_world {src dest : ℤ} (hok : ∀ o, env.ok o = true)
    (hcontext : s.context = true) :
    (addMappingObject src dest env s).bimap id (·.interp.world) =
      addMapping src dest env.env s.interp.world := by
  by_cases hneg : src < 0 ∨ dest < 0
  · rw [addMappingObject, addMapping, if_pos hneg, if_pos hneg]
    rfl
  · rw [addMappingObject, addMapping, if_neg hneg, if_neg hneg]
    simp only [bind_apply, newRef_apply, Outcome.andThen_done, hok, Bool.and_self,
      callPythonFunc_apply, context_got, hcontext, if_true]
    rw [noted_eq]
    simp only [inInterp_apply, inWorld_apply, modify_apply, ask_apply, Outcome.andThen_done, hok,
      if_true]
    rfl

/-- And `get_mapping`. -/
theorem getMappingObject_world {fd : ℤ} (hok : ∀ o, env.ok o = true)
    (hcontext : s.context = true) :
    (getMappingObject fd env s).bimap id (·.interp.world) =
      getMapping fd env.env s.interp.world := by
  simp only [getMappingObject, bind_apply, newRef_apply, Outcome.andThen_done, hok, Bool.and_self,
    callPythonFunc_apply, context_got, hcontext, if_true]
  rw [noted_eq]
  simp only [lindMapToNative, getMapping, lookupFd, bind_apply, get_apply, ask_apply,
    Outcome.andThen_done, pure_apply, world_got]
  cases env.env.lookup s.interp.world.mappings fd with
  | none => rfl
  | some result =>
    simp only [Option.map_some, bind_apply, decref_apply, Outcome.andThen_done, pure_apply]
    cases result.asLong <;> rfl

end World

/-! ### Sequences of calls -/

/-- A call of one of these functions. `lind_pread` and `lind_pwrite` are four calls of wrappers. -/
inductive PlatformCall where
  | init
  | finalize
  | wrapper (request : Fetch Request) (num : ℕ) (varg : List Dest)
  | makeLindSysCall (request : Fetch Request)
  | getHostFd (lindFd : ℤ)
  | addMapping (src dest : ℤ)
  | getMapping (fd : ℤ)

/-- Run a call for its effect. -/
def PlatformCall.run : PlatformCall → Capi Unit
  | init => do
    let _ ← lindPythonInit
    modify fun s ↦ { s with started := true }
  | finalize => lindPythonFinalize >>= fun _ ↦ pure ()
  | wrapper request num varg => lindWrapper request num varg >>= fun _ ↦ pure ()
  | makeLindSysCall request => makeLindSysCallObject request >>= fun _ ↦ pure ()
  | getHostFd lindFd => getHostFdFromLindFd lindFd >>= fun _ ↦ pure ()
  | addMapping src dest => addMappingObject src dest
  | getMapping fd => getMappingObject fd >>= fun _ ↦ pure ()

/-- One call of a sequence, with the surroundings it finds. -/
def platformStep (c : PyEnv × PlatformCall) (s : Session) : Outcome Halt Session Unit :=
  c.2.run c.1 s

end ReferenceMonitor
