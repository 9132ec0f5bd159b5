import Mathlib.Algebra.Group.Pi.Lemmas
import Mathlib.Tactic.Abel
import ReferenceMonitor.Platform.Sessions
import ReferenceMonitor.Platform.Wrappers

/-!
# The references a call takes and gives back

`CallPythonFunc` releases the function it looked up when there is no result, though it only borrowed
it, and the callers that build an argument tuple through `CallPythonFunc1` never release the tuple.
Each function is inverted once: what its return says about the state before, and by how much the
references to every object have changed. A request or a mapping call is then balanced exactly under
a condition of its own (`balanced_run_iff`), and a sequence of them where every call is
(`references_balanced_iff`).
-/

namespace ReferenceMonitor

open Halting

/-! ### Counting -/

@[simp] theorem balance_release (s : Session) (o : PyObj) (obj : Bool) :
    (s.release o obj).balance = s.balance - Pi.single o (if obj then 1 else 0) := by
  cases obj with
  | true => simp [Session.release, Session.count, sub_eq_add_neg, Pi.single_neg]
  | false => simp [Session.release, Session.count]

@[simp] theorem balance_noted (s : Session) : s.noted.balance = s.balance := by
  rw [Session.noted]
  split <;> rfl

@[simp] theorem world_noted (s : Session) : s.noted.interp.world = s.interp.world := by
  rw [Session.noted]
  split <;> rfl

/-- No reference was taken or released. -/
def SameBalance (s s' : Session) : Prop := s'.balance = s.balance

instance : Std.Refl SameBalance := ⟨fun _ ↦ rfl⟩

instance : IsTrans Session SameBalance := ⟨fun _ _ _ h h' ↦ h'.trans h⟩

theorem sameBalance_inInterp {α : Type} (x : Py α) : Keeps SameBalance (inInterp x) := by
  intro env s
  rw [inInterp_apply]
  cases x env.env s.interp <;> rfl

/-- What `CallPythonFunc` changes: one reference more to a result, and one less to the function
where it was found and there is no result. -/
def callBalance (func : PyFunc) (funcObj result : Bool) : PyObj → ℤ :=
  Pi.single .result (if result then 1 else 0) +
    Pi.single (.func func) (if funcObj && !result then -1 else 0)

/-- The function objects, which the dictionary holds, and the tuples of arguments. -/
inductive PyObj.Counted : PyObj → Prop
  | func (f : PyFunc) : Counted (.func f)
  | args : Counted .args
  | callandarg : Counted .callandarg

theorem single_result_of_counted {o : PyObj} (ho : o.Counted) (n : ℤ) :
    (Pi.single .result n : PyObj → ℤ) o = 0 := by
  cases ho <;> rfl

/-- What `CallPythonFunc` changes of these. -/
theorem callBalance_eq_zero_iff {func : PyFunc} {funcObj result : Bool} :
    (∀ o : PyObj, o.Counted → callBalance func funcObj result o = 0) ↔
      (funcObj = true → result = true) := by
  constructor
  · intro h hfunc
    have hzero := h _ (.func func)
    cases result with
    | true => rfl
    | false => simp [callBalance, hfunc] at hzero
  · rintro h o ho
    have hnot : (funcObj && !result) = false := by
      cases funcObj with
      | false => rfl
      | true => rw [h rfl]; rfl
    cases ho <;> simp [callBalance, hnot]

theorem counted_of_balance {d : PyObj → ℤ} {s t : Session} {n : ℤ}
    (h : t.balance = s.balance + d - Pi.single .result n) :
    ∀ o : PyObj, o.Counted → t.balance o = s.balance o + d o := by
  intro o ho
  rw [h, Pi.sub_apply, single_result_of_counted ho, sub_zero, Pi.add_apply]

/-- After a call of `CallPythonFunc`, and with the tuple released, these are as before unless a
function was found and gave no result. -/
theorem counted_kept_iff {s t : Session} {func : PyFunc} {funcObj result : Bool}
    (h : ∀ o : PyObj, o.Counted → t.balance o = s.balance o + callBalance func funcObj result o) :
    (∀ o : PyObj, o.Counted → t.balance o = s.balance o) ↔ (funcObj = true → result = true) := by
  rw [← callBalance_eq_zero_iff]
  refine forall₂_congr fun o ho ↦ ?_
  rw [h o ho, add_eq_left]

/-- `CallPythonFunc`, from its return. -/
theorem callPythonFunc_eq_done {α : Type} {func : PyFunc} {args : Bool} {call : Capi (Option α)}
    {env : PyEnv} {s t : Session} {result : Option α}
    (h : callPythonFunc func args call env s = .done result t) :
    s.context = true ∧ ∃ u,
      (if env.ok (.func func) && args then call else pure none) env s.noted = .done result u ∧
        t = u.called func (env.ok (.func func)) result.isSome := by
  rw [callPythonFunc_apply] at h
  split at h
  · rename_i hcontext
    obtain ⟨r, u, hcall, hret⟩ := Outcome.andThen_eq_done_iff.1 h
    cases hret
    exact ⟨hcontext, u, hcall, rfl⟩
  · cases h

theorem returns_callPythonFunc {α : Type} {func : PyFunc} {args : Bool} {call : Capi (Option α)}
    {env : PyEnv} {s : Session} (hcontext : s.context = true)
    (hcall : ∀ u, (call env u).Returns) : (callPythonFunc func args call env s).Returns := by
  rw [callPythonFunc_apply, if_pos hcontext, ite_run]
  refine Outcome.Returns.andThen ?_ fun _ _ ↦ trivial
  split
  · exact hcall _
  · exact trivial

theorem balance_callPythonFunc {α : Type} {func : PyFunc} {args : Bool} {call : Capi (Option α)}
    {env : PyEnv} {s t : Session} {result : Option α} (hcall : Keeps SameBalance call)
    (h : callPythonFunc func args call env s = .done result t) :
    t.balance = s.balance + callBalance func (env.ok (.func func)) result.isSome := by
  obtain ⟨-, u, hu, rfl⟩ := callPythonFunc_eq_done h
  have hsame : u.balance = s.noted.balance := by
    have hkeeps := Keeps.ite (c := (env.ok (.func func) && args) = true) hcall (keeps_pure none)
      env s.noted
    rwa [hu] at hkeeps
  rw [Session.called, hsame, balance_noted, callBalance, add_assoc]

/-! ### From the return of a function -/

theorem withGil_eq_done {α : Type} {x : Capi α} {env : PyEnv} {s t : Session} {a : α}
    (h : withGil x env s = .done a t) :
    ∃ u, x env { s with interp := { s.interp with gil := s.interp.gil + 1 } } = .done a u ∧
      t.balance = u.balance := by
  obtain ⟨b, u, hbody, hret⟩ := Outcome.andThen_eq_done_iff.1 h
  cases hret
  exact ⟨u, hbody, rfl⟩

/-- Code that reads: the request, and the session but for the accesses it recorded. -/
theorem inInterp_fetch_eq_done {α : Type} {q : Fetch α} {env : PyEnv} {s t : Session} {a : α}
    (h : inInterp (inWorld (fetch q)) env s = .done a t) :
    ∃ log, q (env.env, s.interp.world.tracee.mem) [] = .done a log ∧
      t = { s with interp := { s.interp with world := { s.interp.world with
        trace := log.map Event.foreign ++ s.interp.world.trace } } } := by
  rw [inInterp_apply, inWorld_apply, fetch, focus] at h
  cases hq : q (env.env, s.interp.world.tracee.mem) [] with
  | done b log =>
    rw [hq] at h
    cases h
    exact ⟨log, rfl, rfl⟩
  | halt e log =>
    rw [hq] at h
    cases h

section Return

variable {env : PyEnv} {s t : Session}

/-- `MakeLindSysCall`: where it returns, the request was gathered and there is a dictionary. What it
returns depends on what was built and on the answer. -/
theorem makeLindSysCallObject_eq_done {request : Fetch Request} {v : Option Response}
    (h : makeLindSysCallObject request env s = .done v t) :
    s.context = true ∧
      (∀ o : PyObj, o.Counted → t.balance o =
        s.balance o + callBalance .lindSyscall (env.ok (.func .lindSyscall)) v.isSome o) ∧
      ∃ r log, request (env.env, s.interp.world.tracee.mem) [] = .done r log ∧
        v = if env.ok (.func .lindSyscall) && (env.ok .args && env.ok .callandarg) then
          env.env.lind (r :: s.interp.world.requests) else none := by
  obtain ⟨u, hbody, hbalance⟩ := withGil_eq_done h
  obtain ⟨r, s₁, hrequest, h⟩ := Outcome.andThen_eq_done_iff.1 hbody
  obtain ⟨log, hlog, rfl⟩ := inInterp_fetch_eq_done hrequest
  simp only [bind_apply, newRef_apply, Outcome.andThen_done, Bool.true_and] at h
  obtain ⟨v', s₂, hcall, hret⟩ := Outcome.andThen_eq_done_iff.1 h
  cases hret
  -- the two argument objects are released again, so that what `CallPythonFunc` changed remains
  have hchange := balance_callPythonFunc (sameBalance_inInterp _) hcall
  obtain ⟨hcontext, u, hanswer, -⟩ := callPythonFunc_eq_done hcall
  refine ⟨by simpa using hcontext, counted_of_balance (n := 0) ?_, r, log, hlog, ?_⟩
  · simp only [hbalance, balance_release, hchange, balance_got, Pi.single_zero]
    abel
  · split at hanswer
    · rename_i hcalled
      cases hanswer
      simp only [hcalled, if_true, World.send, world_noted, world_got]
    · rename_i hcalled
      cases hanswer
      rw [if_neg hcalled]

/-- `add_mapping`, with descriptors that are not negative. -/
theorem addMappingObject_eq_done {src dest : ℤ} {v : Unit} (hneg : ¬ (src < 0 ∨ dest < 0))
    (h : addMappingObject src dest env s = .done v t) :
    s.context = true ∧ ∃ result : Bool,
      result = (env.ok (.func .mapNativeToLind) && env.ok .args && env.ok .result) ∧
      ∀ o : PyObj, o.Counted → t.balance o =
        s.balance o + callBalance .mapNativeToLind (env.ok (.func .mapNativeToLind)) result o := by
  rw [addMappingObject, if_neg hneg] at h
  simp only [bind_apply, newRef_apply, Outcome.andThen_done, Bool.true_and] at h
  obtain ⟨result, s₁, hcall, hret⟩ := Outcome.andThen_eq_done_iff.1 h
  cases hret
  have hchange := balance_callPythonFunc ((sameBalance_inInterp _).bind fun _ ↦
    keeps_ask.bind fun _ ↦ keeps_pure _) hcall
  obtain ⟨hcontext, u, hanswer, -⟩ := callPythonFunc_eq_done hcall
  refine ⟨by simpa using hcontext, result.isSome, ?_,
    counted_of_balance (n := if result.isSome then 1 else 0) ?_⟩
  · split at hanswer
    · rename_i hcalled
      simp only [bind_apply, inInterp_apply, inWorld_apply, addMapping, if_neg hneg, modify_apply,
        ask_apply, Outcome.andThen_done, pure_apply] at hanswer
      cases hanswer
      rw [hcalled]
      cases env.ok .result <;> rfl
    · rename_i hcalled
      cases hanswer
      rw [Bool.eq_false_iff.2 hcalled]
      rfl
  · simp only [balance_release, hchange, balance_got]
    abel

/-- `get_mapping`: where it returns, there was a result. -/
theorem getMappingObject_eq_done {fd v : ℤ} (h : getMappingObject fd env s = .done v t) :
    ∀ o : PyObj, o.Counted → t.balance o = s.balance o +
      callBalance .getLindMapToNative (env.ok (.func .getLindMapToNative)) true o := by
  simp only [getMappingObject, bind_apply, newRef_apply, Outcome.andThen_done, Bool.true_and] at h
  obtain ⟨result, s₁, hcall, hret⟩ := Outcome.andThen_eq_done_iff.1 h
  have hchange := balance_callPythonFunc (keeps_ask.bind fun _ ↦ keeps_get.bind fun _ ↦
    keeps_pure _) hcall
  -- the type of a null result is looked for at address zero
  rcases result with - | result
  · cases hret
  · simp only [bind_apply, decref_apply, Outcome.andThen_done, pure_apply] at hret
    cases hret
    refine counted_of_balance (n := 1) ?_
    simp only [balance_release, hchange, balance_got, Option.isSome_some, if_true]
    abel

/-- `GetHostFdFromLindFd`, with a descriptor that is not negative. The tuple stays behind. -/
theorem getHostFdFromLindFd_eq_done {lindFd v : ℤ} (hneg : ¬ lindFd < 0)
    (h : getHostFdFromLindFd lindFd env s = .done v t) :
    s.context = true ∧ ∃ result : Bool,
      ((env.ok .pyLindFd && env.ok .args) = false → result = false) ∧
      ∀ o : PyObj, o.Counted → t.balance o = s.balance o +
        ((Pi.single .args (if env.ok .pyLindFd && env.ok .args then 1 else 0) : PyObj → ℤ) +
          callBalance .getHostFdFromLindFd (env.ok (.func .getHostFdFromLindFd)) result) o := by
  obtain ⟨u, hbody, hbalance⟩ := withGil_eq_done h
  rw [if_neg hneg] at hbody
  simp only [bind_apply, newRef_apply, callPythonFunc1, Outcome.andThen_done,
    Bool.true_and] at hbody
  obtain ⟨result, s₁, hcall, hret⟩ := Outcome.andThen_eq_done_iff.1 hbody
  have hchange := balance_callPythonFunc (keeps_ask.bind fun _ ↦ keeps_pure _) hcall
  obtain ⟨hcontext, u', hanswer, -⟩ := callPythonFunc_eq_done hcall
  refine ⟨by simpa using hcontext, result.isSome, ?_,
    counted_of_balance (n := if result.isSome then 1 else 0) ?_⟩
  · split at hanswer
    · rename_i hcalled
      intro hargs
      rw [hargs, Bool.and_false] at hcalled
      cases hcalled
    · cases hanswer
      exact fun _ ↦ rfl
  · simp only [printIf_apply, decref_apply, Outcome.andThen_done, pure_apply] at hret
    cases hret
    simp only [hbalance, balance_release, hchange, balance_got]
    abel

/-- `MakeLindSysCall` returns where there is a dictionary and the request can be gathered. -/
theorem returns_makeLindSysCallObject {request : Fetch Request} {r : Request} {log : List Word}
    (hcontext : s.context = true)
    (hrequest : request (env.env, s.interp.world.tracee.mem) [] = .done r log) :
    (makeLindSysCallObject request env s).Returns := by
  simp only [makeLindSysCallObject, withGil, bind_apply, inInterp_apply, gilEnsure, modify_apply,
    inWorld_apply, fetch_done hrequest, Outcome.andThen_done, newRef_apply, decref_apply,
    gilRelease, pure_apply]
  refine Outcome.Returns.andThen (Outcome.Returns.andThen ?_ fun _ _ ↦ trivial) fun _ _ ↦ trivial
  exact returns_callPythonFunc (by simpa using hcontext) fun _ ↦ trivial

theorem returns_addMappingObject {src dest : ℤ} (hneg : ¬ (src < 0 ∨ dest < 0))
    (hcontext : s.context = true) : (addMappingObject src dest env s).Returns := by
  rw [addMappingObject, if_neg hneg]
  simp only [bind_apply, newRef_apply, decref_apply, Outcome.andThen_done]
  refine Outcome.Returns.andThen ?_ fun _ _ ↦ trivial
  refine returns_callPythonFunc (by simpa using hcontext) fun u ↦ ?_
  simp only [bind_apply, inInterp_apply, inWorld_apply, addMapping, if_neg hneg, modify_apply,
    ask_apply, Outcome.andThen_done, pure_apply, Outcome.returns_done]

theorem returns_getHostFdFromLindFd {lindFd : ℤ} (hneg : ¬ lindFd < 0)
    (hcontext : s.context = true) : (getHostFdFromLindFd lindFd env s).Returns := by
  rw [getHostFdFromLindFd, if_neg hneg]
  simp only [withGil, callPythonFunc1, bind_apply, inInterp_apply, gilEnsure, modify_apply,
    newRef_apply, printIf_apply, decref_apply, Outcome.andThen_done, gilRelease, pure_apply]
  refine Outcome.Returns.andThen (Outcome.Returns.andThen ?_ fun _ _ ↦ trivial) fun _ _ ↦ trivial
  exact returns_callPythonFunc (by simpa using hcontext) fun _ ↦ trivial

end Return

/-! ### Balanced calls -/

/-- A request or a mapping call. -/
def PlatformCall.Asks : PlatformCall → Prop
  | init | finalize => False
  | _ => True

/-- Where a request or a mapping call returns, there are as many references to every function object
as before, and the tuples it built are released. -/
def Balanced (c : PlatformCall) (env : PyEnv) (s : Session) : Prop :=
  c.Asks → ∀ t, c.run env s = .done () t → ∀ o : PyObj, o.Counted → t.balance o = s.balance o

section Balanced

variable {env : PyEnv} {s t : Session}

/-- The value does not count. -/
theorem forget_eq_done_iff {α : Type} {x : Capi α} :
    (x >>= fun _ ↦ pure ()) env s = .done () t ↔ ∃ v, x env s = .done v t := by
  rw [bind_apply]
  cases x env s <;> simp

/-- When a call is balanced: a request and `add_mapping` find no function or get a result from it;
`GetHostFdFromLindFd` finds no function and builds no tuple. Without a dictionary none of them
returns. -/
def PlatformCall.BalanceKept (env : PyEnv) (s : Session) : PlatformCall → Prop
  | makeLindSysCall request => s.context = true → env.ok (.func .lindSyscall) = true →
      ∀ r log, request (env.env, s.interp.world.tracee.mem) [] = .done r log →
        env.ok .args = true ∧ env.ok .callandarg = true ∧
          (env.env.lind (r :: s.interp.world.requests)).isSome
  | getHostFd lindFd => s.context = true → 0 ≤ lindFd →
      (env.ok .pyLindFd && env.ok .args) = false ∧ env.ok (.func .getHostFdFromLindFd) = false
  | addMapping src dest => s.context = true → 0 ≤ src → 0 ≤ dest →
      env.ok (.func .mapNativeToLind) = true → env.ok .args = true ∧ env.ok .result = true
  | _ => True

theorem balanced_makeLindSysCall_iff {request : Fetch Request} :
    Balanced (.makeLindSysCall request) env s ↔
      PlatformCall.BalanceKept env s (.makeLindSysCall request) := by
  constructor
  · intro h hcontext hfunc r log hrequest
    obtain ⟨v, t, hrun⟩ := Outcome.returns_iff.1 (returns_makeLindSysCallObject hcontext hrequest)
    obtain ⟨-, hbalance, r', log', hrequest', hv⟩ := makeLindSysCallObject_eq_done hrun
    have hsame := h trivial t (forget_eq_done_iff.2 ⟨v, hrun⟩)
    have hsome := (counted_kept_iff hbalance).1 hsame hfunc
    rw [hrequest, Outcome.done.injEq] at hrequest'
    rw [hv, ← hrequest'.1, hfunc, Bool.true_and] at hsome
    split at hsome
    · rename_i hbuilt
      exact ⟨(Bool.and_eq_true_iff.1 hbuilt).1, (Bool.and_eq_true_iff.1 hbuilt).2, hsome⟩
    · cases hsome
  · intro h _ t hrun
    obtain ⟨v, hrun⟩ := forget_eq_done_iff.1 hrun
    obtain ⟨hcontext, hbalance, r, log, hrequest, hv⟩ := makeLindSysCallObject_eq_done hrun
    refine (counted_kept_iff hbalance).2 fun hfunc ↦ ?_
    obtain ⟨hargs, hcallandarg, hanswer⟩ := h hcontext hfunc r log hrequest
    rw [hv, hfunc, hargs, hcallandarg]
    exact hanswer

/-- A wrapper that returns has parsed a response. -/
theorem balanced_wrapper (request : Fetch Request) (num : ℕ) (varg : List Dest) :
    Balanced (.wrapper request num varg) env s := by
  intro _ t hrun
  obtain ⟨v, hrun⟩ := forget_eq_done_iff.1 hrun
  obtain ⟨response, u, hmake, hparse⟩ := Outcome.andThen_eq_done_iff.1 hrun
  obtain ⟨-, hbalance, -⟩ := makeLindSysCallObject_eq_done hmake
  have hsame : t.balance = u.balance := by
    have hkeeps := sameBalance_inInterp (parseResponseObject response num varg) env u
    dsimp only at hparse
    rwa [hparse] at hkeeps
  -- parsing a null response is a load at address zero
  rcases response with - | response
  · cases hparse
  · rw [hsame]
    exact (counted_kept_iff hbalance).2 fun _ ↦ rfl

theorem balanced_addMapping_iff {src dest : ℤ} :
    Balanced (.addMapping src dest) env s ↔
      PlatformCall.BalanceKept env s (.addMapping src dest) := by
  by_cases hneg : src < 0 ∨ dest < 0
  · have hpure : addMappingObject src dest = pure () := if_pos hneg
    refine iff_of_true (fun _ t hrun o _ ↦ ?_) fun _ hsrc hdest ↦ by omega
    rw [PlatformCall.run, hpure] at hrun
    cases hrun
    rfl
  · constructor
    · intro h hcontext _ _ hfunc
      obtain ⟨v, t, hrun⟩ := Outcome.returns_iff.1 (returns_addMappingObject hneg hcontext)
      obtain ⟨-, result, hresult, hbalance⟩ := addMappingObject_eq_done hneg hrun
      have htrue := (counted_kept_iff hbalance).1 (h trivial t hrun) hfunc
      rw [htrue, hfunc, Bool.true_and] at hresult
      exact Bool.and_eq_true_iff.1 hresult.symm
    · intro h _ t hrun
      obtain ⟨hcontext, result, hresult, hbalance⟩ := addMappingObject_eq_done hneg hrun
      refine (counted_kept_iff hbalance).2 fun hfunc ↦ ?_
      obtain ⟨hargs, hok⟩ := h hcontext (by omega) (by omega) hfunc
      rw [hresult, hfunc, hargs, hok]
      rfl

/-- `get_mapping` that returns has a result. -/
theorem balanced_getMapping (fd : ℤ) : Balanced (.getMapping fd) env s := by
  intro _ t hrun
  obtain ⟨v, hrun⟩ := forget_eq_done_iff.1 hrun
  exact (counted_kept_iff (getMappingObject_eq_done hrun)).2 fun _ ↦ rfl

/-- The tuple of `GetHostFdFromLindFd` is never released, and without it there is no result. -/
theorem balanced_getHostFd_iff {lindFd : ℤ} :
    Balanced (.getHostFd lindFd) env s ↔ PlatformCall.BalanceKept env s (.getHostFd lindFd) := by
  by_cases hneg : lindFd < 0
  · refine iff_of_true (fun _ t hrun o _ ↦ ?_) fun _ hnonneg ↦ absurd hneg (not_lt.2 hnonneg)
    obtain ⟨v, hrun⟩ := forget_eq_done_iff.1 hrun
    obtain ⟨u, hbody, hbalance⟩ := withGil_eq_done hrun
    rw [if_pos hneg] at hbody
    cases hbody
    rw [hbalance]
  · constructor
    · intro h hcontext _
      obtain ⟨v, t, hrun⟩ := Outcome.returns_iff.1 (returns_getHostFdFromLindFd hneg hcontext)
      obtain ⟨-, result, hresult, hbalance⟩ := getHostFdFromLindFd_eq_done hneg hrun
      have hsame := h trivial t (forget_eq_done_iff.2 ⟨v, hrun⟩)
      -- first the tuple: were it built, it would be left; then nothing is called
      have hargs : (env.ok .pyLindFd && env.ok .args) = false := by
        have htuple := hsame .args .args
        rw [hbalance _ .args] at htuple
        simpa [callBalance] using htuple
      have hnone := hresult hargs
      refine ⟨hargs, ?_⟩
      have hfunc := hsame (.func .getHostFdFromLindFd) (.func _)
      rw [hbalance _ (.func _), hnone] at hfunc
      simpa [callBalance] using hfunc
    · intro h _ t hrun o ho
      obtain ⟨v, hrun⟩ := forget_eq_done_iff.1 hrun
      obtain ⟨hcontext, result, hresult, hbalance⟩ := getHostFdFromLindFd_eq_done hneg hrun
      obtain ⟨hargs, hfunc⟩ := h hcontext (not_lt.1 hneg)
      have hzero : callBalance .getHostFdFromLindFd false result o = 0 :=
        callBalance_eq_zero_iff.2 (fun hfalse ↦ by cases hfalse) o ho
      rw [hbalance o ho, hargs, hfunc, Pi.add_apply, hzero]
      simp

/-- **One call.** A request or a mapping call is balanced exactly under this condition. -/
theorem balanced_run_iff (c : PlatformCall) : Balanced c env s ↔ c.BalanceKept env s := by
  cases c with
  | init | finalize => exact iff_of_true (fun h ↦ h.elim) trivial
  | wrapper request num varg => exact iff_of_true (balanced_wrapper request num varg) trivial
  | makeLindSysCall request => exact balanced_makeLindSysCall_iff
  | getHostFd lindFd => exact balanced_getHostFd_iff
  | addMapping src dest => exact balanced_addMapping_iff
  | getMapping fd => exact iff_of_true (balanced_getMapping fd) trivial

end Balanced

/-- **Reference balance.** A sequence of calls is balanced exactly where every call meets its
condition. -/
theorem references_balanced_iff (calls : List (PyEnv × PlatformCall)) (s : Session) :
    AllSteps platformStep (fun c s ↦ Balanced c.2 c.1 s) calls s ↔
      AllSteps platformStep (fun c s ↦ c.2.BalanceKept c.1 s) calls s :=
  allSteps_congr fun c _ ↦ balanced_run_iff c.2

/-- The tuple of one successful `GetHostFdFromLindFd` is left behind. -/
theorem not_references_balanced : ¬ ∀ calls : List (PyEnv × PlatformCall),
    AllSteps platformStep (fun c s ↦ Balanced c.2 c.1 s) calls (Session.initial zeroWorld) := by
  intro h
  obtain ⟨-, hrest⟩ := h [(.smooth, .init), (.smooth, .getHostFd 3)]
  obtain ⟨hgetHostFd, -⟩ := hrest () _ rfl
  have hkept := (balanced_run_iff (.getHostFd 3)).1 hgetHostFd rfl (by decide)
  exact absurd hkept.1 (by decide)

/-! ### The dispatcher along a run -/

/-- A request whose call finds the dispatcher and raises. -/
def Raising (c : PyEnv × PlatformCall) : Prop :=
  c.1.ok (.func .lindSyscall) = true ∧ (∀ requests, c.1.env.lind requests = none) ∧
    ∃ request, c.2 = .makeLindSysCall request

/-- Every such request takes one reference from the dispatcher. -/
theorem balance_lindSyscall_of_raising {calls : List (PyEnv × PlatformCall)} {s t : Session}
    (hrun : Run (fun s c t ↦ platformStep c s = .done () t) s calls t)
    (hraising : ∀ c ∈ calls, Raising c) :
    t.balance (.func .lindSyscall) = s.balance (.func .lindSyscall) - calls.length := by
  induction hrun with
  | nil => simp
  | @snoc calls u t c hrun hstep ih =>
    obtain ⟨hfunc, hlind, request, hc⟩ := hraising c (by simp)
    rw [platformStep, hc] at hstep
    obtain ⟨v, hmake⟩ := forget_eq_done_iff.1 hstep
    obtain ⟨-, hbalance, r, log, -, hv⟩ := makeLindSysCallObject_eq_done hmake
    have hnone : v = none := by
      rw [hv, hlind, ite_self]
    have hlost : callBalance .lindSyscall true false (.func .lindSyscall) = -1 := by decide
    rw [hbalance _ (.func _), hfunc, hnone, Option.isSome_none, hlost,
      ih fun c hc ↦ hraising c (by simp [hc]), List.length_append, List.length_singleton]
    omega

end ReferenceMonitor
