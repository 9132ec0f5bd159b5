import ReferenceMonitor.Machine.SetMem
import ReferenceMonitor.Platform.Response

/-!
# What `ParseResponse` makes of a response

A response object has four attributes, and any of them may be missing or of another type. It is
complete in two ways: as a success with a code and data, and as an error with a code and a message.
`judge` tells these apart from all others (`judge_eq_success_iff`, `judge_eq_error_iff`).

`ParseResponse` preloads its result with `0`, not with `-1` as `GetHostFdFromLindFd` does, so that
an incomplete response is returned as a success.
-/

namespace ReferenceMonitor

open Halting

/-! ### Complete responses -/

/-- The response is complete and reports success with this code. Only `True` itself makes it an
error. -/
structure Response.Succeeds (r : Response) (code : ℤ) : Prop where
  isError : ∃ flag, r.isError = some flag ∧ flag ≠ .bool true
  returnCode : ∃ attrCode, r.returnCode = some attrCode ∧ attrCode.asLong = some code
  data : ∃ bytes, r.data = some (.str bytes)

/-- The response is complete and reports an error. -/
structure Response.ReportsError (r : Response) : Prop where
  isError : r.isError = some (.bool true)
  returnCode : ∃ attrCode code, r.returnCode = some attrCode ∧ attrCode.asLong = some code
  message : ∃ bytes, r.message = some (.str bytes)

theorem Response.Succeeds.code_unique {r : Response} {code code' : ℤ} (h : r.Succeeds code)
    (h' : r.Succeeds code') : code = code' := by
  obtain ⟨attrCode, hattr, hcode⟩ := h.returnCode
  obtain ⟨attrCode', hattr', hcode'⟩ := h'.returnCode
  rw [hattr, Option.some.injEq] at hattr'
  rwa [← hattr', hcode, Option.some.injEq] at hcode'

theorem Response.Succeeds.not_reportsError {r : Response} {code : ℤ} (h : r.Succeeds code) :
    ¬ r.ReportsError := by
  intro herror
  obtain ⟨flag, hflag, hne⟩ := h.isError
  rw [herror.isError, Option.some.injEq] at hflag
  exact hne hflag.symm

/-! ### `judge` -/

theorem judge_eq_success_iff {r : Response} {code : ℤ} :
    (∃ bytes, judge r = .success code bytes) ↔ r.Succeeds code := by
  constructor
  · rintro ⟨bytes, h⟩
    unfold judge at h
    split at h
    · rename_i flag attrCode hflag hattr
      by_cases htrue : flag = .bool true
      · simp only [htrue, if_true] at h
        split at h <;> cases h
      · simp only [htrue, if_false] at h
        split at h
        · rename_i bytes' code' hdata hcode
          cases h
          exact ⟨⟨flag, hflag, htrue⟩, ⟨attrCode, hattr, hcode⟩, bytes, hdata⟩
        · cases h
    · cases h
  · rintro ⟨⟨flag, hflag, htrue⟩, ⟨attrCode, hattr, hcode⟩, bytes, hdata⟩
    refine ⟨bytes, ?_⟩
    simp [judge, hflag, hattr, htrue, hdata, hcode]

theorem judge_eq_error_iff {r : Response} : (∃ code, judge r = .error code) ↔ r.ReportsError := by
  constructor
  · rintro ⟨code, h⟩
    unfold judge at h
    split at h
    · rename_i flag attrCode hflag hattr
      by_cases htrue : flag = .bool true
      · simp only [htrue, if_true] at h
        split at h
        · rename_i bytes code' hmessage hcode
          exact ⟨htrue ▸ hflag, ⟨attrCode, code', hattr, hcode⟩, bytes, hmessage⟩
        · cases h
      · simp only [htrue, if_false] at h
        split at h <;> cases h
    · cases h
  · rintro ⟨hflag, ⟨attrCode, code, hattr, hcode⟩, bytes, hmessage⟩
    refine ⟨code, ?_⟩
    simp [judge, hflag, hattr, hmessage, hcode]

/-! ### The number returned -/

/-- The response is present, complete and a success with this code. -/
def SucceedsWith (response : Option Response) (code : ℤ) : Prop :=
  ∃ r, response = some r ∧ r.Succeeds code

/-- `ParseResponse` returns a number that is not negative only as the code of a success, and returns
a negative one where there is no success. -/
def FailsClosed (response : Option Response) : Prop :=
  ∀ (num : ℕ) (varg : List Dest) (env : Env) (w : World),
    (∀ code dsts w', parseResponse response num varg env w = .done (code, dsts) w' → 0 ≤ code →
        SucceedsWith response code) ∧
      ((¬ ∃ code, SucceedsWith response code) →
        ∃ code dsts w', parseResponse response num varg env w = .done (code, dsts) w' ∧ code < 0)

/-- The code passes through an `int`, or becomes negative there. -/
def PassesInt (code : ℤ) : Prop := 0 ≤ code ∧ code < 2 ^ 31 ∨ 2 ^ 31 ≤ code % 2 ^ 32

/-- The response is complete, and a success has a code that passes through an `int`. -/
def Response.Answers (r : Response) : Prop :=
  r.ReportsError ∨ ∃ code, r.Succeeds code ∧ PassesInt code

theorem passesInt_iff {code : ℤ} : PassesInt code ↔ (0 ≤ wrapInt code → wrapInt code = code) := by
  rw [PassesInt, wrapInt, BitVec.toInt_ofInt, Int.bmod_def]
  split <;> omega

/-- What `ParseResponse` returns, when it returns, is the status of the verdict. -/
theorem status_of_parseResponse {r : Response} {num : ℕ} {varg : List Dest} {env : Env}
    {w w' : World} {code : ℤ} {dsts : List Ptr}
    (h : parseResponse (some r) num varg env w = .done (code, dsts) w') :
    code = (judge r).status := by
  rw [parseResponse] at h
  cases hv : judge r with
  | failed =>
    rw [hv] at h
    cases h
    rfl
  | error e =>
    rw [hv] at h
    cases h
    rfl
  | success c data =>
    simp only [hv, bind_apply] at h
    obtain ⟨-, _, -, hfetch⟩ := Outcome.andThen_eq_done_iff.1 h
    obtain ⟨_, _, -, hret⟩ := Outcome.andThen_eq_done_iff.1 hfetch
    cases hret
    rfl

/-- A number that is not negative, where it passes through an `int`, is the code of a success. -/
theorem succeedsWith_of_nonneg {r : Response} (h : r.Answers) (hcode : 0 ≤ (judge r).status) :
    SucceedsWith (some r) (judge r).status := by
  rcases h with herror | ⟨code, hsuccess, hpass⟩
  · obtain ⟨e, he⟩ := judge_eq_error_iff.2 herror
    rw [he] at hcode
    exact absurd hcode (show ¬ (0 : ℤ) ≤ -1 by decide)
  · obtain ⟨bytes, hj⟩ := judge_eq_success_iff.2 hsuccess
    rw [hj] at hcode ⊢
    rw [Verdict.status, passesInt_iff.1 hpass hcode]
    exact ⟨r, rfl, hsuccess⟩

/-- **Failing closed.** `ParseResponse` does so exactly on the complete responses whose code passes
through an `int`. -/
theorem failsClosed_iff (response : Option Response) :
    FailsClosed response ↔ ∃ r, response = some r ∧ r.Answers := by
  constructor
  · -- one call without destinations tells the responses apart, in any world
    intro h
    obtain ⟨hnonneg, hneg⟩ := h 0 [] Env.blank zeroWorld
    cases response with
    | none =>
      obtain ⟨code, dsts, w', hret, -⟩ := hneg fun ⟨_, _, hr, _⟩ ↦ by cases hr
      cases hret
    | some r =>
      refine ⟨r, rfl, ?_⟩
      cases hv : judge r with
      | error e => exact .inl (judge_eq_error_iff.1 ⟨e, hv⟩)
      | failed =>
        have hret : parseResponse (some r) 0 [] Env.blank zeroWorld = .done (0, []) zeroWorld := by
          rw [parseResponse, hv]
          rfl
        obtain ⟨_, hr, hsuccess⟩ := hnonneg _ _ _ hret (le_refl 0)
        cases hr
        obtain ⟨bytes, hj⟩ := judge_eq_success_iff.2 hsuccess
        rw [hv] at hj
        cases hj
      | success code data =>
        have hret : parseResponse (some r) 0 [] Env.blank zeroWorld =
            .done (wrapInt code, []) { zeroWorld with errno := 0 } := by
          rw [parseResponse, hv]
          rfl
        have hsuccess := judge_eq_success_iff.1 ⟨data, hv⟩
        refine .inr ⟨code, hsuccess, passesInt_iff.2 fun hle ↦ ?_⟩
        obtain ⟨_, hr, hsuccess'⟩ := hnonneg _ _ _ hret hle
        cases hr
        exact hsuccess'.code_unique hsuccess
  · rintro ⟨r, rfl, hanswers⟩ num varg env w
    refine ⟨fun code dsts w' hret hcode ↦ ?_, fun hnone ↦ ?_⟩
    · obtain rfl := status_of_parseResponse hret
      exact succeedsWith_of_nonneg hanswers hcode
    · rcases hanswers with herror | ⟨code, hsuccess, -⟩
      · obtain ⟨e, he⟩ := judge_eq_error_iff.2 herror
        refine ⟨-1, varg.map Dest.ptr, { w with errno := wrapInt e }, ?_, by decide⟩
        rw [parseResponse, he]
        rfl
      · exact absurd ⟨code, r, rfl, hsuccess⟩ hnone

/-- A wrapper reports success only for a call that Lind completed, where Lind's answer is complete
and its code passes through an `int`. -/
theorem succeedsWith_of_lindCall {r : Request} {env : Env} {w w' : World} {code : ℤ}
    (h : lindCall r env w = .done code w') (hcode : 0 ≤ code)
    (hanswers : ∀ response, env.lind (r :: w.requests) = some response → response.Answers) :
    SucceedsWith (env.lind (r :: w.requests)) code := by
  rw [lindCall_apply, verdictOn] at h
  cases hresponse : env.lind (r :: w.requests) with
  | none =>
    rw [hresponse] at h
    cases h
  | some response =>
    rw [hresponse] at h
    cases h
    exact succeedsWith_of_nonneg (hanswers response hresponse) hcode

/-- A response without a return code is returned as a success. -/
theorem not_failsClosed : ¬ ∀ response : Option Response, FailsClosed response := by
  intro h
  obtain ⟨hnonneg, -⟩ :=
    h (some ⟨some (.bool false), none, some (.str []), none⟩) 0 [] Env.blank zeroWorld
  obtain ⟨_, hr, hsuccess⟩ := hnonneg 0 [] zeroWorld rfl (le_refl 0)
  cases hr
  obtain ⟨_, hattr, -⟩ := hsuccess.returnCode
  cases hattr

end ReferenceMonitor
