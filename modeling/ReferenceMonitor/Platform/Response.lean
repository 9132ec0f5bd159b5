import ReferenceMonitor.Machine.TraceeAccess

/-!
# Requests to Lind and their responses: `MakeLindSysCall`, `ParseResponse`, `CopyData`

What `lind_platform.c` does with a response object is split in two. `judge` follows the early exits
of `ParseResponse` up to the point where the return code is known; what remains is the copying of
the payload to the destinations, `copyData` for one destination and `copyMultiDataVa` for several.

A destination is a pointer with the `maxlen` that goes with it. Copying to a block of the monitor is
checked against the size of the block; copying through an address of the tracee is recorded.
-/

namespace ReferenceMonitor

open Halting

/-! ### The judgement on a response -/

/-- `PyInt_AsLong`; nothing where it raises. -/
def PyVal.asLong : PyVal → Option ℤ
  | .int i => if -2 ^ 63 ≤ i ∧ i < 2 ^ 63 then some i else Option.none
  | .bool b => some (if b then 1 else 0)
  | _ => Option.none

theorem PyVal.asLong_int {i : ℤ} (h : -2 ^ 63 ≤ i) (h' : i < 2 ^ 63) :
    (PyVal.int i).asLong = some i := if_pos ⟨h, h'⟩

/-- What `ParseResponse` has made of a response before it copies anything. -/
inductive Verdict where
  /-- An attribute is missing or has the wrong type: `goto error`, with `retval` still `0`. -/
  | failed
  | error (code : ℤ)
  | success (code : ℤ) (data : List Byte)
  deriving DecidableEq

/-- What `ParseResponse` returns on a verdict. -/
def Verdict.status : Verdict → ℤ
  | failed => 0
  | error _ => -1
  | success code _ => wrapInt code

/-- The attributes of a response, in the order `ParseResponse` looks them up. A missing `data` only
raises; the source notices it after `PyInt_AsLong`. -/
def judge (r : Response) : Verdict :=
  match r.isError, r.returnCode with
  | some isError, some attrCode =>
    match if isError = .bool true then r.message else r.data, attrCode.asLong with
    | some (.str dataOrMessage), some code =>
      if isError = .bool true then .error code else .success code dataOrMessage
    | _, _ => .failed
  | _, _ => .failed

/-- An answer that reports the error `code`. -/
def errorResponse (code : ℤ) : Response :=
  ⟨some (.bool true), some (.int code), none, some (.str [])⟩

/-- An answer that reports success. -/
def successResponse (code : ℤ) (data : List Byte) : Response :=
  ⟨some (.bool false), some (.int code), some (.str data), none⟩

theorem judge_errorResponse {code : ℤ} (h : -2 ^ 63 ≤ code) (h' : code < 2 ^ 63) :
    judge (errorResponse code) = .error code := by
  simp [judge, errorResponse, PyVal.asLong_int h h']

theorem judge_successResponse {code : ℤ} (h : -2 ^ 63 ≤ code) (h' : code < 2 ^ 63)
    (data : List Byte) : judge (successResponse code data) = .success code data := by
  simp [judge, successResponse, PyVal.asLong_int h h']

theorem asLong_bounds {p : PyVal} {i : ℤ} (h : p.asLong = some i) : -2 ^ 63 ≤ i ∧ i < 2 ^ 63 := by
  cases p with
  | int j =>
    rw [PyVal.asLong] at h
    split_ifs at h with hj
    cases h
    exact hj
  | bool b =>
    cases h
    split <;> decide
  | none | str | other => cases h

theorem judge_success_bounds {resp : Response} {code : ℤ} {data : List Byte}
    (h : judge resp = .success code data) : -2 ^ 63 ≤ code ∧ code < 2 ^ 63 := by
  unfold judge at h
  split at h
  · split at h
    · rename_i hcode
      split_ifs at h
      cases h
      exact asLong_bounds hcode
    · cases h
  · cases h

/-! ### Copying a payload -/

/-- A destination of `ParseResponse`: a pointer, and how much it takes. -/
structure Dest where
  ptr : Ptr
  maxlen : ℤ

/-- The byte at an offset from the start of a payload string, which ends in a zero byte. -/
def payloadAt (env : Env) (d : List Byte) (o : ℤ) : Byte :=
  if 0 ≤ o ∧ o < d.length then d.getD o.toNat 0 else if o = d.length then 0 else env.tail o

/-- The length `CopyData` hands to `memcpy`. -/
def copyLen (maxlen srclen : ℤ) : ℤ := if maxlen < srclen then maxlen else srclen

/-- `CopyData`. A negative length is a huge one for `memcpy`. -/
def copyData (dst : Ptr) (src : ℤ → Byte) (maxlen srclen : ℤ) : Fetch Ptr :=
  let len := copyLen maxlen srclen
  if len = 0 then pure dst
  else
    match dst with
    | .block b =>
      if 0 < len ∧ len ≤ b.cells.length then
        pure (.block (b.store ((List.range len.toNat).map fun i : ℕ ↦ .stored (src i))))
      else stop .corrupt
    | .foreign a => do
      noteForeign a
      stop .corrupt
    | .stray _ => stop .corrupt

/-- `((uint32_t*) src)[i]`, as the `int` it is assigned to. -/
def lengthAt (src : ℤ → Byte) (i : ℕ) : ℤ := cInt (wordOf fun j ↦ src (4 * i + j))

/-- The loop of `CopyMultiDataVa`, with the number of rounds left. -/
def copyMultiLoop (src : ℤ → Byte) :
    (rounds i : ℕ) → (offset : ℤ) → (varg : List Dest) → Fetch (List Ptr)
  | 0, _, _, varg => pure (varg.map Dest.ptr)
  | _ + 1, _, _, [] => stop .varargs
  | rounds + 1, i, offset, d :: varg => do
    let srclen := lengthAt src i
    let dst ← copyData d.ptr (fun o ↦ src (offset + o)) d.maxlen srclen
    if 2 ^ 31 ≤ offset + srclen ∨ offset + srclen < -2 ^ 31 then stop .intOverflow
    else return dst :: (← copyMultiLoop src rounds (i + 1) (offset + srclen) varg)

/-- `CopyMultiDataVa`. -/
def copyMultiDataVa (src : ℤ → Byte) (num : ℤ) (varg : List Dest) : Fetch (List Ptr) :=
  copyMultiLoop src num.toNat 0 (wrapInt (4 * num)) varg

/-- `CopyMultiData`. -/
def copyMultiData (src : ℤ → Byte) (num : ℤ) (varargs : List Dest) : Fetch (List Ptr) :=
  copyMultiDataVa src num varargs

/-- The copying part of `ParseResponse`. With several destinations the source passes the length of
the payload where their number belongs. -/
def copyPayload (num : ℕ) (data : List Byte) (varg : List Dest) : Fetch (List Ptr) := do
  let ⟨env, _⟩ ← ask
  let len := wrapInt data.length
  if num = 1 then
    match varg with
    | [] => stop .varargs
    | d :: rest => return (← copyData d.ptr (payloadAt env data) d.maxlen len) :: rest.map Dest.ptr
  else if 1 < num then copyMultiDataVa (payloadAt env data) len varg
  else return varg.map Dest.ptr

/-- The copy of a payload to a block stays inside the block. -/
def Fits (size : ℕ) (maxlen : ℤ) (data : List Byte) : Prop :=
  0 ≤ copyLen maxlen (wrapInt data.length) ∧ copyLen maxlen (wrapInt data.length) ≤ size

instance (size : ℕ) (maxlen : ℤ) (data : List Byte) : Decidable (Fits size maxlen data) :=
  inferInstanceAs (Decidable (_ ∧ _))

/-- What a payload writes to its destination. -/
def payloadCells (env : Env) (maxlen : ℤ) (data : List Byte) : List Cell :=
  (List.range (copyLen maxlen (wrapInt data.length)).toNat).map fun i : ℕ ↦
    .stored (payloadAt env data i)

@[simp] theorem length_payloadCells (env : Env) (maxlen : ℤ) (data : List Byte) :
    (payloadCells env maxlen data).length = (copyLen maxlen (wrapInt data.length)).toNat := by
  simp [payloadCells]

theorem copyData_of_fits {b : Block} {maxlen : ℤ} {data : List Byte} {env : Env}
    (h : Fits b.cells.length maxlen data) :
    copyData (.block b) (payloadAt env data) maxlen (wrapInt data.length) =
      pure (.block (b.store (payloadCells env maxlen data))) := by
  obtain ⟨h0, hlen⟩ := h
  rw [copyData, payloadCells]
  by_cases hz : copyLen maxlen (wrapInt data.length) = 0
  · rw [if_pos hz, hz]
    rfl
  · rw [if_neg hz]
    exact if_pos ⟨by omega, hlen⟩

theorem copyData_of_not_fits {b : Block} {maxlen : ℤ} {data : List Byte} {env : Env}
    (h : ¬ Fits b.cells.length maxlen data) :
    copyData (.block b) (payloadAt env data) maxlen (wrapInt data.length) = stop .corrupt := by
  rw [Fits] at h
  rw [copyData, if_neg (by omega)]
  exact if_neg (by omega)

/-- One destination, a block: either the copy fits, or it is a store outside the block. -/
theorem fetch_copyPayload_block (data : List Byte) (b : Block) (maxlen : ℤ) (env : Env)
    (w : World) :
    fetch (copyPayload 1 data [⟨.block b, maxlen⟩]) env w =
      if Fits b.cells.length maxlen data then
        .done [.block (b.store (payloadCells env maxlen data))] w
      else .halt .corrupt w := by
  simp only [fetch, focus, copyPayload, bind_apply, ask_apply, Outcome.andThen_done, if_true]
  by_cases h : Fits b.cells.length maxlen data
  · rw [if_pos h, copyData_of_fits h]
    rfl
  · rw [if_neg h, copyData_of_not_fits h]
    rfl

/-! ### `MakeLindSysCall` and `ParseResponse` -/

/-- The world after a request was sent. -/
def World.send (r : Request) (w : World) : World := { w with requests := r :: w.requests }

/-- `MakeLindSysCall`: send a request, and take Lind's answer to it. -/
def makeLindSysCall (r : Request) : M (Option Response) := do
  modify (World.send r)
  return (← ask).lind (← get).requests

/-- `errno = v`. -/
def setErrno (v : ℤ) : M Unit := modify fun w ↦ { w with errno := v }

/-- `ParseResponse`: the return value, and the destinations with what was copied to them. Looking
up an attribute of a null response is a load at address zero. -/
def parseResponse (response : Option Response) (num : ℕ) (varg : List Dest) :
    M (ℤ × List Ptr) :=
  match response with
  | none => stop (.segv 0)
  | some r =>
    match judge r with
    | .failed => return (0, varg.map Dest.ptr)
    | .error code => do
      setErrno (wrapInt code)
      return (-1, varg.map Dest.ptr)
    | .success code data => do
      setErrno 0
      let dsts ← fetch (copyPayload num data varg)
      return (wrapInt code, dsts)

/-- The verdict on Lind's answer to a request; nothing when the call raised. -/
def verdictOn (env : Env) (w : World) (r : Request) : Option Verdict :=
  (env.lind (r :: w.requests)).map judge

/-- What a wrapper without destination returns on its request. -/
def lindCall (r : Request) : M ℤ := do
  let response ← makeLindSysCall r
  return (← parseResponse response 0 []).1

/-- The block a pointer points at, given the block it pointed at before. -/
def Ptr.blockFrom (b : Block) : Ptr → Block
  | block b' => b'
  | _ => b

/-- What a wrapper with one destination, a block of the monitor, returns on its request, and the
block with what was copied to it. -/
def lindCallInto (r : Request) (buf : Block) (maxlen : ℤ) : M (ℤ × Block) := do
  let response ← makeLindSysCall r
  let (ret, dsts) ← parseResponse response 1 [⟨.block buf, maxlen⟩]
  return (ret, (dsts.headD (.block buf)).blockFrom buf)

/-- The world after a request was answered. -/
def World.answered (r : Request) (v : Verdict) (w : World) : World :=
  match v with
  | .failed => w.send r
  | .error code => { w.send r with errno := wrapInt code }
  | .success _ _ => { w.send r with errno := 0 }

@[simp] theorem requests_answered (r : Request) (v : Verdict) (w : World) :
    (w.answered r v).requests = r :: w.requests := by cases v <;> rfl

@[simp] theorem mappings_answered (r : Request) (v : Verdict) (w : World) :
    (w.answered r v).mappings = w.mappings := by cases v <;> rfl

/-- What an answer leaves in the buffer meant for its payload; `none` where it does not fit. -/
def received (env : Env) (b : Block) (maxlen : ℤ) : Verdict → Option Block
  | .success _ data =>
    if Fits b.cells.length maxlen data then some (b.store (payloadCells env maxlen data)) else none
  | _ => some b

/-- `lindCall`, by the verdict on the answer. -/
theorem lindCall_apply (r : Request) (env : Env) (w : World) :
    lindCall r env w =
      match verdictOn env w r with
      | none => .halt (.segv 0) (w.send r)
      | some v => .done v.status (w.answered r v) := by
  simp only [lindCall, makeLindSysCall, bind_apply, modify_apply, ask_apply, get_apply, pure_apply,
    Outcome.andThen_done, World.send, parseResponse, verdictOn]
  cases env.lind (r :: w.requests) with
  | none => rfl
  | some resp =>
    simp only [Option.map_some]
    cases judge resp <;> rfl

/-- `lindCallInto`, by the verdict on the answer. -/
theorem lindCallInto_apply (r : Request) (b : Block) (maxlen : ℤ) (env : Env) (w : World) :
    lindCallInto r b maxlen env w =
      match verdictOn env w r with
      | none => .halt (.segv 0) (w.send r)
      | some v =>
        match received env b maxlen v with
        | none => .halt .corrupt (w.answered r v)
        | some b' => .done (v.status, b') (w.answered r v) := by
  simp only [lindCallInto, makeLindSysCall, bind_apply, modify_apply, ask_apply, get_apply,
    pure_apply, Outcome.andThen_done, World.send, parseResponse, verdictOn]
  cases env.lind (r :: w.requests) with
  | none => rfl
  | some resp =>
    simp only [Option.map_some]
    cases judge resp with
    | failed => rfl
    | error code => rfl
    | success code data =>
      simp only [bind_apply, setErrno, modify_apply, Outcome.andThen_done,
        fetch_copyPayload_block, received]
      split <;> rfl

/-! ### What a buffer holds after an answer -/

/-- A payload fits a buffer that takes all of it, or as much as it is asked to. -/
theorem fits_of_room {size : ℕ} {maxlen : ℤ} {data : List Byte} (hdata : data.length < 2 ^ 31)
    (h : 0 ≤ maxlen) (hroom : maxlen ≤ size ∨ data.length ≤ size) : Fits size maxlen data := by
  rw [Fits, wrapInt_eq_self (by omega) (by omega), copyLen]
  split <;> omega

theorem received_of_fits {env : Env} {b : Block} {maxlen : ℤ} {data : List Byte}
    (h : Fits b.cells.length maxlen data) (code : ℤ) :
    received env b maxlen (.success code data) = some (b.store (payloadCells env maxlen data)) :=
  if_pos h

/-- Receiving a payload leaves a buffer as long as it was. -/
theorem length_received {env : Env} {b b' : Block} {maxlen : ℤ} {v : Verdict}
    (h : received env b maxlen v = some b') : b'.cells.length = b.cells.length := by
  cases v with
  | failed | error => cases h; rfl
  | success code data =>
    rw [received] at h
    split_ifs at h with hfits
    cases h
    refine length_store ?_
    rw [length_payloadCells]
    have := hfits.2
    omega

theorem byteAt_store (env : Env) (b : Block) (cells : List Cell) (k : ℕ) :
    (b.store cells).byteAt env k =
      match cells[k]? with
      | some c => c.read env
      | none => b.byteAt env k := by
  rw [Block.byteAt, if_pos (Int.natCast_nonneg k), Int.toNat_natCast, getElem?_store]
  split_ifs with h
  · rw [List.getElem?_eq_getElem h]
  · rw [List.getElem?_eq_none (not_lt.1 h), Block.byteAt, if_pos (Int.natCast_nonneg k),
      Int.toNat_natCast]
    rfl

/-- What was received, in front of what the buffer held. -/
theorem byteAt_received_copied {env : Env} {b b' : Block} {maxlen code : ℤ} {data : List Byte}
    (h : received env b maxlen (.success code data) = some b') (k : ℕ) :
    b'.byteAt env k =
      if k < copyLen maxlen (wrapInt data.length) then payloadAt env data k
      else b.byteAt env k := by
  rw [received] at h
  split_ifs at h
  cases h
  rw [byteAt_store, payloadCells, List.getElem?_map]
  split_ifs with hin
  · rw [List.getElem?_range (by omega)]
    rfl
  · rw [List.getElem?_eq_none (by rw [List.length_range]; omega)]
    rfl

/-- The payload, as far as it is copied, in front of what the buffer held. -/
theorem byteAt_received {env : Env} {b b' : Block} {maxlen code : ℤ} {data : List Byte}
    (hdata : data.length < 2 ^ 31) (h : received env b maxlen (.success code data) = some b')
    (k : ℕ) : b'.byteAt env k =
      if k < data.length ∧ (k : ℤ) < maxlen then data.getD k 0 else b.byteAt env k := by
  have hcopy : (k : ℤ) < copyLen maxlen (wrapInt data.length) ↔
      k < data.length ∧ (k : ℤ) < maxlen := by
    rw [wrapInt_eq_self (by omega) (by omega), copyLen]
    split <;> omega
  rw [byteAt_received_copied h, if_congr hcopy rfl rfl]
  split_ifs with hin
  · rw [payloadAt, if_pos (by omega), Int.toNat_natCast]
  · rfl

/-! ### What is sent -/

/-- What follows sends nothing. -/
theorem requests_andThen {α β : Type} {o : Outcome Halt World α}
    {f : α → World → Outcome Halt World β} (hf : ∀ a w, (f a w).state.requests = w.requests) :
    (o.andThen f).state.requests = o.state.requests := by
  cases o with
  | done a w => exact hf a w
  | halt e w => rfl

theorem requests_lindCall {env : Env} {w : World} (request : Request) :
    (lindCall request env w).state.requests = request :: w.requests := by
  rw [lindCall_apply]
  cases verdictOn env w request with
  | none => rfl
  | some v => exact requests_answered request v w

theorem requests_lindCallInto {env : Env} {w : World} (request : Request) (b : Block)
    (maxlen : ℤ) :
    (lindCallInto request b maxlen env w).state.requests = request :: w.requests := by
  rw [lindCallInto_apply]
  cases verdictOn env w request with
  | none => rfl
  | some v =>
    dsimp only
    cases received env b maxlen v <;> exact requests_answered request v w

/-! ### The descriptor table -/

/-- `add_mapping`. -/
def addMapping (src dest : ℤ) : M Unit :=
  if src < 0 ∨ dest < 0 then pure ()
  else modify fun w ↦ { w with mappings := (src, dest) :: w.mappings }

/-- What `get_mapping` makes of the answer; nothing where the result is null. `PyInt_Check` accepts
what `PyInt_AsLong` takes without raising. -/
def lookupFd (env : Env) (table : List (ℤ × ℤ)) (fd : ℤ) : Option ℤ :=
  (env.lookup table fd).map fun result ↦
    match result.asLong with
    | some v => wrapInt v
    | none => -1

/-- `get_mapping`. Asking for the type of a null result is a load at address zero. -/
def getMapping (fd : ℤ) : M ℤ := do
  match lookupFd (← ask) (← get).mappings fd with
  | none => stop (.segv 0)
  | some v => return v

end ReferenceMonitor
