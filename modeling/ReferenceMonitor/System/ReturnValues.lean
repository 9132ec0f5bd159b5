import ReferenceMonitor.Monitor.Destinations
import ReferenceMonitor.System.Leaving

/-!
# The value the tracee finds in `rax`

A failure with code `e` should reach the tracee as `-e`, and a success with code `r` as `r`. What
does reach it is settled by the reply of the emulation: every failure but one kind arrives as `-1`,
the code of a success is narrowed to an `int`, and a payload that does not fit ends the monitor.
-/

namespace ReferenceMonitor

open Halting

/-! ### What is due -/

/-- The monitor resumes the tracee, with `v` in `rax`. -/
def Resumes (o : Outcome Halt World Bool) (v : Word) : Prop :=
  goesOn o = true ∧ o.state.tracee.regs.rax = v

/-- The offset in the answer to `lseek`. -/
def newOffset (data : List Byte) : Word := wordOf fun i ↦ data.getD i 0

/-- The value due in `rax`: minus the code of an error, the code of a success, the new offset of
`lseek` where the payload, whose length is an `int`, holds one. -/
def LindCall.due (c : LindCall) : Verdict → Option Word
  | .failed => none
  | .error code => if 1 ≤ code ∧ code ≤ 4095 then some (ofInt (-code)) else none
  | .success code data =>
    if code < 0 then none
    else if c = .lseek then if 8 ≤ wrapInt data.length then some (newOffset data) else none
    else some (ofInt code)

/-- The tracee resumes with the value due: after an answer the one it calls for, and after a call
without a handler some error. -/
def RaxRight (rep : Report) (answers : ℕ → Option Response) (o : Outcome Halt World Bool) : Prop :=
  match LindCall.ofNr (cInt rep.tracee.regs.orig_rax) with
  | none => ∃ v : ℤ, -4095 ≤ v ∧ v ≤ -1 ∧ Resumes o (ofInt v)
  | some c =>
    ∀ resp w, answers c.own = some resp → c.due (judge resp) = some w → Resumes o w

/-! ### What the code does -/

/-- The answer to an `lseek` lets its wrapper return. -/
def Sought (env : Env) (answer : Option Response) : Prop :=
  ∃ resp, answer = some resp ∧ (received env (malloc 4 8) 8 (judge resp)).isSome

/-- The verdicts on which the tracee gets the value due. -/
def LindCall.Delivers (env : Env) (m : ByteMemory) (r : SyscallArgs) (c : LindCall) :
    Verdict → Prop
  | .failed => True
  | .error code => if c = .open then r.retval = ofInt (-code) else code = 1
  | .success code data =>
    c.Takes env m r data ∧
      if c = .lseek then 0 ≤ wrapInt code ∨ newOffset data = ofInt (wrapInt code)
      else code < 2 ^ 31 ∨ (c = .open ∧ wrapInt code < 0 ∧ r.retval = ofInt code)

/-! ### Replies, by the verdict -/

section Reply

variable {env : Env} {m : ByteMemory} {r : SyscallArgs} {c : LindCall}

variable (env m r c) in
/-- On an error every emulation returns `-1`, but for that of `open`, which returns nothing. -/
theorem reply_error (code : ℤ) : ∃ res, c.reply env m r (.error code) = some res ∧
    (res.map Prod.fst).getD r.retval = if c = .open then r.retval else -1 := by
  cases c <;> exact ⟨_, rfl, rfl⟩

/-- `rax` on a success. -/
def LindCall.successRax (c : LindCall) (native : Word) (code : ℤ) (data : List Byte) : Word :=
  if c = .lseek then if wrapInt code < 0 then ofInt (wrapInt code) else newOffset data
  else if 0 ≤ wrapInt code ∨ ¬ c.Creates then ofInt (wrapInt code)
  else if c = .open then native else -1

/-- The offset `lind_lseek` finds in its local variable. -/
theorem wordAt_received {code : ℤ} {data : List Byte} {b : Block}
    (hlen : 8 ≤ wrapInt data.length)
    (h : received env (malloc 4 8) 8 (.success code data) = some b) :
    b.wordAt env 0 = newOffset data := by
  have hcopy : copyLen 8 (wrapInt data.length) = 8 := by
    rw [copyLen]
    split <;> omega
  have hdata : 8 ≤ data.length := by
    by_contra hlt
    rw [wrapInt_eq_self (by omega) (by omega)] at hlen
    omega
  refine wordOf_congr fun i hi ↦ ?_
  rw [zero_add, byteAt_received_copied h, hcopy, if_pos (by omega), payloadAt, if_pos (by omega),
    Int.toNat_natCast]

theorem reply_success {code : ℤ} {data : List Byte} {res : Result}
    (hlen : c = .lseek → 8 ≤ wrapInt data.length)
    (h : c.reply env m r (.success code data) = some res) :
    (res.map Prod.fst).getD r.retval = c.successRax r.retval code data := by
  have henter (otherwise : Result) (old : Word) :
      ((enterResult otherwise (.success code data)).map Prod.fst).getD old =
        if 0 ≤ wrapInt code then ofInt (wrapInt code) else (otherwise.map Prod.fst).getD old := by
    rw [enterResult]
    split <;> simp_all [Verdict.status]
  cases c with
  | lseek =>
    obtain ⟨b, hb, rfl⟩ := Option.map_eq_some_iff.1 h
    rw [LindCall.successRax, if_pos rfl, ← wordAt_received (hlen rfl) hb]
    rfl
  | read | getdents | fstat | stat | statfs | fstatfs | poll | epoll_wait | getsockname
  | getsockopt | select | pread64 | recvfrom =>
    obtain ⟨b, hb, rfl⟩ := Option.map_eq_some_iff.1 h
    exact (if_pos (.inr Bool.false_ne_true)).symm
  | socketpair =>
    obtain ⟨b, hb, rfl⟩ := Option.map_eq_some_iff.1 h
    refine (henter _ _).trans ?_
    simp [LindCall.successRax, LindCall.Creates]
  | openat | access | dup | dup2 | dup3 | epoll_create1 | epoll_create | socket | accept =>
    cases h
    refine (henter _ _).trans ?_
    simp [LindCall.successRax, LindCall.Creates]
  | «open» =>
    cases h
    refine (henter _ _).trans ?_
    simp [LindCall.successRax, LindCall.Creates]
  | _ =>
    cases h
    exact (if_pos (.inr Bool.false_ne_true)).symm

/-- A success is replied to exactly where its payload is taken. -/
theorem exists_reply_success_iff {code : ℤ} {data : List Byte} {w : Word}
    (hlen : c = .lseek → 8 ≤ wrapInt data.length) :
    (∃ res, c.reply env m r (.success code data) = some res ∧
        (res.map Prod.fst).getD r.retval = w) ↔
      c.Takes env m r data ∧ c.successRax r.retval code data = w := by
  rw [← isSome_reply_success_iff code, Option.isSome_iff_exists]
  constructor
  · rintro ⟨res, hres, rfl⟩
    exact ⟨⟨res, hres⟩, (reply_success hlen hres).symm⟩
  · rintro ⟨⟨res, hres⟩, rfl⟩
    exact ⟨res, hres, reply_success hlen hres⟩

end Reply

/-! ### The calls that set a position first -/

/-- How `pread64` and `pwritev` end: before the third request, which is their own, or with the reply
to it, where the last `lseek` lets them return. -/
inductive Positioned (env : Env) (answers : ℕ → Option Response) (n : ℕ)
    (reply : Verdict → Option Result) : Outcome Halt World Result → Prop
  | early {e : Halt} {u : World} : u.requests.length < n + 3 →
      Positioned env answers n reply (.halt e u)
  | raised {e : Halt} {u : World} : answers 3 = none → Positioned env answers n reply (.halt e u)
  | spoiled {e : Halt} {u : World} {resp : Response} : answers 3 = some resp →
      reply (judge resp) = none → Positioned env answers n reply (.halt e u)
  | lost {e : Halt} {u : World} : ¬ Sought env (answers 4) →
      Positioned env answers n reply (.halt e u)
  | replied {u : World} {resp : Response} {res : Result} : answers 3 = some resp →
      reply (judge resp) = some res → Sought env (answers 4) →
      Positioned env answers n reply (.done res u)

section Positioned

variable {env : Env} {answers : ℕ → Option Response} {n : ℕ}

theorem length_answered (request : Request) (v : Verdict) (w : World) :
    (w.answered request v).requests.length = w.requests.length + 1 := by
  rw [requests_answered, List.length_cons]

/-- `lind_lseek` returns exactly where the answer lets it. -/
theorem lindLseek_answering (hl : ∀ l, env.lind l = answers (l.length - n)) (fd : ℤ)
    (offset : Word) (whence : ℤ) {w : World} {k : ℕ} (hk : w.requests.length = n + k) :
    (∃ x u, lindLseek fd offset whence env w = .done x u ∧ u.requests.length = n + (k + 1) ∧
      Sought env (answers (k + 1))) ∨
    ∃ e u, lindLseek fd offset whence env w = .halt e u ∧ u.requests.length = n + (k + 1) ∧
      ¬ Sought env (answers (k + 1)) := by
  have hans (r : Request) : env.lind (r :: w.requests) = answers (k + 1) := by
    rw [hl, List.length_cons, hk]
    congr 1
    omega
  rw [lindLseek, bind_apply, lindCallInto_apply, verdictOn, hans]
  cases ha : answers (k + 1) with
  | none =>
    refine .inr ⟨_, _, rfl, ?_, ?_⟩
    · rw [World.send, List.length_cons, hk]
      omega
    · rintro ⟨resp, hr, -⟩
      cases hr
  | some resp =>
    have hlen (r : Request) : (w.answered r (judge resp)).requests.length = n + (k + 1) := by
      rw [length_answered, hk]
      omega
    dsimp only [Option.map_some]
    cases hb : received env (malloc 4 8) 8 (judge resp) with
    | none =>
      refine .inr ⟨_, _, rfl, hlen _, ?_⟩
      rintro ⟨resp', hr, hs⟩
      cases hr
      rw [hb] at hs
      cases hs
    | some b =>
      have hs : Sought env (some resp) := ⟨resp, rfl, by rw [hb]; rfl⟩
      dsimp only
      rw [Outcome.andThen_done, ite_run]
      split
      · exact .inl ⟨_, _, rfl, hlen _, hs⟩
      · exact .inl ⟨_, _, rfl, hlen _, hs⟩

/-- The last `lseek`, after the own request was answered. -/
theorem Positioned.last (hl : ∀ l, env.lind l = answers (l.length - n))
    {reply : Verdict → Option Result} {resp : Response} {res : Result} {fd : ℤ} {offset : Word}
    {w : World} (hw : w.requests.length = n + 3) (ha : answers 3 = some resp)
    (hres : reply (judge resp) = some res) :
    Positioned env answers n reply
      ((lindLseek fd offset 0 env w).andThen fun _ u ↦ .done res u) := by
  rcases lindLseek_answering hl fd offset 0 hw with ⟨x, u, hd, -, hs⟩ | ⟨e, u, hd, -, hs⟩
  · rw [hd]
    exact .replied ha hres hs
  · rw [hd]
    exact .lost hs

/-- The first two `lseek`s. -/
theorem Positioned.first (hl : ∀ l, env.lind l = answers (l.length - n))
    {reply : Verdict → Option Result} {fd : ℤ} {offset : Word} {f : Word → M Result} {w : World}
    (hw : w.requests.length = n)
    (h : ∀ curPos u, u.requests.length = n + 2 → u.tracee = w.tracee →
      Positioned env answers n reply (f curPos env u)) :
    Positioned env answers n reply
      ((do
        let curPos ← lindLseek fd 0 1
        let _ ← lindLseek fd offset 0
        f curPos) env w) := by
  have hframe (fd : ℤ) (offset : Word) (whence : ℤ) (w : World) :
      (lindLseek fd offset whence env w).state.tracee = w.tracee :=
    ((permits_frame (p := False)).lindLseek fd offset whence env w).tracee
  rw [bind_apply]
  rcases lindLseek_answering hl fd 0 1 (k := 0) hw with ⟨x, u, hd, hu, -⟩ | ⟨e, u, hd, hu, -⟩
  · have ht : u.tracee = w.tracee := by
      have := hframe fd 0 1 w
      rwa [hd] at this
    rw [hd, Outcome.andThen_done, bind_apply]
    rcases lindLseek_answering hl fd offset 0 hu with ⟨y, v, hd', hv, -⟩ | ⟨e, v, hd', hv, -⟩
    · have ht' : v.tracee = u.tracee := by
        have := hframe fd offset 0 u
        rwa [hd'] at this
      rw [hd', Outcome.andThen_done]
      exact h x v hv (ht'.trans ht)
    · rw [hd']
      exact .early (by omega)
  · rw [hd]
    exact .early (by omega)

/-- `get_mem`, inside the monitor. -/
theorem fetch_getMem_cases (number : ℕ) (addr count : Word) (env : Env) (w : World) :
    fetch (getMem number addr count) env w =
        .done (memBlock number w.tracee.mem addr (count.toNat / 8 + 1)) w ∨
      ∃ e, fetch (getMem number addr count) env w = .halt e w := by
  by_cases h : count.toNat / 8 + 1 < 2 ^ 31
  · exact .inl (fetch_getMem h env w)
  · exact .inr ⟨.intOverflow, fetch_halt (getMem_of_le (not_lt.1 h) env _ _)⟩

theorem positioned_pread64 (hl : ∀ l, env.lind l = answers (l.length - n)) (r : SyscallArgs)
    {w : World} (hw : w.requests.length = n) :
    Positioned env answers n (fun v ↦ LindCall.reply env w.tracee.mem r v .pread64)
      (monitorPread64 r env w) := by
  rw [monitorPread64, bind_apply]
  rcases fetch_getMem_cases 0 r.arg2 r.arg3 env w with hf | ⟨e, hf⟩
  · rw [hf, Outcome.andThen_done, lindPread]
    simp only [bind_assoc]
    refine Positioned.first hl hw fun curPos u hu ht ↦ ?_
    rw [bind_apply, lindCallInto_apply, verdictOn, hl, List.length_cons,
      show u.requests.length + 1 - n = 3 by omega]
    cases ha : answers 3 with
    | none => exact .raised ha
    | some resp =>
      dsimp only [Option.map_some]
      cases hb : received env (memBlock 0 w.tracee.mem r.arg2 (r.arg3.toNat / 8 + 1))
          (cInt r.arg3) (judge resp) with
      | none => exact .spoiled ha (congrArg (Option.map _) hb)
      | some b =>
        exact Positioned.last hl (by rw [length_answered, hu]) ha (congrArg (Option.map _) hb)
  · rw [hf, Outcome.andThen_halt]
    exact .early (by omega)

/-- The data of a write is there to be sent. -/
theorem fetch_lindWrite_block (fd : ℤ) (b : Block) (count : ℤ) (env : Env) (w : World) :
    ∃ request, fetch (lindWrite fd (.block b) count) env w = .done request w := by
  have hp : ∃ v, pyBytes (.block b) count (env, w.tracee.mem) [] = .done v [] := by
    simp only [pyBytes, bind_apply, ask_apply, Outcome.andThen_done, ite_run]
    split <;> exact ⟨_, rfl⟩
  obtain ⟨v, hv⟩ := hp
  have hq : lindWrite fd (.block b) count (env, w.tracee.mem) [] =
      .done ⟨LIND_safe_fs_write, [.int fd, v]⟩ [] := by
    rw [lindWrite, bind_apply, hv]
    rfl
  exact ⟨_, fetch_done hq⟩

theorem positioned_pwritev (hl : ∀ l, env.lind l = answers (l.length - n)) (r : SyscallArgs)
    {w : World} (hw : w.requests.length = n) :
    Positioned env answers n (fun v ↦ LindCall.reply env w.tracee.mem r v .pwritev)
      (monitorPwritev r env w) := by
  rw [monitorPwritev, bind_apply]
  rcases fetch_getMem_cases 0 r.arg2 r.arg3 env w with hf | ⟨e, hf⟩
  · rw [hf, Outcome.andThen_done, lindPwrite]
    simp only [bind_assoc]
    refine Positioned.first hl hw fun curPos u hu ht ↦ ?_
    obtain ⟨request, hr⟩ := fetch_lindWrite_block (cInt r.arg1)
      (memBlock 0 w.tracee.mem r.arg2 (r.arg3.toNat / 8 + 1)) (cInt r.arg3) env u
    rw [bind_apply, hr, Outcome.andThen_done, bind_apply, lindCall_apply, verdictOn, hl,
      List.length_cons, show u.requests.length + 1 - n = 3 by omega]
    cases ha : answers 3 with
    | none => exact .raised ha
    | some resp => exact Positioned.last hl (by rw [length_answered, hu]) ha rfl
  · rw [hf, Outcome.andThen_halt]
    exact .early (by omega)

theorem positioned_emulation (hl : ∀ l, env.lind l = answers (l.length - n)) {c : LindCall}
    (hc : c.own = 3) (r : SyscallArgs) {w : World} (hw : w.requests.length = n) :
    Positioned env answers n (fun v ↦ c.reply env w.tracee.mem r v) (c.emulation r env w) := by
  cases c with
  | pread64 => exact positioned_pread64 hl r hw
  | pwritev => exact positioned_pwritev hl r hw
  | _ => cases hc

end Positioned

/-! ### The round, by the answer to the own request -/

section Round

variable {env : Env} {answers : ℕ → Option Response} {c : LindCall} {resp : Response}
  {reply : Verdict → Option Result} {o : Outcome Halt World Result}

/-- An emulation returns the reply, or halts because there is none or because the position cannot be
restored. -/
def Follows (env : Env) (answers : ℕ → Option Response) (c : LindCall) (reply : Option Result)
    (o : Outcome Halt World Result) : Prop :=
  (∃ res u, o = .done res u ∧ reply = some res ∧ (c.own = 3 → Sought env (answers 4))) ∨
    ∃ e u, o = .halt e u ∧ ¬ (reply.isSome ∧ (c.own = 3 → Sought env (answers 4)))

theorem not_isSome_of_eq_none {α : Type} {x : Option α} {p : Prop} (h : x = none) :
    ¬ (x.isSome ∧ p) := by simp [h]

/-- An exchange that got as far as asking follows the answer. -/
theorem Exchange.follows {entered : Verdict → List (ℤ × ℤ)} {before : List Request}
    {table : List (ℤ × ℤ)} (hex : Exchange env reply entered before table o)
    (hl : ∀ l, env.lind l = answers (l.length - before.length)) (hown : c.own = 1)
    (hsent : before.length + 1 ≤ o.state.requests.length) (ha : answers 1 = some resp) :
    Follows env answers c (reply (judge resp)) o := by
  have hfirst {u : World} {request : Request} (hu : u.requests = request :: before) :
      env.lind u.requests = some resp := by
    rw [hl, hu, List.length_cons, Nat.add_sub_cancel_left, ha]
  cases hex with
  | halted hu =>
    rw [Outcome.state_halt, hu] at hsent
    omega
  | idle hu =>
    rw [Outcome.state_done, hu] at hsent
    omega
  | raised hu hn =>
    rw [hfirst hu] at hn
    cases hn
  | spoiled hu hs hr =>
    rw [hfirst hu] at hs
    cases hs
    exact .inr ⟨_, _, rfl, not_isSome_of_eq_none hr⟩
  | replied hu hs hr =>
    rw [hfirst hu] at hs
    cases hs
    exact .inl ⟨_, _, rfl, hr, fun h3 ↦ by omega⟩

/-- So does a call that sets a position first. -/
theorem Positioned.follows {n : ℕ} (hpos : Positioned env answers n reply o) (hown : c.own = 3)
    (hsent : n + 3 ≤ o.state.requests.length) (ha : answers 3 = some resp) :
    Follows env answers c (reply (judge resp)) o := by
  cases hpos with
  | early hu =>
    rw [Outcome.state_halt] at hsent
    omega
  | raised hn =>
    rw [ha] at hn
    cases hn
  | spoiled hs hr =>
    rw [ha] at hs
    cases hs
    exact .inr ⟨_, _, rfl, not_isSome_of_eq_none hr⟩
  | lost hs => exact .inr ⟨_, _, rfl, fun hsome ↦ hs (hsome.2 hown)⟩
  | replied hs hr hsought =>
    rw [ha] at hs
    cases hs
    exact .inl ⟨_, _, rfl, hr, fun _ ↦ hsought⟩

variable {acts : Actions} {s : Sys} {rep : Report}

/-- The emulation of a call whose own request was sent follows the answer to it. -/
theorem emulate_follows (h : LeavesEmulated acts s (rep.answering s answers))
    (hc : LindCall.ofNr (cInt rep.tracee.regs.orig_rax) = some c)
    (hasked : Asked s (s.round acts (rep.answering s answers)) c.own)
    (ha : answers c.own = some resp) :
    Follows (rep.env.answering s.world answers) answers c
      (c.reply (rep.env.answering s.world answers) rep.tracee.mem (argsOf rep.tracee.regs)
        (judge resp))
      (s.emulate (rep.answering s answers)) := by
  have hsent : s.world.requests.length + c.own ≤
      (s.emulate (rep.answering s answers)).state.requests.length := by
    rw [Asked] at hasked
    cases ho : s.emulate (rep.answering s answers) with
    | done res u => rwa [(round_of_done h ho).2.2.1] at hasked
    | halt e u => rwa [(round_of_halt h ho).2.2] at hasked
  have hl (l : List Request) : (rep.env.answering s.world answers).lind l =
      answers (l.length - s.world.requests.length) := rfl
  rcases own_cases c with hown | hown
  · rw [hown] at ha hsent
    have hc' : LindCall.ofNr (cInt (rep.answering s answers).tracee.regs.orig_rax) = some c := hc
    exact (exchange_emulate hc' hown).follows hl hown hsent ha
  · rw [hown] at ha hsent
    have hem : s.emulate (rep.answering s answers) =
        c.emulation (argsOf rep.tracee.regs) (rep.env.answering s.world answers)
          (s.world.atLeave rep.tracee) := emulate_of_ofNr hc
    rw [hem] at hsent ⊢
    have hpos := positioned_emulation hl hown (argsOf rep.tracee.regs)
      (atLeave_requests s.world rep.tracee ▸ rfl : (s.world.atLeave rep.tracee).requests.length = _)
    rw [atLeave_tracee] at hpos
    exact hpos.follows hown hsent ha

/-- The monitor resumes the tracee with the reply, and only where there is one. -/
theorem resumes_iff (h : LeavesEmulated acts s (rep.answering s answers))
    (hc : LindCall.ofNr (cInt rep.tracee.regs.orig_rax) = some c)
    (hasked : Asked s (s.round acts (rep.answering s answers)) c.own)
    (ha : answers c.own = some resp) (v : Word) :
    Resumes (s.round acts (rep.answering s answers)) v ↔
      (c.own = 3 → Sought (rep.env.answering s.world answers) (answers 4)) ∧
        ∃ res, c.reply (rep.env.answering s.world answers) rep.tracee.mem (argsOf rep.tracee.regs)
          (judge resp) = some res ∧ (res.map Prod.fst).getD rep.tracee.regs.rax = v := by
  rcases emulate_follows h hc hasked ha with ⟨res, u, ho, hr, hs⟩ | ⟨e, u, ho, hno⟩
  · obtain ⟨hgo, ht, -, -⟩ := round_of_done h ho
    rw [Resumes, hgo, ht, rax_regsAfter, hr]
    simp only [true_and, Option.some.injEq, exists_eq_left']
    exact ⟨fun hv ↦ ⟨hs, hv⟩, And.right⟩
  · refine iff_of_false (fun hv ↦ ?_) fun ⟨hs, res, hr, _⟩ ↦ hno ⟨by rw [hr]; rfl, hs⟩
    rw [Resumes, (round_of_halt h ho).1] at hv
    exact Bool.false_ne_true hv.1

end Round

/-- The reply carries the value due exactly where the verdict is one of those delivered. -/
theorem reply_due_iff {env : Env} {m : ByteMemory} {r : SyscallArgs} {c : LindCall}
    {resp : Response}
    {w : Word} (hdue : c.due (judge resp) = some w) :
    (∃ res, c.reply env m r (judge resp) = some res ∧ (res.map Prod.fst).getD r.retval = w) ↔
      c.Delivers env m r (judge resp) := by
  cases hv : judge resp with
  | failed =>
    rw [hv] at hdue
    cases hdue
  | error code =>
    rw [hv, LindCall.due] at hdue
    split_ifs at hdue with hcode
    cases hdue
    obtain ⟨res, hres, hrax⟩ := reply_error env m r c code
    simp only [hres, Option.some.injEq, exists_eq_left', hrax, LindCall.Delivers]
    split
    · exact Iff.rfl
    · rw [show (-1 : Word) = ofInt (-1) from rfl,
        ofInt_inj (by omega) (by omega) (by omega) (by omega)]
      omega
  | success code data =>
    obtain ⟨-, hlt⟩ := judge_success_bounds hv
    rw [hv, LindCall.due] at hdue
    split_ifs at hdue with hneg hseek hlen
    · cases hdue
      rw [exists_reply_success_iff fun _ ↦ hlen, LindCall.Delivers, if_pos hseek,
        LindCall.successRax, if_pos hseek, and_congr_right_iff]
      intro _
      split
      · exact ⟨fun h ↦ .inr h.symm, fun h ↦ (h.resolve_left (by omega)).symm⟩
      · exact iff_of_true rfl (.inl (by omega))
    · cases hdue
      rw [exists_reply_success_iff fun hc ↦ absurd hc hseek, LindCall.Delivers, if_neg hseek,
        LindCall.successRax, if_neg hseek, and_congr_right_iff]
      intro _
      -- the code arrives narrowed to an `int`, but for a created descriptor that is negative then
      have hnarrow := ofInt_wrapInt_eq_iff (not_lt.1 hneg) hlt
      have hself : code < 2 ^ 31 → wrapInt code = code := wrapInt_eq_self (by omega)
      by_cases hpos : 0 ≤ wrapInt code ∨ ¬ c.Creates
      · rw [if_pos hpos, hnarrow]
        refine ⟨.inl, fun h ↦ h.resolve_right ?_⟩
        rintro ⟨rfl, hw, -⟩
        exact hpos.elim (by omega) fun hno ↦ hno rfl
      · rw [if_neg hpos]
        rw [not_or] at hpos
        -- `open` has no result there, and leaves `rax` as it was; the others return `-1`
        by_cases hopen : c = .open
        · rw [if_pos hopen]
          refine ⟨fun h ↦ .inr ⟨hopen, by omega, h⟩, fun h ↦ ?_⟩
          rcases h with h | h
          · exact absurd (hself h) (by omega)
          · exact h.2.2
        · rw [if_neg hopen, show (-1 : Word) = ofInt (-1) from rfl,
            ofInt_inj (by omega) (by omega) (by omega) hlt]
          refine ⟨fun h ↦ by omega, fun h ↦ ?_⟩
          rcases h with h | h
          · exact absurd (hself h) (by omega)
          · exact absurd h.1 hopen

/-- The exit stop of `getuid` leaves an emulated call. -/
theorem leavesEmulated_getuid (answers : ℕ → Option Response) :
    LeavesEmulated lindActs (bootSys.step lindActs getuidEntry)
      (getuidExit.answering (bootSys.step lindActs getuidEntry) answers) :=
  ⟨rfl, rfl, show choice lindActs (callRegs 102).orig_rax = .lind by decide⟩

/-- Lind answers everything with the identity 1000. -/
def identityAnswers : ℕ → Option Response := fun _ ↦ some (successResponse 1000 [])

/-- Every answer is the error 2. -/
def enoentAnswers : ℕ → Option Response := fun _ ↦ some (errorResponse 2)

end ReferenceMonitor
