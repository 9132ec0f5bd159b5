import ReferenceMonitor.Monitor.Copies
import ReferenceMonitor.System.ReturnValues

/-!
# Fresh memory of the monitor and the tracee

What the monitor's heap and stack held before a call should not reach the tracee, and a call that
fails should leave the tracee's memory alone. Both come down to what the copies of a handler show of
its buffers: on a success the copies have the length of the buffer and not that of the payload
(`leaks_nothing_iff`), and on a failure they are made all the same (`error_keeps_memory_iff`).
-/

namespace ReferenceMonitor

open Halting

/-! ### Rounds in two environments -/

/-- The report, handled in another environment. -/
def Report.inEnv (rep : Report) (env : Env) : Report := { rep with env := env }

/-- The call of a report. -/
def Report.lindCall (rep : Report) : Option LindCall :=
  LindCall.ofNr (cInt rep.tracee.regs.orig_rax)

/-- The tracee after the round does not depend on fresh memory. -/
def LeaksNothing (acts : Actions) (s : Sys) (rep : Report) : Prop :=
  ∀ env', SameButFresh rep.lindCall rep.env env' →
    (s.round acts (rep.inEnv env')).state.tracee = (s.round acts rep).state.tracee

/-- The tracee's memory is as it was, whatever fresh memory held. -/
def KeepsMemory (acts : Actions) (s : Sys) (rep : Report) : Prop :=
  ∀ env', SameButFresh rep.lindCall rep.env env' →
    (s.round acts (rep.inEnv env')).state.tracee.mem = rep.tracee.mem

section Round

variable {acts : Actions} {s : Sys} {rep : Report} {env' : Env} {answers : ℕ → Option Response}

theorem LeavesEmulated.inEnv (h : LeavesEmulated acts s rep) (env' : Env) :
    LeavesEmulated acts s (rep.inEnv env') := ⟨h.exit, h.flag, h.lind⟩

theorem byNumber_answering (env : Env) (w : World) (answers : ℕ → Option Response) :
    (env.answering w answers).ByNumber := fun l l' hlen ↦ by
  rw [Env.answering]
  dsimp only
  rw [hlen]

theorem lindCall_answering (rep : Report) (s : Sys) (answers : ℕ → Option Response) :
    (rep.answering s answers).lindCall = rep.lindCall := rfl

theorem blind_emulationOf {n : ℤ} (h : LindCall.ofNr n ≠ some .lseek) (r : SyscallArgs) :
    BlindM (LindCall.ofNr n) Eq (emulationOf n r) (emulationOf n r) := by
  rw [emulationOf]
  cases hc : LindCall.ofNr n with
  | none =>
    intro env env' w w' _ hw
    exact .done rfl ⟨hw.regs, hw.tracee, hw.requests⟩
  | some c =>
    rw [hc] at h
    exact blind_emulation (fun hs ↦ h (congrArg some hs)) r

theorem memAfter_eq (env : Env) (m : ByteMemory) (res : Result) :
    memAfter env m res = copyMem env m (backsOf res) := by
  cases res <;> rfl

theorem regsAfter_congr {u u' : World} (h : u'.regs = u.regs) (t : Tracee) (res : Result) :
    regsAfter u' t res = regsAfter u t res := by
  cases res with
  | none => rfl
  | some p => simp only [regsAfter, h]

/-- The emulation takes the same steps in both environments. -/
theorem alike_emulate (hseek : rep.lindCall ≠ some .lseek) (hn : rep.env.ByNumber)
    (henv : SameButFresh rep.lindCall rep.env env') :
    Alike Abreast Eq (s.emulate rep) (s.emulate (rep.inEnv env')) :=
  blind_emulationOf hseek _ ⟨henv, hn⟩ ⟨rfl, rfl, rfl⟩

/-- The emulation halts in every environment if it does in one. -/
theorem tracee_inEnv_of_halt (h : LeavesEmulated acts s rep) (hseek : rep.lindCall ≠ some .lseek)
    (hn : rep.env.ByNumber) {e : Halt} {u : World} (he : s.emulate rep = .halt e u)
    (henv : SameButFresh rep.lindCall rep.env env') :
    (s.round acts (rep.inEnv env')).state.tracee = rep.tracee := by
  have halike := alike_emulate (s := s) hseek hn henv
  rw [he] at halike
  cases ho : s.emulate (rep.inEnv env') with
  | halt e' u' => exact (round_of_halt (h.inEnv env') ho).2.1
  | done res' u' =>
    rw [ho] at halike
    cases halike

/-- The registers are the same in every environment, and the memory is what the copies of one result
make of it. -/
theorem tracee_inEnv_of_done (h : LeavesEmulated acts s rep) (hseek : rep.lindCall ≠ some .lseek)
    (hn : rep.env.ByNumber) {res : Result} {u : World} (he : s.emulate rep = .done res u)
    (henv : SameButFresh rep.lindCall rep.env env') :
    (s.round acts (rep.inEnv env')).state.tracee =
      ⟨regsAfter u rep.tracee res, copyMem env' rep.tracee.mem (backsOf res)⟩ := by
  have halike := alike_emulate (s := s) hseek hn henv
  rw [he] at halike
  cases ho : s.emulate (rep.inEnv env') with
  | halt e' u' =>
    rw [ho] at halike
    cases halike
  | done res' u' =>
    rw [ho] at halike
    cases halike with
    | done hres hu =>
      subst hres
      rw [(round_of_done (h.inEnv env') ho).2.1, memAfter_eq, regsAfter_congr hu.regs]
      rfl

/-- The tracee after a round that ends with a reply. -/
theorem keepsMemory_iff_of_done (h : LeavesEmulated acts s rep)
    (hseek : rep.lindCall ≠ some .lseek) (hn : rep.env.ByNumber) {res : Result} {u : World}
    (he : s.emulate rep = .done res u) :
    KeepsMemory acts s rep ↔ ∀ env', SameButFresh rep.lindCall rep.env env' →
      copyMem env' rep.tracee.mem (backsOf res) = rep.tracee.mem :=
  forall_congr' fun env' ↦ forall_congr' fun henv ↦ by
    rw [tracee_inEnv_of_done h hseek hn he henv]

theorem leaksNothing_iff_of_done (h : LeavesEmulated acts s rep)
    (hseek : rep.lindCall ≠ some .lseek) (hn : rep.env.ByNumber) {res : Result} {u : World}
    (he : s.emulate rep = .done res u) :
    LeaksNothing acts s rep ↔ ∀ env', SameButFresh rep.lindCall rep.env env' →
      copyMem env' rep.tracee.mem (backsOf res) = copyMem rep.env rep.tracee.mem (backsOf res) :=
  forall_congr' fun env' ↦ forall_congr' fun henv ↦ by
    have hself := tracee_inEnv_of_done h hseek hn he (sameButFresh_self rep.lindCall rep.env)
    rw [show rep.inEnv rep.env = rep from rfl] at hself
    rw [tracee_inEnv_of_done h hseek hn he henv, hself, Tracee.mk.injEq]
    exact and_iff_right rfl

end Round

/-! ### Failures -/

/-- The calls that return data through a pointer. -/
def LindCall.HasOutput : LindCall → Bool
  | read | fstat | stat | statfs | fstatfs | getdents | recvfrom | recvmsg | getsockname
  | getsockopt | select | poll | epoll_wait => true
  | _ => false

theorem own_of_hasOutput {c : LindCall} (h : c.HasOutput) : c.own = 1 := by
  cases c with
  | pread64 | pwritev => cases h
  | _ => rfl

/-- On a failure nothing is known of the buffers but those of `select`. -/
theorem src_copies_error {env : Env} {m : ByteMemory} {r : SyscallArgs} {code : ℤ} {c : LindCall}
    (hc : c.HasOutput) (hselect : c ≠ .select) :
    ∀ f ∈ c.copies env m r (.error code), f.src = 0 := by
  intro f hf
  cases c with
  | select => exact absurd rfl hselect
  | recvmsg =>
    obtain ⟨b, -, rfl⟩ := List.mem_map.1 hf
    rfl
  | recvfrom =>
    rcases List.mem_pair.1 hf with rfl | rfl <;> rfl
  | read | fstat | stat | statfs | fstatfs | getdents | getsockname | getsockopt | poll
  | epoll_wait =>
    obtain rfl := List.mem_singleton.1 hf
    rfl
  | _ => cases hc

/-- **Error atomicity.** A failed call that returns data through a pointer leaves the tracee's
memory as it was, whatever fresh memory held, exactly where it is `select` or nothing it copies to
can be written. -/
theorem error_keeps_memory_iff {acts : Actions} {s : Sys} {rep : Report}
    {answers : ℕ → Option Response} {c : LindCall} {resp : Response} {code : ℤ}
    (h : LeavesEmulated acts s (rep.answering s answers)) (hc : rep.lindCall = some c)
    (hout : c.HasOutput) (hasked : Asked s (s.round acts (rep.answering s answers)) 1)
    (ha : answers 1 = some resp) (hv : judge resp = .error code) :
    KeepsMemory acts s (rep.answering s answers) ↔
      c = .select ∨ ∀ a ∈ c.copiedWords (rep.env.answering s.world answers) rep.tracee.mem
        (argsOf rep.tracee.regs) (.error code), ¬ rep.tracee.mem.Pokeable a := by
  have hown := own_of_hasOutput hout
  have hseek : (rep.answering s answers).lindCall ≠ some .lseek := by
    rw [lindCall_answering, hc]
    rintro ⟨⟩
    cases hout
  have hn := byNumber_answering rep.env s.world answers
  have hfollows := emulate_follows h hc (by rwa [hown]) (by rwa [hown])
  rw [hv] at hfollows
  obtain ⟨res, hres, -⟩ := reply_error (rep.env.answering s.world answers) rep.tracee.mem
    (argsOf rep.tracee.regs) c code
  rcases hfollows with ⟨res', u, he, hres', -⟩ | ⟨e, u, -, hno⟩
  · obtain rfl : res = res' := Option.some.inj (hres.symm.trans hres')
    rw [keepsMemory_iff_of_done h hseek hn he]
    constructor
    · -- a memory that is kept whatever fresh memory held shows none of it, and the source of a copy
      -- after a failure is fresh memory throughout: nothing can have been written
      intro hkeep
      by_cases hselect : c = .select
      · exact .inl hselect
      · refine .inr (not_pokeable_of_shownOnly ((copyMem_reply_iff hres).1 fun env' henv ↦ ?_)
          (src_copies_error hout hselect))
        rw [← hc] at henv
        exact (hkeep env' henv).trans (hkeep _ (sameButFresh_self _ _)).symm
    · rintro (rfl | hno) env' -
      · cases hres
        exact copyMem_selectBacks env' rep.tracee.mem (argsOf rep.tracee.regs)
      · exact copyMem_eq_self hres hno env'
  · rw [hres] at hno
    exact absurd ⟨rfl, fun h3 ↦ by omega⟩ hno

/-- A `read` of eight bytes to the address zero. -/
def readRegs : UserRegs := { callRegs 0 with rdx := 8 }

/-- The entry stop of that `read`. -/
def readEntry : Report := ⟨.entry, ⟨readRegs, zeroMemory⟩, steadyEnv none⟩

/-- Its exit stop. -/
def readExit : Report := ⟨.exit, ⟨readRegs, zeroMemory⟩, steadyEnv none⟩

theorem leavesEmulated_read (answers : ℕ → Option Response) :
    LeavesEmulated lindActs (bootSys.step lindActs readEntry)
      (readExit.answering (bootSys.step lindActs readEntry) answers) :=
  ⟨rfl, rfl, show choice lindActs readRegs.orig_rax = .lind by decide⟩

/-- Every answer is the error 5. -/
def eioAnswers : ℕ → Option Response := fun _ ↦ some (errorResponse 5)

theorem asked_read :
    Asked (bootSys.step lindActs readEntry) ((bootSys.step lindActs readEntry).round lindActs
      (readExit.answering (bootSys.step lindActs readEntry) eioAnswers)) 1 := by
  show 0 + 1 ≤ _
  decide

theorem error_keeps_memory_iff_read :
    KeepsMemory lindActs (bootSys.step lindActs readEntry)
        (readExit.answering (bootSys.step lindActs readEntry) eioAnswers) ↔
      LindCall.read = .select ∨ ∀ a ∈ LindCall.read.copiedWords
        (readExit.env.answering (bootSys.step lindActs readEntry).world eioAnswers) zeroMemory
        (argsOf readRegs) (.error 5), ¬ zeroMemory.Pokeable a :=
  error_keeps_memory_iff (leavesEmulated_read eioAnswers) rfl rfl asked_read rfl
    (judge_errorResponse (by decide) (by decide))

/-- A failed `read` overwrites the buffer of the tracee with what the monitor's heap held. -/
theorem not_error_keeps_memory : ¬ ∀ (acts : Actions) (s : Sys) (rep : Report)
    (answers : ℕ → Option Response) (c : LindCall) (resp : Response) (code : ℤ),
    LeavesEmulated acts s (rep.answering s answers) → rep.lindCall = some c → c.HasOutput →
      Asked s (s.round acts (rep.answering s answers)) 1 → answers 1 = some resp →
        judge resp = .error code → KeepsMemory acts s (rep.answering s answers) := fun h ↦ by
  have hkeep := h lindActs (bootSys.step lindActs readEntry) readExit eioAnswers .read
    (errorResponse 5) 5 (leavesEmulated_read eioAnswers) rfl rfl asked_read rfl
    (judge_errorResponse (by decide) (by decide)) _ (sameButFresh_filledWith _ _ 1)
  exact absurd (congrArg (fun m ↦ m.byte 0) hkeep) (by decide)

/-! ### Successes -/

/-- What the payload of a success has to cover: every byte of a buffer that the tracee is shown, and
the offset of `lseek`. -/
def LindCall.Covered (env : Env) (m : ByteMemory) (r : SyscallArgs) (code : ℤ) (data : List Byte)
    (c : LindCall) : Prop :=
  match c with
  | lseek => wrapInt data.length < 0 ∨ wrapInt code < 0 ∨ 8 ≤ wrapInt data.length
  | c => c.Takes env m r data →
    ShownOnly m (c.copies env m r (.success code data)) fun n o ↦ 0 ≤ o ∧ o < n

section Success

variable {acts : Actions} {s : Sys} {rep : Report} {answers : ℕ → Option Response} {c : LindCall}
  {resp : Response} {code : ℤ} {data : List Byte}

theorem covered_of_ne {env : Env} {m : ByteMemory} {r : SyscallArgs} (hseek : c ≠ .lseek) :
    c.Covered env m r code data ↔ (c.Takes env m r data →
      ShownOnly m (c.copies env m r (.success code data)) fun n o ↦ 0 ≤ o ∧ o < n) := by
  cases c with
  | lseek => exact absurd rfl hseek
  | _ => exact Iff.rfl

/-- The calls that set a position first copy nothing back. -/
theorem copies_of_own {env : Env} {m : ByteMemory} {r : SyscallArgs} {v : Verdict}
    (h : c.own = 3) : c.copies env m r v = [] := by
  cases c with
  | pread64 | pwritev => rfl
  | _ => cases h

theorem leaksNothing_iff_of_ne (h : LeavesEmulated acts s (rep.answering s answers))
    (hc : rep.lindCall = some c) (hseek : c ≠ .lseek)
    (hasked : Asked s (s.round acts (rep.answering s answers)) c.own)
    (ha : answers c.own = some resp) (hv : judge resp = .success code data) :
    LeaksNothing acts s (rep.answering s answers) ↔
      c.Covered (rep.env.answering s.world answers) rep.tracee.mem (argsOf rep.tracee.regs) code
        data := by
  have hcall : (rep.answering s answers).lindCall ≠ some .lseek := by
    rw [lindCall_answering, hc]
    exact fun hs ↦ hseek (Option.some.inj hs)
  have hn := byNumber_answering rep.env s.world answers
  have hfollows := emulate_follows h hc hasked ha
  rw [hv] at hfollows
  rw [covered_of_ne hseek, ← isSome_reply_success_iff code]
  rcases hfollows with ⟨res, u, he, hres, -⟩ | ⟨e, u, he, hno⟩
  · rw [leaksNothing_iff_of_done h hcall hn he, hres]
    refine Iff.trans ?_ (forall_prop_of_true rfl).symm
    rw [← copyMem_reply_iff hres, ← hc]
    rfl
  · refine iff_of_true (fun env' henv ↦ ?_) fun hsome ↦ ?_
    · rw [tracee_inEnv_of_halt h hcall hn he henv]
      exact (round_of_halt h he).2.1.symm
    · -- a reply that is lost all the same belongs to a call without copies
      rcases own_cases c with hown | hown
      · exact absurd ⟨hsome, fun h3 ↦ by omega⟩ hno
      · rw [copies_of_own hown]
        exact fun i q j hq ↦ absurd (List.mem_of_getElem? hq) List.not_mem_nil

/-! ### The offset of `lseek` -/

/-- The request of `monitor_lseek`. -/
def lseekRequest (r : SyscallArgs) : Request :=
  ⟨LIND_safe_fs_lseek, [.int (cInt r.arg2), .int (cInt r.arg1), .int (cInt r.arg3)]⟩

/-- `monitor_lseek`, by the verdict. -/
theorem monitorLseek_apply (r : SyscallArgs) (env : Env) (w : World) :
    monitorLseek r env w =
      match verdictOn env w (lseekRequest r) with
      | none => .halt (.segv 0) (w.send (lseekRequest r))
      | some v =>
        match received env (malloc 4 8) 8 v with
        | none => .halt .corrupt (w.answered (lseekRequest r) v)
        | some b =>
          .done (some (if v.status < 0 then ofInt v.status else b.wordAt env 0, []))
            (w.answered (lseekRequest r) v) := by
  rw [monitorLseek, lindLseek, bind_apply, bind_apply, lindCallInto_apply, lseekRequest]
  cases verdictOn env w _ with
  | none => rfl
  | some v =>
    dsimp only
    cases received env (malloc 4 8) 8 v with
    | none => rfl
    | some b =>
      dsimp only [Outcome.andThen_done]
      rw [ite_run]
      split <;> rfl

/-- The tracee after an `lseek` that was answered. -/
theorem tracee_lseek (h : LeavesEmulated acts s rep) (hc : rep.lindCall = some .lseek) {v : Verdict}
    (hv : verdictOn rep.env (s.world.atLeave rep.tracee) (lseekRequest (argsOf rep.tracee.regs)) =
      some v) :
    (s.round acts rep).state.tracee =
      match received rep.env (malloc 4 8) 8 v with
      | none => rep.tracee
      | some b =>
        ⟨{ rep.tracee.regs with
          rax := if v.status < 0 then ofInt v.status else b.wordAt rep.env 0 },
        rep.tracee.mem⟩ := by
  have hem : s.emulate rep =
      monitorLseek (argsOf rep.tracee.regs) rep.env (s.world.atLeave rep.tracee) :=
    emulate_of_ofNr hc
  rw [monitorLseek_apply, hv] at hem
  dsimp only at hem
  cases hb : received rep.env (malloc 4 8) 8 v with
  | none =>
    rw [hb] at hem
    exact (round_of_halt h hem).2.1
  | some b =>
    rw [hb] at hem
    rw [(round_of_done h hem).2.1]
    cases v <;> rfl

/-- The offset shows eight bytes of a local variable. -/
theorem wordAt_blind_iff {env : Env} {b : Block} {n : ℤ} (hb : (malloc 4 8).Filled b n) :
    (∀ env', SameButFresh (some .lseek) env env' → b.wordAt env' 0 = b.wordAt env 0) ↔ 8 ≤ n := by
  constructor
  · intro h
    by_contra hlt
    have hknown : ¬ b.Known 7 := by
      rw [hb.known_iff]
      omega
    have hshow (β : Byte) : byteOf (b.wordAt env 0) 7 = β := by
      rw [← h _ (sameButFresh_filledWith _ env β), byteOf_wordAt _ _ _ (by decide)]
      exact byteAt_filledWith hknown (fun hv ↦ by rcases hv with ⟨⟨⟩⟩ | ⟨⟨⟩⟩) env β
    exact absurd ((hshow 0).symm.trans (hshow 1)) (by decide)
  · intro hn env' _
    exact wordOf_congr fun j hj ↦
      (hb.known_iff.2 ⟨by omega, by omega⟩ : b.Known (0 + j)).byteAt_eq env env'

theorem leaksNothing_lseek_iff (h : LeavesEmulated acts s rep) (hc : rep.lindCall = some .lseek)
    {v : Verdict}
    (hv : verdictOn rep.env (s.world.atLeave rep.tracee) (lseekRequest (argsOf rep.tracee.regs)) =
      some v) :
    LeaksNothing acts s rep ↔
      ((received rep.env (malloc 4 8) 8 v).isSome → v.status < 0 ∨ 8 ≤ v.filled 8) := by
  have htracee (env' : Env) (henv : SameButFresh (some .lseek) rep.env env') :=
    tracee_lseek (h.inEnv env') hc (v := v) (by
      rw [verdictOn] at hv ⊢
      exact henv.lind ▸ hv)
  rw [LeaksNothing, hc]
  dsimp only [Report.inEnv] at htracee ⊢
  have hself := tracee_lseek h hc hv
  cases hb : received rep.env (malloc 4 8) 8 v with
  | none =>
    refine iff_of_true (fun env' henv ↦ ?_) fun hsome ↦ by cases hsome
    rw [htracee env' henv, hself, received_eq henv, hb]
  | some b =>
    rw [hb] at hself
    have heq (env' : Env) (henv : SameButFresh (some .lseek) rep.env env') :
        (s.round acts { rep with env := env' }).state.tracee = (s.round acts rep).state.tracee ↔
          (v.status < 0 ∨ b.wordAt env' 0 = b.wordAt rep.env 0) := by
      rw [htracee env' henv, hself, received_eq henv, hb]
      dsimp only
      by_cases hneg : v.status < 0
      · simp [hneg]
      · simp [hneg]
    have hword : (∀ env', SameButFresh (some .lseek) rep.env env' →
        b.wordAt env' 0 = b.wordAt rep.env 0) ↔ 8 ≤ v.filled 8 :=
      wordAt_blind_iff (filled_received hb)
    rw [← hword]
    simp only [Option.isSome_some, true_imp_iff]
    -- a negative status is returned as it is, and the offset not looked at
    by_cases hneg : v.status < 0
    · exact iff_of_true (fun env' henv ↦ (heq env' henv).2 (.inl hneg)) (.inl hneg)
    · rw [or_iff_right hneg]
      refine forall_congr' fun env' ↦ forall_congr' fun henv ↦ ?_
      rw [heq env' henv, or_iff_right hneg]

theorem verdictOn_answering {env : Env} {w : World} {t : Tracee} {request : Request} {v : Verdict}
    (h : (answers 1).map judge = some v) :
    verdictOn (env.answering w answers) (w.atLeave t) request = some v := by
  have hfirst : (env.answering w answers).lind (request :: w.requests) = answers 1 := by
    show answers ((request :: w.requests).length - w.requests.length) = answers 1
    rw [List.length_cons, Nat.add_sub_cancel_left]
  rw [verdictOn, atLeave_requests, hfirst, h]

theorem covered_lseek_iff {env : Env} {m : ByteMemory} {r : SyscallArgs} :
    LindCall.lseek.Covered env m r code data ↔
      ((received env (malloc 4 8) 8 (.success code data)).isSome →
        (Verdict.success code data).status < 0 ∨ 8 ≤ (Verdict.success code data).filled 8) := by
  rw [isSome_received_iff, length_malloc, LindCall.Covered, Verdict.status, Verdict.filled, Fits,
    copyLen]
  split <;> omega

/-- **No leak.** After a success the tracee does not depend on fresh memory of the monitor exactly
where the payload covers what the tracee is shown. -/
theorem leaks_nothing_iff (h : LeavesEmulated acts s (rep.answering s answers))
    (hanswer : ∀ c, rep.lindCall = some c →
      Asked s (s.round acts (rep.answering s answers)) c.own ∧
        (answers c.own).map judge = some (.success code data)) :
    LeaksNothing acts s (rep.answering s answers) ↔
      ∀ c, rep.lindCall = some c → c.Covered (rep.env.answering s.world answers) rep.tracee.mem
        (argsOf rep.tracee.regs) code data := by
  cases hc : rep.lindCall with
  | none =>
    obtain ⟨u, hem⟩ : ∃ u, s.emulate (rep.answering s answers) = .done (some (einval, [])) u :=
      emulate_of_ofNr_none hc
    have hcall : (rep.answering s answers).lindCall ≠ some .lseek := by
      rw [lindCall_answering, hc]
      exact Option.some_ne_none _ ∘ Eq.symm
    refine iff_of_true ?_ (by simp)
    refine (leaksNothing_iff_of_done h hcall (byNumber_answering _ _ _) hem).2 fun env' _ ↦ ?_
    rw [show backsOf (some (einval, [])) = [] from rfl, copyMem_nil, copyMem_nil]
  | some c =>
    obtain ⟨hasked, hjudge⟩ := hanswer c hc
    obtain ⟨resp, ha, hv⟩ := Option.map_eq_some_iff.1 hjudge
    simp only [Option.some.injEq, forall_eq']
    by_cases hseek : c = .lseek
    · subst hseek
      refine (leaksNothing_lseek_iff h hc (verdictOn_answering ?_)).trans covered_lseek_iff.symm
      exact hjudge
    · exact leaksNothing_iff_of_ne h hc hseek hasked ha hv

end Success

/-- Every answer is a success without a payload. -/
def emptyAnswers : ℕ → Option Response := fun _ ↦ some (successResponse 0 [])

theorem answered_read : ∀ c, readExit.lindCall = some c →
    Asked (bootSys.step lindActs readEntry) ((bootSys.step lindActs readEntry).round lindActs
        (readExit.answering (bootSys.step lindActs readEntry) emptyAnswers)) c.own ∧
      (emptyAnswers c.own).map judge = some (.success 0 []) := fun c hc ↦ by
  cases hc
  refine ⟨?_, congrArg some (judge_successResponse (by decide) (by decide) [])⟩
  show 0 + 1 ≤ _
  decide

theorem leaks_nothing_iff_read :
    LeaksNothing lindActs (bootSys.step lindActs readEntry)
        (readExit.answering (bootSys.step lindActs readEntry) emptyAnswers) ↔
      ∀ c, readExit.lindCall = some c →
        c.Covered (readExit.env.answering (bootSys.step lindActs readEntry).world emptyAnswers)
          readExit.tracee.mem (argsOf readExit.tracee.regs) 0 [] :=
  leaks_nothing_iff (leavesEmulated_read emptyAnswers) answered_read

/-- A `read` at the end of a file shows the tracee what the monitor's heap held. -/
theorem not_leaks_nothing : ¬ ∀ (acts : Actions) (s : Sys) (rep : Report)
    (answers : ℕ → Option Response) (code : ℤ) (data : List Byte),
    LeavesEmulated acts s (rep.answering s answers) →
      (∀ c, rep.lindCall = some c → Asked s (s.round acts (rep.answering s answers)) c.own ∧
        (answers c.own).map judge = some (.success code data)) →
          LeaksNothing acts s (rep.answering s answers) := fun h ↦ by
  have hsame := h lindActs (bootSys.step lindActs readEntry) readExit emptyAnswers 0 []
    (leavesEmulated_read emptyAnswers) answered_read _ (sameButFresh_filledWith _ _ 1)
  exact absurd (congrArg (fun t ↦ t.mem.byte 0) hsame) (by decide)

end ReferenceMonitor
