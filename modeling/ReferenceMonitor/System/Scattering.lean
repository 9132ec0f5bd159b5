import ReferenceMonitor.Monitor.Overwriting
import ReferenceMonitor.System.ExitStops

/-!
# Scattering a message: `recvmsg`

`monitor_recvmsg` should fill the buffers of the tracee's vector with what Lind has received. It
looks for the vector through the tracee's pointer, in its own memory, and where that succeeds it
copies fresh buffers to the tracee: `lind_recvmsg` has no destination for the payload.
-/

namespace ReferenceMonitor

open Halting

/-- The buffers of the vector of a `struct msghdr`, each with its length. -/
def msgVector (m : ByteMemory) (msg : Word) : List (Word × ℕ) :=
  let iov := peekData m (msg + 16)
  (List.range (peekData m (msg + 24)).toNat).map fun i : ℕ ↦
    (peekData m (iov + BitVec.ofNat 64 (16 * i)),
      (peekData m (iov + BitVec.ofNat 64 (16 * i + 8))).toNat)

/-- The addresses of the bytes of some buffers, in order. -/
def bufferAddrs (vec : List (Word × ℕ)) : List Word :=
  vec.flatMap fun b ↦ (List.range b.2).map fun j : ℕ ↦ b.1 + BitVec.ofNat 64 j

/-- The buffers of the tracee's vector hold what was received, and nothing behind it is changed. -/
structure Scattered (t t' : Tracee) (data : List Byte) : Prop where
  rax : t'.regs.rax = ofInt data.length
  filled : ∀ (j : ℕ) b x, data[j]? = some b →
    (bufferAddrs (msgVector t.mem t.regs.rsi))[j]? = some x → t'.mem.byte x = some b
  kept : ∀ (j : ℕ) x, data.length ≤ j → (bufferAddrs (msgVector t.mem t.regs.rsi))[j]? = some x →
    t'.mem.byte x = t.mem.byte x

/-- The same with another answer of Lind. -/
def Env.alwaysAnswering (env : Env) (resp : Response) : Env :=
  { env with lind := fun _ ↦ some resp }

/-- The same with something else at the monitor's own addresses. -/
def Env.withOwn (env : Env) (own : Word → Option Byte) : Env := { env with own := own }

/-- `recvmsg` delivers every message that the buffers have room for. -/
def RecvmsgScatters (env : Env) (w : World) (t : Tracee) : Prop :=
  ∀ resp data, judge resp = .success data.length data →
    data.length ≤ (bufferAddrs (msgVector t.mem t.regs.rsi)).length →
    ∃ w', emulated monitorRecvmsg (env.alwaysAnswering resp) (w.atStop t) = .done () w' ∧
      Scattered t w'.tracee data

section Recvmsg

variable {env : Env} {w w' : World} {t : Tracee} {m : ByteMemory}

/-- The vector is not found. -/
theorem readMsghdr_halt (r : SyscallArgs) (h : ∀ a, env.own a = none) (log : List Word) :
    ∃ e log', readMsghdr r (env, m) log = .halt e log' := by
  have hbound : (BitVec.ofNat 64 sizeofMsghdr).toNat / 8 + 1 < 2 ^ 31 := by decide
  rw [readMsghdr, bind_apply, getMem_apply hbound, Outcome.andThen_done, bind_apply, ask_apply,
    Outcome.andThen_done]
  dsimp only
  rw [bind_apply, loadForeign, bind_apply, noteForeign, modify_apply, Outcome.andThen_done,
    loadOwn_of_unmapped (by decide) (h _)]
  exact ⟨_, _, rfl⟩

theorem emulated_recvmsg_halt (t : Tracee) (hflag : w.entering = false)
    (h : ∀ a, env.own a = none) :
    ∃ e u, emulated monitorRecvmsg env (w.atStop t) = .halt e u := by
  obtain ⟨e, log, hread⟩ := readMsghdr_halt (m := t.mem) (argsOf t.regs) h []
  have hhalt : monitorRecvmsg (argsOf t.regs) env (w.atLeave t) =
      .halt e { w.atLeave t with trace := log.map Event.foreign ++ (w.atLeave t).trace } := by
    rw [monitorRecvmsg, bind_apply, fetch_halt (w := w.atLeave t) hread]
    rfl
  exact ⟨e, _, emulated_halt hflag hhalt⟩

/-- What `monitor_recvmsg` copies, whatever was received. -/
theorem monitorRecvmsg_done {r : SyscallArgs} {res : Result} {u : World}
    (h : monitorRecvmsg r env w = .done res u) :
    ∃ ret, res = some (ret, recvmsgBacks env (msgView env w.tracee.mem r)) := by
  rw [monitorRecvmsg, bind_apply] at h
  obtain ⟨v, u₁, hv, h⟩ := Outcome.andThen_eq_done_iff.1 h
  obtain ⟨request, u₂, -, h⟩ := Outcome.andThen_eq_done_iff.1 h
  obtain ⟨ret, u₃, -, h⟩ := Outcome.andThen_eq_done_iff.1 h
  cases h
  refine ⟨ofInt ret, ?_⟩
  have hview : msgView env w.tracee.mem r = v := by
    rcases hread : readMsghdr r (env, w.tracee.mem) [] with ⟨v', log⟩ | ⟨e, log⟩
    · rw [fetch_done hread] at hv
      cases hv
      rw [msgView, hread]
      rfl
    · rw [fetch_halt hread] at hv
      cases hv
  rw [hview]

/-- What is copied to the tracee does not depend on the payload. -/
theorem recvmsg_mem (hflag : w.entering = false) (resp : Response)
    (h : emulated monitorRecvmsg (env.alwaysAnswering resp) (w.atStop t) = .done () w') :
    w'.tracee.mem = copyMem env t.mem (recvmsgBacks env (msgView env t.mem (argsOf t.regs))) := by
  have happly := h
  rw [emulated_apply _ hflag] at happly
  obtain ⟨a, v, hleave, -⟩ := Outcome.andThen_eq_done_iff.1 happly
  obtain ⟨res, u, hres, -⟩ := Outcome.andThen_eq_done_iff.1 hleave
  obtain ⟨ret, rfl⟩ := monitorRecvmsg_done hres
  obtain ⟨w'', hrun, htracee, -⟩ := emulated_done (c := .recvmsg) (by decide) hflag hres
  obtain rfl : w'' = w' := by
    have hsame := hrun.symm.trans h
    cases hsame
    rfl
  rw [htracee]
  show copyMem (env.alwaysAnswering resp) t.mem (recvmsgBacks (env.alwaysAnswering resp)
    (msgView (env.alwaysAnswering resp) t.mem (argsOf t.regs))) = _
  rw [Env.alwaysAnswering, msgView_withLind]
  rfl

/-- **`recvmsg`** never scatters a message: not where nothing is mapped at the tracee's addresses,
and where there is room for a byte, not whatever is mapped there. -/
theorem recvmsg_never_scatters (env : Env) (t : Tracee) (hflag : w.entering = false) :
    (¬ ∀ own, RecvmsgScatters (env.withOwn own) w t) ∧
      (bufferAddrs (msgVector t.mem t.regs.rsi) ≠ [] → ¬ RecvmsgScatters env w t) := by
  constructor
  · intro h
    obtain ⟨w', hrun, -⟩ := h (fun _ ↦ none) (successResponse 0 []) []
      (judge_successResponse (by decide) (by decide) []) (Nat.zero_le _)
    have hunmapped : ∀ a,
        ((env.withOwn fun _ ↦ none).alwaysAnswering (successResponse 0 [])).own a = none :=
      fun _ ↦ rfl
    obtain ⟨e, u, hhalt⟩ := emulated_recvmsg_halt t hflag hunmapped
    rw [hrun] at hhalt
    cases hhalt
  · intro hroom h
    obtain ⟨x, hx⟩ : ∃ x, (bufferAddrs (msgVector t.mem t.regs.rsi))[0]? = some x :=
      ⟨_, List.getElem?_eq_getElem (List.length_pos_of_ne_nil hroom)⟩
    -- one byte is received, and the same memory is left whichever it is
    have hbyte (β : Byte) : (copyMem env t.mem
        (recvmsgBacks env (msgView env t.mem (argsOf t.regs)))).byte x = some β := by
      obtain ⟨w', hrun, hscattered⟩ := h (successResponse 1 [β]) [β]
        (judge_successResponse (by decide) (by decide) [β]) (List.length_pos_of_ne_nil hroom)
      rw [← recvmsg_mem hflag _ hrun]
      exact hscattered.filled 0 β x rfl hx
    exact absurd ((hbyte 0).symm.trans (hbyte 1)) (by decide)

end Recvmsg

/-- The bytes of a memory with one message header, at `64`: its vector at `256` has one buffer, four
bytes at `512`. -/
def messageByte (x : Word) : Byte :=
  if x = 64 + 17 then 1 else if x = 64 + 24 then 1 else if x = 257 then 2 else if x = 264 then 4
  else 0

/-- A tracee with room for a message of four bytes. -/
def recvmsgTracee : Tracee :=
  ⟨{ callRegs 47 with rdi := 3, rsi := 64 }, ⟨fun x ↦ some (messageByte x), fun _ ↦ true⟩⟩

theorem bufferAddrs_recvmsgTracee :
    bufferAddrs (msgVector recvmsgTracee.mem recvmsgTracee.regs.rsi) = [512, 513, 514, 515] := by
  decide

theorem recvmsg_never_scatters_four :
    (¬ ∀ own, RecvmsgScatters ((steadyEnv none).withOwn own) zeroWorld recvmsgTracee) ∧
      (bufferAddrs (msgVector recvmsgTracee.mem recvmsgTracee.regs.rsi) ≠ [] →
        ¬ RecvmsgScatters (steadyEnv none) zeroWorld recvmsgTracee) :=
  recvmsg_never_scatters (steadyEnv none) recvmsgTracee rfl

/-- One byte is received, and the monitor does not get past the header. -/
theorem not_recvmsg_scatters :
    bufferAddrs (msgVector recvmsgTracee.mem recvmsgTracee.regs.rsi) = [512, 513, 514, 515] ∧
      ¬ ∃ w', emulated monitorRecvmsg ((steadyEnv none).alwaysAnswering (successResponse 1 [7]))
          (zeroWorld.atStop recvmsgTracee) = .done () w' ∧
        Scattered recvmsgTracee w'.tracee [7] := by
  refine ⟨bufferAddrs_recvmsgTracee, ?_⟩
  rintro ⟨w', hrun, -⟩
  have hunmapped : ∀ a, ((steadyEnv none).alwaysAnswering (successResponse 1 [7])).own a = none :=
    fun _ ↦ rfl
  obtain ⟨e, u, hhalt⟩ := emulated_recvmsg_halt recvmsgTracee (w := zeroWorld) rfl hunmapped
  rw [hrun] at hhalt
  cases hhalt

end ReferenceMonitor
