import ReferenceMonitor.Monitor.Replies
import ReferenceMonitor.Platform.MultiPart

/-!
# Where the payload of a success goes

A handler allocates its buffers, and the wrapper passes them on to `ParseResponse` with a limit that
it computes. Size and limit are not compared with each other, and the length of the payload is
Lind's. `copiesInside_iff` says for which registers, memories and payloads every copy stays inside
its buffer.

In the model a copy that does not ends the emulation (`copiesInside_of_isSome_reply`).
-/

namespace ReferenceMonitor

open Halting

/-! ### What the buffers take -/

/-- The buffers of an emulation take the payload of a success. -/
def LindCall.Takes (env : Env) (m : ByteMemory) (r : SyscallArgs) (data : List Byte)
    (c : LindCall) : Prop :=
  match c with
  | socketpair => Fits 16 8 data
  | lseek => Fits 8 8 data
  | select => Fits 400 400 data
  | pread64 => Fits (8 * (r.arg3.toNat / 8 + 1)) (cInt r.arg3) data
  | recvfrom =>
    PartsFit (payloadAt env data) (wrapInt data.length).toNat 0
      (wrapInt (4 * wrapInt data.length)) (recvfromDests r)
  | c =>
    match c.output env m r with
    | some o => Fits o.size o.limit data
    | none => True

section Reply

variable {env : Env} {m : ByteMemory} {r : SyscallArgs} {c : LindCall}

theorem isSome_received_iff {b : Block} {maxlen code : ℤ} {data : List Byte} :
    (received env b maxlen (.success code data)).isSome ↔ Fits b.cells.length maxlen data := by
  rw [received]
  split <;> simp [*]

/-- A success is replied to exactly where its payload is taken. -/
theorem isSome_reply_success_iff (code : ℤ) {data : List Byte} :
    (c.reply env m r (.success code data)).isSome ↔ c.Takes env m r data := by
  have hfit (b : Block) (maxlen : ℤ) (f : Block → Result) :
      ((received env b maxlen (.success code data)).map f).isSome ↔
        Fits b.cells.length maxlen data := by
    rw [Option.isSome_map, isSome_received_iff]
  cases c with
  | read | getdents | fstat | stat | statfs | fstatfs | poll | epoll_wait | getsockname
  | getsockopt | lseek | select =>
    refine (hfit _ _ _).trans ?_
    rw [length_malloc]
    exact Iff.rfl
  | socketpair | pread64 =>
    refine (hfit _ _ _).trans ?_
    rw [length_memBlock]
    exact Iff.rfl
  | recvfrom =>
    rw [LindCall.reply, Option.isSome_map, Outcome.isSome_toOption_iff]
    exact returns_copyMultiLoop_iff _ _ _ _ _ _ _
  | _ => exact iff_of_true rfl trivial

/-! ### The buffers of the handlers -/

/-- The buffers a handler hands to its wrapper, as destinations of `ParseResponse`. The wrappers of
`lseek` and `select` have their payload copied to local variables of their own. -/
def LindCall.dests (env : Env) (m : ByteMemory) (r : SyscallArgs) : LindCall → List Dest
  | recvfrom => recvfromDests r
  | socketpair => [⟨.block (memBlock 0 m r.arg4 2), 8⟩]
  | pread64 => [⟨.block (memBlock 0 m r.arg2 (r.arg3.toNat / 8 + 1)), cInt r.arg3⟩]
  | c =>
    match c.output env m r with
    | some o => [⟨.block (malloc 0 o.size), o.limit⟩]
    | none => []

/-- Every copy of the payload to a buffer of the handler stays inside it. -/
def LindCall.CopiesInside (env : Env) (m : ByteMemory) (r : SyscallArgs) (data : List Byte)
    (c : LindCall) : Prop :=
  ∀ call ∈ copyCalls env (c.dests env m r).length data (c.dests env m r), StaysInside call

/-- What registers, memory and payload have to satisfy for that. -/
def LindCall.RoomFor (env : Env) (m : ByteMemory) (r : SyscallArgs) (data : List Byte)
    (c : LindCall) : Prop :=
  let n := wrapInt data.length
  match c with
  | read | getdents | pread64 => 0 ≤ n ∧ 0 ≤ cInt r.arg3
  | fstat | stat | statfs | fstatfs | epoll_wait | socketpair => 0 ≤ n
  | poll => Within sizeofPollfd (cInt (BitVec.ofNat 64 sizeofPollfd * r.arg2)) n
  | getsockname => Within sizeofSockaddr (socklenAt m r.arg3) n
  | getsockopt => Within sizeofSockaddr (ownSocklen env m r.arg5) n
  | recvfrom =>
    (2 ≤ n → 0 ≤ lengthAt (payloadAt env data) 1 ∧ 0 ≤ cInt r.arg3) ∧
      (3 ≤ n → Within r.arg6.toNat sizeofSockaddr (lengthAt (payloadAt env data) 2))
  | _ => True

theorem copyCalls_one (env : Env) (data : List Byte) (d : Dest) :
    copyCalls env 1 data [d] = [(d, wrapInt data.length)] := rfl

theorem copyCalls_three (env : Env) (data : List Byte) (varg : List Dest) :
    copyCalls env 3 data varg = (varg.take (wrapInt data.length).toNat).mapIdx
      fun i d ↦ (d, lengthAt (payloadAt env data) i) := rfl

/-- A buffer of a size that is also its limit. -/
theorem within_self_iff {size : ℕ} {n : ℤ} : Within size size n ↔ 0 ≤ n := by
  rw [Within]
  omega

/-- A buffer of `count` bytes, or some more, with the narrowed `count` for its limit. -/
theorem within_cInt_iff {size : ℕ} {count : Word} {n : ℤ} (h : count.toNat ≤ size) :
    Within size (cInt count) n ↔ 0 ≤ n ∧ 0 ≤ cInt count := by
  have hle : 0 ≤ cInt count → cInt count ≤ count.toNat := by
    rw [cInt, BitVec.toInt_setWidth, Int.bmod_def]
    split <;> omega
  rw [Within]
  omega

theorem copiesInside_single {b : Block} {limit : ℤ} (h : c.dests env m r = [⟨.block b, limit⟩])
    {data : List Byte} :
    c.CopiesInside env m r data ↔ Within b.cells.length limit (wrapInt data.length) := by
  rw [LindCall.CopiesInside, h, List.length_singleton, copyCalls_one, List.forall_mem_singleton,
    staysInside_block_iff]

theorem copiesInside_recvfrom {data : List Byte} :
    LindCall.CopiesInside env m r data .recvfrom ↔ LindCall.RoomFor env m r data .recvfrom := by
  rw [LindCall.CopiesInside, show (LindCall.dests env m r .recvfrom).length = 3 from rfl,
    copyCalls_three, LindCall.dests, recvfromDests, recvfromBuffers, LindCall.RoomFor]
  have hsecond : StaysInside (⟨.block (malloc 0 r.arg3.toNat), cInt r.arg3⟩,
      lengthAt (payloadAt env data) 1) ↔
        0 ≤ lengthAt (payloadAt env data) 1 ∧ 0 ≤ cInt r.arg3 := by
    rw [staysInside_block_iff, length_malloc, within_cInt_iff (le_refl _)]
  have hthird : StaysInside (⟨.block (malloc 1 r.arg6.toNat), sizeofSockaddr⟩,
      lengthAt (payloadAt env data) 2) ↔
        Within r.arg6.toNat sizeofSockaddr (lengthAt (payloadAt env data) 2) := by
    rw [staysInside_block_iff, length_malloc]
  -- the loop takes as many destinations as the payload has bytes
  generalize wrapInt data.length = n
  rcases hn : n.toNat with _ | _ | _ | k
  · exact iff_of_true (by simp) ⟨fun h ↦ by omega, fun h ↦ by omega⟩
  · refine iff_of_true ?_ ⟨fun h ↦ by omega, fun h ↦ by omega⟩
    simp [staysInside_foreign]
  · have h2 : 2 ≤ n := by omega
    have h3 : ¬ 3 ≤ n := by omega
    simp [staysInside_foreign, hsecond, h2, h3]
  · have h2 : 2 ≤ n := by omega
    have h3 : 3 ≤ n := by omega
    simp [staysInside_foreign, hsecond, hthird, h2, h3]

/-- **Destination bounds.** Every copy stays inside its buffer exactly where there is room. -/
theorem copiesInside_iff (c : LindCall) (env : Env) (m : ByteMemory) (r : SyscallArgs)
    (data : List Byte) : c.CopiesInside env m r data ↔ c.RoomFor env m r data := by
  cases c with
  | read | getdents =>
    refine (copiesInside_single rfl).trans ?_
    rw [length_malloc]
    exact within_cInt_iff (le_refl _)
  | pread64 =>
    refine (copiesInside_single rfl).trans ?_
    rw [length_memBlock]
    exact within_cInt_iff (by omega)
  | fstat | stat | statfs | fstatfs | epoll_wait =>
    refine (copiesInside_single rfl).trans ?_
    rw [length_malloc]
    exact within_self_iff
  | socketpair =>
    refine (copiesInside_single rfl).trans ?_
    rw [length_memBlock, Within]
    exact ⟨fun h ↦ h.1, fun h ↦ ⟨h, by decide, .inl (by decide)⟩⟩
  | poll | getsockname | getsockopt =>
    refine (copiesInside_single rfl).trans ?_
    rw [length_malloc]
    exact Iff.rfl
  | recvfrom => exact copiesInside_recvfrom
  | _ => exact iff_of_true (fun call h ↦ absurd h List.not_mem_nil) trivial

/-! ### Copies outside a buffer end the monitor -/

/-- A payload that fits all buffers is copied inside those of the handler. -/
theorem copiesInside_of_takes {data : List Byte} (h : c.Takes env m r data) :
    c.CopiesInside env m r data := by
  have hsingle {b : Block} {limit : ℤ} (hd : c.dests env m r = [⟨.block b, limit⟩])
      (hfits : Fits b.cells.length limit data) : c.CopiesInside env m r data :=
    (copiesInside_single hd).2 (copyLen_within_iff.1 hfits)
  cases c with
  | read | getdents | fstat | stat | statfs | fstatfs | poll | epoll_wait | getsockname
  | getsockopt =>
    refine hsingle rfl ?_
    rw [length_malloc]
    exact h
  | socketpair | pread64 =>
    refine hsingle rfl ?_
    rw [length_memBlock]
    exact h
  | recvfrom =>
    intro call hcall
    rw [show (LindCall.dests env m r .recvfrom).length = 3 from rfl, copyCalls_three,
      List.mem_mapIdx] at hcall
    obtain ⟨k, hk, rfl⟩ := hcall
    have hinside := PartsFit.staysInside h k _ (List.getElem?_eq_getElem hk)
    rwa [Nat.zero_add] at hinside
  | _ => exact (copiesInside_iff _ env m r data).2 trivial

/-- An emulation that goes on after a success has made no copy outside a buffer. -/
theorem copiesInside_of_isSome_reply {code : ℤ} {data : List Byte}
    (h : (c.reply env m r (.success code data)).isSome) : c.CopiesInside env m r data :=
  copiesInside_of_takes ((isSome_reply_success_iff code).1 h)

end Reply

/-- `poll` with two entries: the handler has allocated one. -/
theorem not_copiesInside : ¬ ∀ (c : LindCall) (env : Env) (m : ByteMemory) (r : SyscallArgs)
    (data : List Byte), c.CopiesInside env m r data := by
  intro h
  have hroom := (copiesInside_single rfl).1
    (h .poll Env.blank zeroMemory (argsOf ⟨7, 0, 0, 2, 0, 0, 0, 0, []⟩) (List.replicate 16 0))
  exact absurd hroom (by decide)

end ReferenceMonitor
