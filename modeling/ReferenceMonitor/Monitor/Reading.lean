import Mathlib.Algebra.BigOperators.Group.Finset.Basic
import ReferenceMonitor.Library.Endurance
import ReferenceMonitor.Monitor.Judgements
import ReferenceMonitor.Monitor.Replies
import ReferenceMonitor.Monitor.Walks
import ReferenceMonitor.Platform.Forms

/-!
# Where reading code returns

Before it asks Lind, a handler reads: the tracee's memory word by word, and now and then, through an
address that is none of its own, the monitor's memory. Each piece of reading code returns exactly
under a condition on the tracee's memory, the registers and what the monitor has mapped, and the
conditions are listed here.

Reading a word of the tracee never fails: what cannot be read is all ones. So the conditions come
from the loops that look for a zero, from the `int`s that count, and from the loads in the wrong
address space.
-/

namespace ReferenceMonitor

open Halting

/-- The monitor has memory of its own at an address, for `n` bytes. -/
def Env.Owns (env : Env) (a : Word) (n : ℕ) : Prop :=
  ∀ i < n, (env.own (a + BitVec.ofNat 64 i)).isSome

/-- An address that a Python format takes for a string of `n` bytes, or for a C string where `n` is
negative: a null pointer, or one at which the monitor has such a string. -/
def Env.OwnsString (env : Env) (a : Word) (n : ℤ) : Prop :=
  a = 0 ∨ if 0 ≤ n then env.Owns a n.toNat else (env.ownString a).isSome

/-- A count of bytes whose words an `int` counts. -/
def CountFits (count : Word) : Prop := count.toNat / 8 + 1 < 2 ^ 31

instance (count : Word) : Decidable (CountFits count) := inferInstanceAs (Decidable (_ < _))

section Reading

variable {env : Env} {m : ByteMemory}

/-! ### Addresses and counts -/

theorem returnsIff_getMem (number : ℕ) (addr count : Word) :
    ReturnsIff (env, m) (CountFits count) (getMem number addr count) :=
  getMem_returns_iff number addr count env m

theorem returnsIff_getPath (addr : Word) : ReturnsIff (env, m) (PathEnds m addr) (getPath addr) :=
  getPath_returns_iff addr env m

/-- A read of a fixed size. -/
theorem returnsIff_getMem_of_fits (number : ℕ) (addr : Word) {count : Word} (h : CountFits count) :
    ReturnsIff (env, m) True (getMem number addr count) :=
  (returnsIff_getMem number addr count).congr (iff_true_intro h)

theorem returnsIff_loadOwn (a : Word) (n : ℕ) :
    ReturnsIff (env, m) (env.Owns a n) (loadOwn a n) := by
  have hload : (((List.range n).mapM fun i ↦ env.own (a + BitVec.ofNat 64 i)).isSome) ↔
      env.Owns a n := by
    rw [isSome_mapM_iff]
    simp only [List.mem_range, Env.Owns]
  refine returnsIff_ask_bind fun log ↦ ?_
  rw [← hload]
  dsimp only
  cases (List.range n).mapM fun i ↦ env.own (a + BitVec.ofNat 64 i) with
  | some bytes => exact iff_of_true trivial rfl
  | none => exact iff_of_false id (by simp)

theorem returnsIff_loadForeign (a : Word) (n : ℕ) :
    ReturnsIff (env, m) (env.Owns a n) (loadForeign a n) :=
  (returnsIff_modify _).true_bind fun _ ↦ returnsIff_loadOwn a n

theorem returnsIff_stringOwn (a : Word) :
    ReturnsIff (env, m) (env.ownString a).isSome (stringOwn a) := by
  refine returnsIff_ask_bind fun log ↦ ?_
  dsimp only
  cases env.ownString a with
  | some bytes => exact iff_of_true trivial rfl
  | none => exact iff_of_false id (by simp)

/-- An object of the monitor can always be read. -/
theorem returnsIff_pyBytes_block (b : Block) (n : ℤ) :
    ReturnsIff (env, m) True (pyBytes (.block b) n) :=
  returnsIff_ask_bind ((ReturnsIff.ite (fun _ ↦ returnsIff_pure _) fun _ ↦ returnsIff_pure _).congr
    (Iff.of_eq (ite_id _)))

theorem returnsIff_pyBytes_stray (a : Word) (n : ℤ) :
    ReturnsIff (env, m) (env.OwnsString a n) (pyBytes (.stray a) n) := by
  refine returnsIff_ask_bind (ReturnsIff.congr (ReturnsIff.ite (fun _ ↦ returnsIff_pure _) fun _ ↦
    ReturnsIff.ite (fun _ ↦ (returnsIff_loadOwn a n.toNat).bind_pure _) fun _ ↦
      (returnsIff_stringOwn a).bind_pure _) ?_)
  rw [Env.OwnsString]
  by_cases hnull : a = 0
  · rw [if_pos hnull]
    exact iff_of_true trivial (.inl hnull)
  · rw [if_neg hnull]
    exact (or_iff_right hnull).symm

theorem returnsIff_derefSocklen_foreign (a : Word) :
    ReturnsIff (env, m) (env.Owns a 4) (derefSocklen (.foreign a)) :=
  (returnsIff_loadForeign a 4).bind_pure _

theorem returnsIff_lindFcntl (fd cmd : ℤ) :
    ReturnsIff (env, m) (cmd = 6 → env.OwnsString env.vararg sizeofFlock) (lindFcntl fd cmd) := by
  refine returnsIff_ask_bind (ReturnsIff.congr (ReturnsIff.ite (fun _ ↦ returnsIff_pure _) fun _ ↦
    ReturnsIff.ite (fun _ ↦ (returnsIff_pyBytes_stray _ _).bind_pure _) fun _ ↦
      returnsIff_pure _) ?_)
  split
  · rename_i hdup
    exact iff_of_true trivial fun h ↦ absurd (hdup.symm.trans h) (by decide)
  · split
    · rename_i hlock
      exact (imp_iff_right hlock).symm
    · rename_i hlock
      exact iff_of_true trivial fun h ↦ absurd h hlock

/-! ### Messages -/

/-- Where the copies of element `i` of a vector begin: behind the lengths before it. -/
def packedTo (env : Env) (iov : Block) (i : ℕ) : ℤ :=
  ∑ j ∈ Finset.range i, cInt (iovLen env iov j)

theorem packedTo_succ (iov : Block) (i : ℕ) :
    packedTo env iov (i + 1) = packedTo env iov i + cInt (iovLen env iov i) :=
  Finset.sum_range_succ _ _

/-- The copies of element `i` are made: it is empty, or its buffer can be read, and all copies of it
stay inside a buffer of `size` bytes. -/
def CopiesElement (env : Env) (iov : Block) (size known i : ℕ) : Prop :=
  let len := iovLen env iov i
  0 < cInt len → (i < known ∨ env.Owns (iov.wordAt env (16 * i)) len.toNat) ∧
    0 ≤ packedTo env iov i ∧ packedTo env iov i + (cInt len - 1) + len.toNat ≤ size

/-- A vector that `lind_sendmsg` and `lind_recvmsg` get through. They go as far as the length of the
first element says. -/
structure Packs (env : Env) (iov : Block) (iovlen : Word) : Prop where
  ends : (iovLen env iov 0).toNat < 2 ^ 32
  sums : ∀ i < (iovLen env iov 0).toNat, IsInt (packedTo env iov (i + 1))
  copies : ∀ i < (iovLen env iov 0).toNat, CopiesElement env iov
    (ofInt (packedTo env iov (iovLen env iov 0).toNat)).toNat iovlen.toNat i

theorem totalLength_eq_ok_iff (iov : Block) (n : ℕ) (total : ℤ) :
    totalLength (fun i ↦ cInt (iovLen env iov i)) n = .ok total ↔
      total = packedTo env iov n ∧ ∀ i < n, IsInt (packedTo env iov (i + 1)) := by
  induction n generalizing total with
  | zero =>
    rw [totalLength, packedTo, Finset.sum_range_zero]
    constructor
    · rintro ⟨⟩
      exact ⟨rfl, fun i hi ↦ absurd hi (Nat.not_lt_zero i)⟩
    · rintro ⟨rfl, -⟩
      rfl
  | succ n ih =>
    rw [totalLength]
    constructor
    · intro h
      cases ht : totalLength (fun i ↦ cInt (iovLen env iov i)) n with
      | error e =>
        rw [ht] at h
        cases h
      | ok t =>
        rw [ht] at h
        obtain ⟨rfl, hbefore⟩ := (ih t).1 ht
        change (if _ then _ else _) = _ at h
        split_ifs at h with hout
        cases h
        rw [← packedTo_succ] at hout ⊢
        refine ⟨rfl, fun i hi ↦ ?_⟩
        rcases Nat.lt_succ_iff_lt_or_eq.1 hi with hlt | rfl
        · exact hbefore i hlt
        · exact ⟨by omega, by omega⟩
    · rintro ⟨rfl, hall⟩
      rw [(ih _).2 ⟨rfl, fun i hi ↦ hall i (by omega)⟩]
      have hlast := hall n (Nat.lt_succ_self n)
      rw [packedTo_succ] at hlast ⊢
      exact if_neg (by have := hlast.1; have := hlast.2; omega)

/-- The second loop, from element `i` on. -/
theorem returnsIff_concatLoop (iov : Block) (size known rounds i : ℕ) :
    ReturnsIff (env, m) (∀ k < rounds, CopiesElement env iov size known (i + k))
      (concatLoop iov size known rounds i (packedTo env iov i)) := by
  induction rounds generalizing i with
  | zero => exact (returnsIff_pure _).congr (iff_of_true trivial fun k hk ↦ absurd hk (by omega))
  | succ rounds ih =>
    -- the first round, and those after it
    have hsplit : (∀ k < rounds + 1, CopiesElement env iov size known (i + k)) ↔
        CopiesElement env iov size known i ∧
          ∀ k < rounds, CopiesElement env iov size known (i + 1 + k) := by
      constructor
      · intro h
        refine ⟨h 0 (by omega), fun k hk ↦ ?_⟩
        rw [show i + 1 + k = i + (k + 1) by omega]
        exact h (k + 1) (by omega)
      · rintro ⟨hfirst, hrest⟩ k hk
        cases k with
        | zero => exact hfirst
        | succ k =>
          rw [show i + (k + 1) = i + 1 + k by omega]
          exact hrest k (by omega)
    have hrest := ih (i + 1)
    rw [packedTo_succ] at hrest
    have hcopy : ReturnsIff (env, m)
        (0 ≤ packedTo env iov i ∧ packedTo env iov i + (cInt (iovLen env iov i) - 1) +
          (iovLen env iov i).toNat ≤ size ∧
            ∀ k < rounds, CopiesElement env iov size known (i + 1 + k))
        (if 0 ≤ packedTo env iov i ∧ packedTo env iov i + (cInt (iovLen env iov i) - 1) +
            (iovLen env iov i).toNat ≤ size then
          concatLoop iov size known rounds (i + 1)
            (packedTo env iov i + cInt (iovLen env iov i))
        else stop .corrupt) := by
      refine (ReturnsIff.ite (fun _ ↦ hrest) fun _ ↦ returnsIff_stop _).congr ?_
      split
      · rename_i hinside
        exact ⟨fun h ↦ ⟨hinside.1, hinside.2, h⟩, fun h ↦ h.2.2⟩
      · rename_i houtside
        exact iff_of_false id fun h ↦ houtside ⟨h.1, h.2.1⟩
    rw [concatLoop]
    refine returnsIff_ask_bind (ReturnsIff.congr (ReturnsIff.ite (fun _ ↦ hrest) fun _ ↦
      ReturnsIff.ite (fun _ ↦ hcopy) fun _ ↦ (returnsIff_loadOwn _ _).bind fun _ _ _ _ ↦ hcopy) ?_)
    rw [hsplit, CopiesElement]
    split
    · rename_i hempty
      exact (and_iff_right fun h ↦ absurd h (by omega)).symm
    · rename_i hfull
      rw [forall_prop_of_true (show 0 < cInt (iovLen env iov i) by omega)]
      split
      · rename_i hknown
        simp only [hknown, true_or, true_and, and_assoc]
      · rename_i hunknown
        simp only [hunknown, false_or, and_assoc]

theorem returnsIff_packIov (iov : Block) (iovlen : Word) :
    ReturnsIff (env, m) (Packs env iov iovlen) (packIov iov iovlen) := by
  rw [packIov]
  refine returnsIff_ask_bind ?_
  dsimp only
  by_cases hends : (iovLen env iov 0).toNat < 2 ^ 32
  · rw [if_neg (by omega)]
    cases ht : totalLength (fun i ↦ cInt (iovLen env iov i)) (iovLen env iov 0).toNat with
    | error e =>
      refine (returnsIff_stop e).congr (iff_of_false id fun h ↦ ?_)
      rw [(totalLength_eq_ok_iff iov _ _).2 ⟨rfl, h.sums⟩] at ht
      cases ht
    | ok total =>
      obtain ⟨rfl, hsums⟩ := (totalLength_eq_ok_iff iov _ total).1 ht
      have hloop : ReturnsIff (env, m) _ (concatLoop iov
          (ofInt (packedTo env iov (iovLen env iov 0).toNat)).toNat iovlen.toNat
          (iovLen env iov 0).toNat 0 (packedTo env iov 0)) := returnsIff_concatLoop _ _ _ _ _
      simp only [Nat.zero_add] at hloop
      exact (hloop.bind_pure _).congr ⟨fun h ↦ ⟨hends, hsums, h⟩, Packs.copies⟩
  · rw [if_pos (by omega)]
    exact (returnsIff_stop _).congr (iff_of_false id fun h ↦ hends h.ends)

theorem returnsIff_msgRequest (num : ℕ) (sockfd : ℤ) (msg : MsgHdr) (flags : ℤ) :
    ReturnsIff (env, m) (Packs env msg.iov msg.iovlen ∧ env.OwnsString msg.controllen msg.flags)
      (msgRequest num sockfd msg flags) := by
  refine returnsIff_ask_bind ((returnsIff_packIov _ _).bind fun final _ _ _ ↦ ?_)
  exact (returnsIff_pyBytes_block _ _).true_bind fun name ↦
    (returnsIff_pyBytes_stray _ _).bind_pure _

/-- The header, as `monitor_recvmsg` and `monitor_sendmsg` copy it. -/
def hdrBlock (m : ByteMemory) (r : SyscallArgs) : Block := memBlock 0 m r.arg2 8

/-- The address of the vector is found in the monitor's own memory, and an `int` counts the words
that are read there. -/
def VectorReadable (env : Env) (m : ByteMemory) (r : SyscallArgs) : Prop :=
  env.Owns ((hdrBlock m r).wordAt env 16) 8 ∧
    CountFits (BitVec.ofNat 64 sizeofIovec * (hdrBlock m r).wordAt env 24)

theorem returnsIff_readMsghdr (r : SyscallArgs) :
    ReturnsIff (env, m) (VectorReadable env m r) (readMsghdr r) := by
  have hhdr (log : List Word) : getMem 0 r.arg2 (BitVec.ofNat 64 sizeofMsghdr) (env, m) log =
      .done (hdrBlock m r) log := getMem_apply (by decide) env m log
  intro log
  rw [readMsghdr, bind_apply, hhdr, Outcome.andThen_done]
  exact returnsIff_ask_bind ((returnsIff_loadForeign _ _).bind fun base _ _ _ ↦
    (returnsIff_getMem _ _ _).bind_pure _) log

/-- The addresses it has noted so far make no difference to reading code. -/
theorem fetches_anyLog : Fetches fun _ q ↦ Respects (fun _ ↦ True) (fun _ _ ↦ True) q where
  toCompositional := compositional_respects _ _
  note _ := respects_modify fun _ _ _ ↦ trivial
  fault _ := respects_stop _

/-- The header that was read. -/
theorem eq_msgView {r : SyscallArgs} {v : MsgView} {log log' : List Word}
    (h : readMsghdr r (env, m) log = .done v log') : v = msgView env m r := by
  have hsame : Alike (fun _ _ ↦ True) Eq (readMsghdr r (env, m) log)
      (readMsghdr r (env, m) []) := fetches_readMsghdr fetches_anyLog r ⟨rfl, trivial⟩ trivial
  rw [h] at hsame
  rw [msgView]
  cases hnil : readMsghdr r (env, m) [] with
  | done v' t =>
    rw [hnil] at hsame
    cases hsame with
    | done hv _ => exact hv
  | halt e t =>
    rw [hnil] at hsame
    cases hsame

theorem returnsIff_readMsghdr_bind {α : Type} {r : SyscallArgs} {f : MsgView → Fetch α} {P : Prop}
    (hf : ReturnsIff (env, m) P (f (msgView env m r))) :
    ReturnsIff (env, m) (VectorReadable env m r ∧ P) (readMsghdr r >>= f) :=
  (returnsIff_readMsghdr r).bind fun v _ _ hv ↦ by rwa [eq_msgView hv]

/-- The vector is read as far as the header says. -/
theorem vector_of_readMsghdr {r : SyscallArgs} {v : MsgView} {log log' : List Word}
    (h : readMsghdr r (env, m) log = .done v log') :
    v.iovlen = (hdrBlock m r).wordAt env 24 ∧
      v.iovs.cells.length = 8 * ((BitVec.ofNat 64 sizeofIovec * v.iovlen).toNat / 8 + 1) := by
  rw [readMsghdr, bind_apply, getMem_apply (by decide), Outcome.andThen_done, bind_apply, ask_apply,
    Outcome.andThen_done] at h
  obtain ⟨base, t, -, h⟩ := Outcome.andThen_eq_done_iff.1 h
  obtain ⟨iovs, t', hiovs, h⟩ := Outcome.andThen_eq_done_iff.1 h
  cases h
  refine ⟨rfl, ?_⟩
  have hfits := (returnsIff_getMem 1 _ _ t).1 (Outcome.returns_iff.2 ⟨iovs, _, hiovs⟩)
  rw [getMem_apply hfits] at hiovs
  cases hiovs
  exact length_memBlock ..

/-- The vector with the addresses of the monitor's own buffers in it. -/
def patched (env : Env) (iovs : Block) (n : ℕ) : Block :=
  { iovs with
    cells := iovs.cells.mapIdx fun o c ↦
      if o / 16 < n ∧ o % 16 < 8 then .stored (byteOf (env.heapAddr (6 + o / 16)) (o % 16)) else c }

/-- What the wrapper gets, and with it the conditions on what it does. -/
theorem returnsIff_handOn_bind {α : Type} {v : MsgView} {f : MsgHdr → Fetch α} {P : Prop}
    (hf : ∀ msg : MsgHdr, msg.iov = patched env v.iovs v.iovlen.toNat → msg.iovlen = v.iovlen →
      msg.controllen = v.controllen → msg.flags = v.flags → ReturnsIff (env, m) P (f msg)) :
    ReturnsIff (env, m) (16 * v.iovlen.toNat ≤ v.iovs.cells.length + 8 ∧ P) (handOn v >>= f) := by
  intro log
  rw [handOn, bind_apply, bind_apply, ask_apply, Outcome.andThen_done]
  dsimp only
  rw [bind_apply, patchBases, ite_run]
  split
  · rename_i hout
    exact iff_of_false id fun h ↦ by omega
  · rename_i hroom
    refine (hf _ rfl rfl rfl rfl log).trans (and_iff_right ?_).symm
    omega

/-- A message whose header, vector and control data are read without a fault: the address of the
vector and the control data are looked for in the monitor's own memory, the lengths are counted by
`int`s, and the vector is gone through as the wrapper does. -/
structure MsgReadable (env : Env) (m : ByteMemory) (r : SyscallArgs) : Prop where
  header : env.Owns ((hdrBlock m r).wordAt env 16) 8
  count : ((hdrBlock m r).wordAt env 24).toNat < 2 ^ 30
  packs : Packs env (patched env (msgView env m r).iovs (msgView env m r).iovlen.toNat)
    (msgView env m r).iovlen
  control : env.OwnsString (msgView env m r).controllen (msgView env m r).flags

/-- The data of the vector, as `monitor_sendmsg` reads it. -/
def DataFits (env : Env) (v : MsgView) (n : ℕ) : Prop := ∀ i < n, CountFits (iovLen env v.iovs i)

/-- The vector is read whole and there is room for the new addresses exactly where an `int` counts
its words: elsewhere the number of its bytes overflows, or the number of its words. -/
theorem vectorRead_iff (r : SyscallArgs) :
    VectorReadable env m r ∧
        16 * (msgView env m r).iovlen.toNat ≤ (msgView env m r).iovs.cells.length + 8 ↔
      env.Owns ((hdrBlock m r).wordAt env 16) 8 ∧
        ((hdrBlock m r).wordAt env 24).toNat < 2 ^ 30 := by
  have hbytes (w : Word) : (BitVec.ofNat 64 sizeofIovec * w).toNat = 16 * w.toNat % 2 ^ 64 := by
    rw [BitVec.toNat_mul]
    rfl
  have hread (h : VectorReadable env m r) :
      (msgView env m r).iovlen = (hdrBlock m r).wordAt env 24 ∧
        (msgView env m r).iovs.cells.length =
          8 * (16 * ((hdrBlock m r).wordAt env 24).toNat % 2 ^ 64 / 8 + 1) := by
    obtain ⟨v, t, hv⟩ := Outcome.returns_iff.1 ((returnsIff_readMsghdr r []).2 h)
    obtain ⟨hlen, hcells⟩ := vector_of_readMsghdr hv
    rw [hlen, hbytes] at hcells
    rw [← eq_msgView hv]
    exact ⟨hlen, hcells⟩
  constructor
  · rintro ⟨h, hroom⟩
    obtain ⟨hlen, hcells⟩ := hread h
    have hcount := h.2
    rw [hlen, hcells] at hroom
    rw [CountFits, hbytes] at hcount
    exact ⟨h.1, by omega⟩
  · rintro ⟨howns, hcount⟩
    have h : VectorReadable env m r := by
      refine ⟨howns, ?_⟩
      rw [CountFits, hbytes]
      omega
    obtain ⟨hlen, hcells⟩ := hread h
    rw [hlen, hcells]
    exact ⟨h, by omega⟩

theorem msgReadable_iff (r : SyscallArgs) :
    VectorReadable env m r ∧
        16 * (msgView env m r).iovlen.toNat ≤ (msgView env m r).iovs.cells.length + 8 ∧
          Packs env (patched env (msgView env m r).iovs (msgView env m r).iovlen.toNat)
            (msgView env m r).iovlen ∧
            env.OwnsString (msgView env m r).controllen (msgView env m r).flags ↔
      MsgReadable env m r := by
  rw [← and_assoc, vectorRead_iff]
  exact ⟨fun ⟨⟨howns, hcount⟩, hpacks, hcontrol⟩ ↦ ⟨howns, hcount, hpacks, hcontrol⟩,
    fun h ↦ ⟨⟨h.header, h.count⟩, h.packs, h.control⟩⟩

theorem returnsIff_fetchData (v : MsgView) (n : ℕ) :
    ReturnsIff (env, m) (DataFits env v n) (fetchData v n) := by
  induction n with
  | zero => exact (returnsIff_pure _).congr (iff_of_true trivial fun i hi ↦ absurd hi (by omega))
  | succ n ih =>
    refine (ih.bind fun _ _ _ _ ↦
      returnsIff_ask_bind ((returnsIff_getMem _ _ _).bind_pure _)).congr ?_
    exact Nat.forall_lt_succ_right.symm

/-- What `monitor_recvmsg` hands on, after it has read the header. -/
theorem returnsIff_lindRecvmsg (sockfd flags : ℤ) (v : MsgView) :
    ReturnsIff (env, m) (16 * v.iovlen.toNat ≤ v.iovs.cells.length + 8 ∧
        Packs env (patched env v.iovs v.iovlen.toNat) v.iovlen ∧
          env.OwnsString v.controllen v.flags)
      (do lindRecvmsg sockfd (← handOn v) flags) := by
  refine returnsIff_handOn_bind fun msg hiov hlen hcontrol hflags ↦ ?_
  rw [← hiov, ← hlen, ← hcontrol, ← hflags]
  exact returnsIff_msgRequest _ _ _ _

/-- The reading code of `monitor_sendmsg`. -/
theorem returnsIff_lindSendmsg (sockfd flags : ℤ) (r : SyscallArgs) :
    ReturnsIff (env, m) (MsgReadable env m r ∧
        DataFits env (msgView env m r) (msgView env m r).iovlen.toNat)
      (do
        let v ← readMsghdr r
        let msg ← handOn v
        fetchData v v.iovlen.toNat
        lindSendmsg sockfd msg flags) := by
  have hrest (v : MsgView) : ReturnsIff (env, m) (16 * v.iovlen.toNat ≤ v.iovs.cells.length + 8 ∧
      DataFits env v v.iovlen.toNat ∧ Packs env (patched env v.iovs v.iovlen.toNat) v.iovlen ∧
        env.OwnsString v.controllen v.flags)
      (do
        let msg ← handOn v
        fetchData v v.iovlen.toNat
        lindSendmsg sockfd msg flags) := by
    refine returnsIff_handOn_bind fun msg hiov hlen hcontrol hflags ↦ ?_
    rw [← hiov, ← hlen, ← hcontrol, ← hflags]
    exact (returnsIff_fetchData v _).bind fun _ _ _ _ ↦ returnsIff_msgRequest _ _ _ _
  refine (returnsIff_readMsghdr_bind (hrest _)).congr ?_
  rw [← msgReadable_iff]
  tauto

/-! ### `execve` -/

/-- What `monitor_execve` reads. -/
theorem returnsIff_execve (r : SyscallArgs) :
    ReturnsIff (env, m) (PathEnds m r.arg1 ∧ ArgvEnds m r.arg2) (do
      let _ ← getPath r.arg1
      let argc ← argvCount r.arg2 (2 ^ 31 - 1) 0
      argvPaths r.arg2 argc) :=
  (returnsIff_getPath _).bind fun _ _ _ _ ↦ argvWalk_returns_iff r.arg2 env m

end Reading

end ReferenceMonitor
