import ReferenceMonitor.Monitor.Destinations
import ReferenceMonitor.System.Arguments
import ReferenceMonitor.System.Waiting

/-!
# Event records: `epoll_wait` and `epoll_ctl`

`monitor_epoll_wait` allocates one event record and copies one back, whatever the number of records
that Lind answers with. `monitor_epoll_ctl` fetches the tracee's record for Lind, and then copies
back a record of its own, which nothing has filled.
-/

namespace ReferenceMonitor

open Halting

/-! ### One record -/

/-- What is copied of some records, one record and no more, leaves all of them in the array, and
nothing else: an `int` counts their bytes; where it counts none, the record that is copied anyway
cannot be written; and what is not copied is there already. -/
structure RecordsKept (m : ByteMemory) (addr : Word) (data : List Byte) : Prop where
  nonneg : 0 ≤ wrapInt data.length
  first : wrapInt data.length = 0 → ∀ i < 2, ¬ m.Pokeable (wordAddr addr (i : ℕ))
  rest : ∀ k < data.length,
    (k < sizeofEpollEvent → ¬ m.Pokeable (wordAddr addr (k / 8 : ℕ))) →
    m.byte (addr + BitVec.ofNat 64 k) = some (data.getD k 0)

section Records

variable {m : ByteMemory} {addr : Word} {data : List Byte}

/-- The length of whole records, as an `int`. -/
theorem wrapInt_length_records (h : data.length % sizeofEpollEvent = 0) :
    wrapInt data.length % sizeofEpollEvent = 0 ∧
      (wrapInt data.length ≠ 0 → sizeofEpollEvent ≤ data.length) := by
  rw [sizeofEpollEvent] at h ⊢
  rw [wrapInt, BitVec.toInt_ofInt, Int.bmod_def]
  split <;> omega

/-- The buffer of one record takes what an `int` counts. -/
theorem received_record_iff {env : Env} {code : ℤ} :
    (∃ b, received env (malloc 0 sizeofEpollEvent) sizeofEpollEvent (.success code data) = some b) ↔
      0 ≤ wrapInt data.length := by
  rw [← Option.isSome_iff_exists, isSome_received_iff, length_malloc, Fits, copyLen_within_iff,
    within_self_iff]

/-- It holds the first record, or where there is none, what it held before. -/
theorem byteAt_received_record {env : Env} {code : ℤ} {b : Block}
    (hb : received env (malloc 0 sizeofEpollEvent) sizeofEpollEvent (.success code data) = some b)
    (hwhole : data.length % sizeofEpollEvent = 0) {k : ℕ} (hk : k < sizeofEpollEvent) :
    b.byteAt env k = if wrapInt data.length = 0 then env.heap 0 k else data.getD k 0 := by
  have hnonneg := received_record_iff.1 ⟨b, hb⟩
  obtain ⟨hmod, hlen⟩ := wrapInt_length_records hwhole
  rw [byteAt_received_copied hb, byteAt_malloc env 0 hk, copyLen]
  rw [sizeofEpollEvent] at hk hmod hlen ⊢
  rcases eq_or_ne (wrapInt data.length) 0 with hzero | hne
  · rw [if_pos hzero, if_neg (by split <;> omega)]
  · have hlt : k < data.length := hk.trans_le (hlen hne)
    rw [if_neg hne, if_pos (by split <;> omega), payloadAt, if_pos (by omega), Int.toNat_natCast]

/-- A copy of whole words leaves the data in its place, and nothing else, byte by byte. -/
theorem writeMem_eq_overwritten_iff {env : Env} {b : Block} {count : Word}
    (h : count.toNat / 8 < 2 ^ 31) (hwhole : count.toNat % 8 = 0) :
    writeMem m addr (b.wordAt env) count = overwritten m addr data ↔ ∀ k < 2 ^ 64,
      (if k < count.toNat ∧ m.Pokeable (wordAddr addr (k / 8 : ℕ)) then
        some (b.byteAt env (k : ℕ)) else m.byte (addr + BitVec.ofNat 64 k)) =
      if k < data.length then some (data.getD k 0) else m.byte (addr + BitVec.ofNat 64 k) := by
  rw [eq_overwritten_iff (sameMap_writeMem m addr _ count)]
  refine forall₂_congr fun k hk ↦ ?_
  rw [byte_writeMem_whole h hwhole env b]
  simp only [InRange, toNat_add_sub_self addr hk]

/-- A record copied from a buffer that holds the first one of the data, or what it held before. -/
theorem forall_record_iff {env : Env} {b : (ℕ → ℕ → Byte) → Block}
    (hsize : data.length < 2 ^ 64) (hwhole : data.length % sizeofEpollEvent = 0)
    (hnonneg : 0 ≤ wrapInt data.length)
    (hb : ∀ heap, ∀ k < sizeofEpollEvent, (b heap).byteAt (env.withHeap heap) (k : ℕ) =
      if wrapInt data.length = 0 then heap 0 k else data.getD k 0) :
    (∀ heap, writeMem m addr ((b heap).wordAt (env.withHeap heap))
        (BitVec.ofNat 64 sizeofEpollEvent) = overwritten m addr data) ↔
      RecordsKept m addr data := by
  have hsame (heap : ℕ → ℕ → Byte) :
      writeMem m addr ((b heap).wordAt (env.withHeap heap)) (BitVec.ofNat 64 sizeofEpollEvent) =
        overwritten m addr data ↔ _ := writeMem_eq_overwritten_iff (by decide) rfl
  have hcount : (BitVec.ofNat 64 sizeofEpollEvent).toNat = sizeofEpollEvent := rfl
  simp only [hsame, hcount]
  constructor
  · intro hall
    refine ⟨hnonneg, fun hzero i hi hpoke ↦ ?_, fun k hk hno ↦ ?_⟩
    · -- a byte of the record that nothing has filled can be any
      have hin : 8 * i < sizeofEpollEvent := by
        rw [sizeofEpollEvent]
        omega
      have hany (β : Byte) := hall (fun _ _ ↦ β) (8 * i) (by omega)
      simp only [hin, hb _ _ hin, hzero, if_true, true_and, show 8 * i / 8 = i by omega, hpoke]
        at hany
      exact absurd ((hany 0).trans (hany 1).symm) (by decide)
    · have hx := hall (fun _ _ ↦ 0) k (by omega)
      rwa [if_neg fun h ↦ hno h.1 h.2, if_pos hk] at hx
  · rintro ⟨-, hfirst, hrest⟩ heap k -
    split
    · rename_i hx
      obtain ⟨hin, hpoke⟩ := hx
      have hne : wrapInt data.length ≠ 0 := fun hzero ↦
        hfirst hzero (k / 8) (by rw [sizeofEpollEvent] at hin; omega) hpoke
      have hlen := (wrapInt_length_records hwhole).2 hne
      rw [hb heap k hin, if_neg hne, if_pos (by omega)]
    · rename_i hx
      split
      · exact hrest k ‹_› fun hin hpoke ↦ hx ⟨hin, hpoke⟩
      · rfl

/-- One record arrives in an array that can be written. -/
theorem recordsKept_one (hlen : data.length = sizeofEpollEvent)
    (h : WritableRange m addr (BitVec.ofNat 64 sizeofEpollEvent)) : RecordsKept m addr data := by
  have hwrap : wrapInt data.length = sizeofEpollEvent := by
    rw [hlen]
    rfl
  refine ⟨by rw [hwrap]; decide, fun hzero ↦ ?_, fun k hk hno ↦ ?_⟩
  · rw [hwrap] at hzero
    exact absurd hzero (by decide)
  · rw [hlen] at hk
    refine absurd (h.pokeable ?_) (hno hk)
    rw [sizeofEpollEvent] at hk
    show k / 8 < 2
    omega

end Records

/-! ### `epoll_wait` -/

/-- What `epoll_wait` asks. -/
def epollWaitRequest (r : UserRegs) : Request :=
  lindEpollWait (cInt r.rdi) (cInt r.rdx) (cInt r.r10)

section Wait

variable {env : Env} {w : World} {t : Tracee} {resp : Response} {code : ℤ} {data : List Byte}

/-- The records of an answer arrive where one is enough for them, and nowhere else. -/
theorem epollWait_delivers_iff (hflag : w.entering = false)
    (hl : env.lind (epollWaitRequest t.regs :: w.requests) = some resp)
    (hjudge : judge resp = .success code data) (hsize : data.length < 2 ^ 64)
    (hwhole : data.length % sizeofEpollEvent = 0) :
    DeliversExactly .epoll_wait env w t data ↔ RecordsKept t.mem t.regs.rsi data := by
  let o := structOutput sizeofEpollEvent t.regs.rsi
  have hfill : LindCall.epoll_wait.emulation (argsOf t.regs) =
      fill o fun _ ↦ pure (epollWaitRequest t.regs) := rfl
  rcases lt_or_ge (wrapInt data.length) 0 with hneg | hnonneg
  · -- a negative length is too long for the record
    refine iff_of_false (fun h ↦ ?_) fun h ↦ not_le.2 hneg h.nonneg
    have hb : received env (malloc 0 o.size) o.limit (judge resp) = none := by
      rw [hjudge]
      exact Option.eq_none_iff_forall_ne_some.2 fun b hb ↦
        not_le.2 hneg (received_record_iff.1 ⟨b, hb⟩)
    obtain ⟨w', hrun, -⟩ := h env.heap
    obtain ⟨u, hu⟩ := emulated_fill_corrupt hfill hflag rfl hl hb
    cases hrun.symm.trans hu
  · have hrun (heap : ℕ → ℕ → Byte) : ∃ (w' : World) (b : Block),
        emulated LindCall.epoll_wait.emulation (env.withHeap heap) (w.atStop t) = .done () w' ∧
        w'.tracee.mem = writeMem t.mem t.regs.rsi (b.wordAt (env.withHeap heap)) o.count ∧
        ∀ k < sizeofEpollEvent, b.byteAt (env.withHeap heap) (k : ℕ) =
          if wrapInt data.length = 0 then heap 0 k else data.getD k 0 := by
      obtain ⟨b, hb⟩ : ∃ b, received (env.withHeap heap) (malloc 0 o.size) o.limit
          (.success code data) = some b := received_record_iff.2 hnonneg
      have hl' : (env.withHeap heap).lind (epollWaitRequest t.regs :: w.requests) = some resp := hl
      obtain ⟨w', hdone, htracee, -⟩ := emulated_fill (by decide) hfill hflag rfl hl' (hjudge ▸ hb)
      exact ⟨w', b, hdone, by rw [htracee]; rfl, fun k hk ↦ byteAt_received_record hb hwhole hk⟩
    choose w' b hdone hmem hbyte using hrun
    rw [← forall_record_iff hsize hwhole hnonneg hbyte]
    exact forall_congr' fun heap ↦
      (Outcome.exists_done_and_iff (hdone heap)).trans (by rw [hmem]; rfl)

end Wait

/-! ### `epoll_ctl` -/

/-- `epoll_ctl` asks with the tracee's record, and leaves the tracee's memory as it was, whatever
the fresh record held. -/
structure EpollCtlHonours (env : Env) (w : World) (t : Tracee) : Prop where
  asks : ∀ heap, ∃ bytes,
    (emulated monitorEpollCtl (env.withHeap heap) (w.atStop t)).state.requests =
      ⟨LIND_safe_net_epoll_ctl, [.int (cInt t.regs.rdi), .int (cInt t.regs.rsi),
        .int (cInt t.regs.rdx), .str bytes]⟩ :: w.requests ∧
    bytes.length = sizeofEpollEvent ∧ BytesAt t.mem t.regs.r10 bytes
  keeps : ∀ heap,
    (emulated monitorEpollCtl (env.withHeap heap) (w.atStop t)).state.tracee.mem = t.mem

/-- What `epoll_ctl` asks: the record as `get_mem` copies it. -/
def epollCtlRequest (t : Tracee) : Request :=
  ⟨LIND_safe_net_epoll_ctl, [.int (cInt t.regs.rdi), .int (cInt t.regs.rsi),
    .int (cInt t.regs.rdx), .str ((List.range sizeofEpollEvent).map (copiedAt t.mem t.regs.r10))]⟩

/-- The tracee's record is mapped, and where the request is answered, neither of its words can be
written. -/
structure RecordSpared (env : Env) (w : World) (t : Tracee) : Prop where
  mapped : ∀ x, InRange t.regs.r10 sizeofEpollEvent x → (t.mem.byte x).isSome
  spared : (env.lind (epollCtlRequest t :: w.requests)).isSome →
    ∀ i < 2, ¬ t.mem.Pokeable (wordAddr t.regs.r10 (i : ℕ))

section Ctl

variable {env : Env} {w : World} {t : Tracee}

/-- The tracee's bytes are copied exactly where they are mapped. -/
theorem bytesAt_copied_iff (m : ByteMemory) (addr : Word) :
    BytesAt m addr ((List.range sizeofEpollEvent).map (copiedAt m addr)) ↔
      ∀ x, InRange addr sizeofEpollEvent x → (m.byte x).isSome := by
  rw [← bytesAt_memBlock_iff Env.blank 1 m addr (n := sizeofEpollEvent) (k := 3) rfl (by decide)
    (by decide)]
  have hsame : (List.range sizeofEpollEvent).map (copiedAt m addr) =
      (List.range sizeofEpollEvent).map fun j : ℕ ↦ (memBlock 1 m addr 3).byteAt Env.blank j := by
    refine List.map_congr_left fun j hj ↦ ?_
    rw [List.mem_range, sizeofEpollEvent] at hj
    rw [byteAt_memBlock _ _ _ _ (by omega)]
    rfl
  rw [hsame]

/-- The request, from the record at the tracee's pointer. -/
theorem lindEpollCtl_done (env : Env) (t : Tracee) :
    (do
      let arg ← getMem 1 t.regs.r10 (BitVec.ofNat 64 sizeofEpollEvent)
      lindEpollCtl (cInt t.regs.rdi) (cInt t.regs.rsi) (cInt t.regs.rdx) (.block arg) :
        Fetch Request) (env, t.mem) [] = .done (epollCtlRequest t) [] := by
  have hsize : (BitVec.ofNat 64 sizeofEpollEvent).toNat / 8 + 1 < 2 ^ 31 := by decide
  have hbytes : takenBytes env (memBlock 1 t.mem t.regs.r10 3) sizeofEpollEvent =
      (List.range sizeofEpollEvent).map (copiedAt t.mem t.regs.r10) := by
    rw [takenBytes_of_nonneg _ _ (Int.natCast_nonneg _), Int.toNat_natCast]
    refine List.map_congr_left fun j hj ↦ ?_
    rw [List.mem_range, sizeofEpollEvent] at hj
    rw [byteAt_memBlock _ _ _ _ (by omega)]
    rfl
  rw [bind_apply, getMem_apply hsize, Outcome.andThen_done, lindEpollCtl, bind_apply,
    pyBytes_takenBytes, Outcome.andThen_done, epollCtlRequest, ← hbytes]
  rfl

/-- The run: the request, and then the fresh record where the tracee's is. -/
theorem emulated_epollCtl (env : Env) (t : Tracee) (hflag : w.entering = false) :
    let o := emulated monitorEpollCtl env (w.atStop t)
    o.state.requests = epollCtlRequest t :: w.requests ∧ o.state.tracee.mem =
      if (env.lind (epollCtlRequest t :: w.requests)).isSome then
        writeMem t.mem t.regs.r10 ((malloc 0 sizeofEpollEvent).wordAt env)
          (BitVec.ofNat 64 sizeofEpollEvent)
      else t.mem := by
  intro o
  -- the record that is copied back is not the one that was fetched
  have hfetch := fetch_done (w := w.atLeave t) (lindEpollCtl_done env t)
  have hrun : monitorEpollCtl (argsOf t.regs) env (w.atLeave t) =
      (lindCall (epollCtlRequest t) env (w.atLeave t)).andThen fun ret u ↦
        .done (some (ofInt ret, [⟨t.regs.r10, malloc 0 sizeofEpollEvent,
          BitVec.ofNat 64 sizeofEpollEvent⟩])) u := by
    rw [monitorEpollCtl, bind_apply]
    exact congrArg (Outcome.andThen · _) hfetch
  rw [lindCall_apply] at hrun
  have hlind : verdictOn env (w.atLeave t) (epollCtlRequest t) =
      (env.lind (epollCtlRequest t :: w.requests)).map judge := rfl
  rw [hlind] at hrun
  rcases hl : env.lind (epollCtlRequest t :: w.requests) with - | resp
  · rw [hl] at hrun
    have ho : o = _ := emulated_halt hflag hrun
    rw [ho]
    exact ⟨rfl, rfl⟩
  · rw [hl] at hrun
    obtain ⟨w', hdone, htracee, hrequests⟩ := emulated_done (c := .epoll_ctl) (by decide) hflag hrun
    have ho : o = _ := hdone
    rw [ho]
    refine ⟨hrequests.trans (requests_answered ..), ?_⟩
    rw [Outcome.state_done, htracee, Option.isSome_some, if_pos rfl]
    simp only [copyMem, List.foldl_cons, List.foldl_nil]

/-- A fresh record that is copied back leaves the memory as it was, whatever it holds, exactly where
neither of its words can be written. -/
theorem forall_fresh_record_iff (env : Env) (m : ByteMemory) (addr : Word) :
    (∀ heap, writeMem m addr ((malloc 0 sizeofEpollEvent).wordAt (env.withHeap heap))
        (BitVec.ofNat 64 sizeofEpollEvent) = m) ↔
      ∀ i < 2, ¬ m.Pokeable (wordAddr addr (i : ℕ)) := by
  have hnil : overwritten m addr [] = m := by
    refine ByteMemory.ext (funext fun x ↦ ?_) rfl
    simp [overwritten, InRange]
  have hiff : (∀ heap, writeMem m addr ((malloc 0 sizeofEpollEvent).wordAt (env.withHeap heap))
      (BitVec.ofNat 64 sizeofEpollEvent) = overwritten m addr []) ↔ RecordsKept m addr [] :=
    forall_record_iff (by decide) rfl (by decide) fun heap k hk ↦ by
      rw [byteAt_malloc _ 0 hk]
      rfl
  rw [hnil] at hiff
  rw [hiff]
  exact ⟨fun h ↦ h.first rfl,
    fun h ↦ ⟨by decide, fun _ ↦ h, fun k hk ↦ absurd hk (Nat.not_lt_zero k)⟩⟩

/-- `epoll_ctl` does what it should where nothing can go wrong with the record. -/
theorem epollCtl_honours_iff (hflag : w.entering = false) :
    EpollCtlHonours env w t ↔ RecordSpared env w t := by
  have hrun (heap : ℕ → ℕ → Byte) := emulated_epollCtl (env.withHeap heap) t hflag
  have hasks : (∀ heap, ∃ bytes,
      (emulated monitorEpollCtl (env.withHeap heap) (w.atStop t)).state.requests =
        ⟨LIND_safe_net_epoll_ctl, [.int (cInt t.regs.rdi), .int (cInt t.regs.rsi),
          .int (cInt t.regs.rdx), .str bytes]⟩ :: w.requests ∧
      bytes.length = sizeofEpollEvent ∧ BytesAt t.mem t.regs.r10 bytes) ↔
        ∀ x, InRange t.regs.r10 sizeofEpollEvent x → (t.mem.byte x).isSome := by
    rw [← bytesAt_copied_iff]
    constructor
    · intro h
      obtain ⟨bytes, hrequests, -, hbytes⟩ := h env.heap
      rw [(hrun _).1] at hrequests
      cases hrequests
      exact hbytes
    · exact fun h heap ↦ ⟨_, (hrun heap).1, by rw [List.length_map, List.length_range], h⟩
  have hkeeps : (∀ heap,
      (emulated monitorEpollCtl (env.withHeap heap) (w.atStop t)).state.tracee.mem = t.mem) ↔
        ((env.lind (epollCtlRequest t :: w.requests)).isSome →
          ∀ i < 2, ¬ t.mem.Pokeable (wordAddr t.regs.r10 (i : ℕ))) := by
    rw [← forall_fresh_record_iff env, forall_comm]
    refine forall_congr' fun heap ↦ ?_
    rw [(hrun heap).2]
    show (if (env.lind (epollCtlRequest t :: w.requests)).isSome then _ else _) = _ ↔ _
    -- without an answer nothing is copied back
    split <;> simp [*]
  exact ⟨fun h ↦ ⟨hasks.1 h.asks, hkeeps.1 h.keeps⟩,
    fun h ↦ ⟨hasks.2 h.mapped, hkeeps.2 h.spared⟩⟩

end Ctl

/-- **`epoll`.** The records that Lind answers with arrive in the tracee's array exactly where one
copied record is enough for that, and `epoll_ctl` does what it should exactly where the tracee's
record is mapped, and is not overwritten because it cannot be. -/
theorem epoll_iff {env : Env} {w : World} {t t' : Tracee} {resp : Response} {n : ℕ}
    {data : List Byte} (hflag : w.entering = false)
    (hl : env.lind (epollWaitRequest t.regs :: w.requests) = some resp)
    (hjudge : judge resp = .success n data) (hn : n ≤ cInt t.regs.rdx)
    (hdata : data.length = sizeofEpollEvent * n) :
    (DeliversExactly .epoll_wait env w t data ↔ RecordsKept t.mem t.regs.rsi data) ∧
      (EpollCtlHonours env w t' ↔ RecordSpared env w t') := by
  have hmaxevents : cInt t.regs.rdx < 2 ^ 31 := BitVec.toInt_lt
  refine ⟨epollWait_delivers_iff hflag hl hjudge ?_ ?_, epollCtl_honours_iff hflag⟩
  · rw [hdata, sizeofEpollEvent]
    omega
  · rw [hdata, Nat.mul_mod_right]

/-- A tracee that waits for up to four events, in a memory of zeros. -/
def epollTracee : Tracee :=
  ⟨{ callRegs 232 with rdi := 3, rsi := 64, rdx := 4, r10 := 64 }, zeroMemory⟩

/-- Lind's answer of `n` records of ones. -/
def recordsEnv (n : ℕ) : Env :=
  steadyEnv (some (successResponse n (List.replicate (sizeofEpollEvent * n) 1)))

/-- One record. -/
theorem epoll_iff_one :
    (DeliversExactly .epoll_wait (recordsEnv 1) zeroWorld epollTracee (List.replicate 16 1) ↔
      RecordsKept zeroMemory 64 (List.replicate 16 1)) ∧
      (EpollCtlHonours (recordsEnv 1) zeroWorld epollTracee ↔
        RecordSpared (recordsEnv 1) zeroWorld epollTracee) :=
  epoll_iff (n := 1) rfl rfl (judge_successResponse (by decide) (by decide) _) (by decide) rfl

/-- Of two records the second does not arrive. -/
theorem not_epoll : ¬ ∀ (env : Env) (w : World) (t t' : Tracee) (resp : Response) (n : ℕ)
    (data : List Byte), w.entering = false → 1 ≤ cInt t.regs.rdx →
      env.lind (epollWaitRequest t.regs :: w.requests) = some resp →
      judge resp = .success n data → n ≤ cInt t.regs.rdx → data.length = sizeofEpollEvent * n →
      DeliversExactly .epoll_wait env w t data ∧ EpollCtlHonours env w t' := by
  intro h
  have hl : (recordsEnv 2).lind (epollWaitRequest epollTracee.regs :: zeroWorld.requests) =
      some (successResponse 2 (List.replicate 32 1)) := rfl
  have hjudge : judge (successResponse 2 (List.replicate 32 1)) = .success 2 _ :=
    judge_successResponse (by decide) (by decide) _
  have hwait := (h (recordsEnv 2) zeroWorld epollTracee epollTracee _ 2 _ rfl (by decide) hl hjudge
    (by decide) rfl).1
  have hkept := (epollWait_delivers_iff rfl hl hjudge (by decide) rfl).1 hwait
  have hsecond := hkept.rest 16 (by decide) fun hlt ↦ absurd hlt (by decide)
  exact absurd hsecond (by decide)

end ReferenceMonitor
