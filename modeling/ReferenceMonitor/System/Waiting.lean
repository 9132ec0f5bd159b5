import ReferenceMonitor.Monitor.Paths
import ReferenceMonitor.Platform.Encoding
import ReferenceMonitor.System.Delivery
import ReferenceMonitor.System.FixedResults

/-!
# Waiting for descriptors: `select` and `poll`

Both calls pass objects of the tracee to Lind and back. `lind_select` has `None` for a null pointer,
but `get_mem` allocates a copy whatever it is given, so that there is none; and the copies are
written back to where they were read from. `monitor_poll` does not read the array at all, and
allocates and copies back one entry of it.
-/

namespace ReferenceMonitor

open Halting

/-! ### `select` with absent arguments -/

/-- What Lind should be asked for an object: `None` where the pointer is null, its bytes
otherwise. -/
def Slice.Asked (m : ByteMemory) (s : Slice) (v : PyVal) : Prop :=
  if s.dst = 0 then v = .none else
    ∃ bytes, v = .str bytes ∧ bytes.length = s.size ∧ BytesAt m s.dst bytes

/-- `select` asks for what is there, and writes nothing but what is there. -/
structure SelectHonours (env : Env) (w : World) (t : Tracee) : Prop where
  asks : ∃ args, (emulated monitorSelect env (w.atStop t)).state.requests =
      ⟨LIND_safe_net_select, .int (cInt t.regs.rdi) :: args⟩ :: w.requests ∧
    List.Forall₂ (Slice.Asked t.mem) (LindCall.slices t.regs .select) args
  writes : ∀ x, (∀ s ∈ LindCall.slices t.regs .select, s.dst ≠ 0 → ¬ s.Covers x) →
    (emulated monitorSelect env (w.atStop t)).state.tracee.mem.byte x = t.mem.byte x

/-- The tracee's bytes are copied exactly where all of them are mapped. -/
theorem bytesAt_memBlock_iff (env : Env) (number : ℕ) (m : ByteMemory) (addr : Word) {n k : ℕ}
    (hn : n % 8 = 0) (hk : n ≤ 8 * k) (hsize : n < 2 ^ 64) :
    BytesAt m addr ((List.range n).map fun j : ℕ ↦ (memBlock number m addr k).byteAt env j) ↔
      ∀ x, InRange addr n x → (m.byte x).isSome := by
  have hget {j : ℕ} (hj : j < n) :
      some (((List.range n).map fun j : ℕ ↦ (memBlock number m addr k).byteAt env j).getD j 0) =
        some ((memBlock number m addr k).byteAt env j) := by
    rw [List.getD_eq_getElem?_getD, List.getElem?_map, List.getElem?_range hj]
    rfl
  rw [BytesAt, List.length_map, List.length_range]
  constructor
  · intro h x hx
    rw [InRange] at hx
    rw [eq_add_sub addr x, h _ hx]
    rfl
  · intro h j hj
    have hmapped : m.Mapped (wordAddr addr (j / 8 : ℕ)) := by
      intro k hk
      have hlt : 8 * (j / 8) + k < n := by omega
      refine h _ ?_
      rw [wordAddr_natCast, BitVec.add_assoc, ← BitVec.ofNat_add, InRange,
        toNat_add_sub_self addr (by omega)]
      exact hlt
    rw [hget hj, byteAt_memBlock_eq env number m addr (by omega), if_pos hmapped]

/-- What `monitor_select` asks for an object. -/
theorem asked_memBlock_iff (env : Env) (number : ℕ) (m : ByteMemory) (addr : Word) (o : ℕ) {n k : ℕ}
    (hn : n % 8 = 0 ∧ n ≤ 8 * k ∧ n < 2 ^ 64) :
    Slice.Asked m ⟨addr, o, n⟩
        (.str ((List.range n).map fun j : ℕ ↦ (memBlock number m addr k).byteAt env j)) ↔
      addr ≠ 0 ∧ ∀ x, Slice.Covers ⟨addr, o, n⟩ x → (m.byte x).isSome := by
  have hcopy := bytesAt_memBlock_iff env number m addr hn.1 hn.2.1 hn.2.2
  rw [Slice.Asked]
  split
  · rename_i hnull
    exact iff_of_false (fun h ↦ by cases h) fun h ↦ h.1 hnull
  · rename_i hnull
    rw [and_iff_right hnull]
    constructor
    · rintro ⟨bytes, hbytes, -, hasked⟩
      cases hbytes
      exact hcopy.1 hasked
    · exact fun h ↦ ⟨_, rfl, by rw [List.length_map, List.length_range], hcopy.2 h⟩

section Select

variable {env : Env} {w : World} {t : Tracee}

/-- What `select` asks, and where it writes, whatever the answer. -/
theorem emulated_select_state (env : Env) (t : Tracee) (hflag : w.entering = false) :
    let o := emulated monitorSelect env (w.atStop t)
    let r := argsOf t.regs
    o.state.requests = selectRequest env r (selectSets t.mem r) :: w.requests ∧
      ∀ x, (∀ s ∈ LindCall.slices t.regs .select, ¬ s.Covers x) →
        o.state.tracee.mem.byte x = t.mem.byte x := by
  intro o r
  have happly := monitorSelect_apply r env (w.atLeave t)
  simp only [show (w.atLeave t).tracee = t from rfl] at happly
  rcases hv : verdictOn env (w.atLeave t) (selectRequest env r (selectSets t.mem r)) with - | v
  · simp only [hv] at happly
    have ho : o = _ := emulated_halt hflag happly
    rw [ho]
    exact ⟨rfl, fun _ _ ↦ rfl⟩
  simp only [hv] at happly
  rcases hb : received env (malloc 4 400) 400 v with - | result
  · simp only [hb] at happly
    have ho : o = _ := emulated_halt hflag happly
    rw [ho]
    refine ⟨requests_answered .., fun _ _ ↦ ?_⟩
    rcases v <;> rfl
  simp only [hb] at happly
  obtain ⟨w', hrun, htracee, hrequests⟩ := emulated_done (c := .select) (by decide) hflag happly
  have ho : o = _ := hrun
  rw [ho]
  refine ⟨hrequests.trans (requests_answered ..), fun x hx ↦ ?_⟩
  rw [Outcome.state_done, htracee]
  have hgoes (sets : Block × Block × Block × Block) : List.Forall₂ CopyBack.GoesTo
      (selectBacks r sets) (LindCall.slices t.regs .select) :=
    .cons ⟨rfl, rfl⟩ (.cons ⟨rfl, rfl⟩ (.cons ⟨rfl, rfl⟩ (.cons ⟨rfl, rfl⟩ .nil)))
  exact byte_copyMem_of_goesTo (hgoes _) (slices_whole .select t.regs) hx

/-- What holds of each object and what is asked for it holds of all of them. -/
theorem forall₂_asked_iff {m : ByteMemory} {P : Slice → Prop} {ss : List Slice} {vs : List PyVal}
    (h : List.Forall₂ (fun s v ↦ s.Asked m v ↔ P s) ss vs) :
    List.Forall₂ (Slice.Asked m) ss vs ↔ ∀ s ∈ ss, P s := by
  induction h with
  | nil => simp
  | cons hs _ ih => rw [List.forall₂_cons, List.forall_mem_cons, hs, ih]

/-- The request of `select`, object by object. -/
theorem selectRequest_asked_iff (env : Env) (m : ByteMemory) (r : UserRegs) :
    ∃ args, selectRequest env (argsOf r) (selectSets m (argsOf r)) =
        ⟨LIND_safe_net_select, .int (cInt r.rdi) :: args⟩ ∧
      (List.Forall₂ (Slice.Asked m) (LindCall.slices r .select) args ↔
        ∀ s ∈ LindCall.slices r .select, s.dst ≠ 0 ∧ ∀ x, s.Covers x → (m.byte x).isSome) := by
  have hset (number : ℕ) (p : Word) (o : ℕ) := asked_memBlock_iff env number m p o
    (show sizeofFdSet % 8 = 0 ∧ sizeofFdSet ≤ 8 * 17 ∧ sizeofFdSet < 2 ^ 64 by decide)
  have htime (number : ℕ) (p : Word) (o : ℕ) := asked_memBlock_iff env number m p o
    (show sizeofTimeval % 8 = 0 ∧ sizeofTimeval ≤ 8 * 3 ∧ sizeofTimeval < 2 ^ 64 by decide)
  exact ⟨_, rfl, forall₂_asked_iff
    (.cons (hset ..) (.cons (hset ..) (.cons (hset ..) (.cons (htime ..) .nil))))⟩

/-- Nothing else is asked for than objects that are there. -/
theorem SelectHonours.present (h : SelectHonours env w t) (hflag : w.entering = false) :
    ∀ s ∈ LindCall.slices t.regs .select,
      s.dst ≠ 0 ∧ ∀ x, s.Covers x → (t.mem.byte x).isSome := by
  obtain ⟨hrequests, -⟩ := emulated_select_state env t hflag
  obtain ⟨args, hargs, hiff⟩ := selectRequest_asked_iff env t.mem t.regs
  obtain ⟨args', hrequests', hasked⟩ := h.asks
  rw [hrequests, hargs] at hrequests'
  cases hrequests'
  exact hiff.1 hasked

/-- **`select` with absent arguments** does what it should exactly where none is absent, and all of
each is mapped. -/
theorem select_honours_iff (hflag : w.entering = false) :
    SelectHonours env w t ↔ ∀ s ∈ LindCall.slices t.regs .select,
      s.dst ≠ 0 ∧ ∀ x, s.Covers x → (t.mem.byte x).isSome := by
  obtain ⟨hrequests, hwrites⟩ := emulated_select_state env t hflag
  obtain ⟨args, hargs, hiff⟩ := selectRequest_asked_iff env t.mem t.regs
  rw [hargs] at hrequests
  refine ⟨fun h ↦ h.present hflag, fun h ↦ ?_⟩
  exact ⟨⟨args, hrequests, hiff.2 h⟩, fun x hx ↦ hwrites x fun s hs ↦ hx s hs (h s hs).1⟩

end Select

/-- Four objects that are there, one after the other. -/
theorem select_honours_iff_present :
    SelectHonours (zerosEnv 400) zeroWorld selectTracee ↔
      ∀ s ∈ LindCall.slices selectTracee.regs .select,
        s.dst ≠ 0 ∧ ∀ x, s.Covers x → (selectTracee.mem.byte x).isSome :=
  select_honours_iff rfl

/-- The same without a timeout. -/
def untimedTracee : Tracee := { selectTracee with regs.r8 := 0 }

/-- Without a timeout, Lind is asked with one. -/
theorem not_select_honours : ¬ ∀ (env : Env) (w : World) (t : Tracee), w.entering = false →
    (∀ s ∈ LindCall.slices t.regs .select, s.dst ≠ 0 →
      ∀ x, s.Covers x → (t.mem.byte x).isSome) → SelectHonours env w t := by
  intro h
  have hhonours := h (zerosEnv 400) zeroWorld untimedTracee rfl fun _ _ _ _ _ ↦ rfl
  have hnull : (⟨0, 0, sizeofTimeval⟩ : Slice) ∈ LindCall.slices untimedTracee.regs .select := by
    simp [LindCall.slices, untimedTracee]
  exact (hhonours.present rfl _ hnull).1 rfl

/-! ### `poll` -/

/-- `poll` asks for the array of entries. -/
def PollAsks (env : Env) (w : World) (t : Tracee) : Prop :=
  ∃ bytes, (emulated monitorPoll env (w.atStop t)).state.requests =
      ⟨LIND_safe_net_poll, [.int (cInt t.regs.rsi), .int (cInt t.regs.rdx), .str bytes]⟩ ::
        w.requests ∧
    bytes.length = sizeofPollfd * t.regs.rsi.toNat ∧ BytesAt t.mem t.regs.rdi bytes

/-- `poll` asks for the array, and the answer replaces it, whatever the fresh buffer held. -/
structure PollHonours (env : Env) (w : World) (t : Tracee) (data : List Byte) : Prop where
  asks : ∀ heap, PollAsks (env.withHeap heap) w t
  delivers : ∀ heap, ∃ w', emulated monitorPoll (env.withHeap heap) (w.atStop t) = .done () w' ∧
    w'.tracee.mem = overwritten t.mem t.regs.rdi data

/-- The entries `lind_poll` sends: what a buffer of one holds, and what follows it. -/
def pollEntries (env : Env) (nfds : Word) : List Byte :=
  takenBytes env (malloc 0 sizeofPollfd) (cInt (BitVec.ofNat 64 sizeofPollfd * nfds))

section Poll

variable {env : Env} {w : World} {t : Tracee} {resp : Response} {code : ℤ} {data : List Byte}

/-- The request, which needs nothing of the tracee's memory. -/
theorem lindPoll_done (env : Env) (r : UserRegs) (m : ByteMemory) :
    lindPoll (.block (malloc 0 sizeofPollfd)) r.rsi (cInt r.rdx) (env, m) [] =
      .done ⟨LIND_safe_net_poll, [.int (cInt r.rsi), .int (cInt r.rdx),
        .str (pollEntries env r.rsi)]⟩ [] := by
  rw [lindPoll, bind_apply, pyBytes_takenBytes]
  rfl

theorem requests_monitorPoll (env : Env) (t : Tracee) (hflag : w.entering = false) :
    (emulated monitorPoll env (w.atStop t)).state.requests =
      ⟨LIND_safe_net_poll, [.int (cInt t.regs.rsi), .int (cInt t.regs.rdx),
        .str (pollEntries env t.regs.rsi)]⟩ :: w.requests := by
  have hfetch := fetch_done (w := w.atLeave t) (lindPoll_done env t.regs t.mem)
  rw [requests_emulated _ (show (w.atStop t).entering = false from hflag)]
  exact requests_fill (w := w.atLeave t) (pollOutput (argsOf t.regs)) hfetch

/-- The first byte sent is one of the fresh buffer. -/
theorem getD_pollEntries {nfds : Word} (h : pollEntries env nfds ≠ []) :
    (pollEntries env nfds).getD 0 0 = env.heap 0 0 := by
  rw [pollEntries, takenBytes] at h ⊢
  split at h
  · rename_i hnonneg
    rw [sentBytes] at h
    rw [if_pos hnonneg, sentBytes]
    cases hn : (cInt (BitVec.ofNat 64 sizeofPollfd * nfds)).toNat with
    | zero => exact absurd (by rw [hn]; rfl) h
    | succ n =>
      rw [List.range_succ_eq_map]
      rfl
  · rename_i hneg
    rw [if_neg hneg]
    have hbytes : ∃ rest, (malloc 0 sizeofPollfd).bytes env = env.heap 0 0 :: rest := ⟨_, rfl⟩
    obtain ⟨rest, hrest⟩ := hbytes
    rw [cString, hrest, List.cons_append, List.takeWhile_cons] at h ⊢
    split at h
    · rename_i hne
      rw [if_pos hne]
      rfl
    · exact absurd rfl h

/-- Only no entries at all can be asked for. -/
theorem noEntries_of_asks (hflag : w.entering = false)
    (h : ∀ heap, PollAsks (env.withHeap heap) w t) : t.regs.rsi = 0 := by
  by_contra hne
  have hpos : 0 < t.regs.rsi.toNat := Nat.pos_of_ne_zero fun hz ↦ hne (BitVec.eq_of_toNat_eq hz)
  -- the first byte of the array would be any
  have hfirst (β : Byte) : t.mem.byte t.regs.rdi = some β := by
    obtain ⟨bytes, hrequests, hlen, hbytes⟩ := h fun _ _ ↦ β
    rw [requests_monitorPoll _ t hflag] at hrequests
    cases hrequests
    have hlt : 0 < (pollEntries (env.withHeap fun _ _ ↦ β) t.regs.rsi).length := by
      rw [hlen]
      exact Nat.mul_pos (by decide) hpos
    have hzero := hbytes 0 hlt
    rw [getD_pollEntries (List.ne_nil_of_length_pos hlt)] at hzero
    rw [BitVec.add_zero] at hzero
    exact hzero
  exact absurd ((hfirst 0).symm.trans (hfirst 1)) (by decide)

/-- A copy of one word that brings nothing. -/
theorem nothingElse_word_iff (m : ByteMemory) (addr : Word) :
    NothingElse m addr 8 [] ↔ ¬ m.Pokeable addr := by
  have hfirst {k : ℕ} (hk : k < 8) : wordAddr addr (k / 8 : ℕ) = addr := by
    rw [Nat.div_eq_of_lt hk]
    exact BitVec.add_zero addr
  constructor
  · rintro ⟨hwritten, -⟩ hpoke
    rcases hwritten 0 (by decide) (by rwa [hfirst (by decide)]) with hlt | ⟨hge, -⟩
    · exact absurd hlt (Nat.lt_irrefl 0)
    · exact absurd hge (by decide)
  · intro hno
    refine ⟨fun k hk hpoke ↦ ?_, fun k hk ↦ absurd hk (Nat.not_lt_zero k)⟩
    rw [hfirst hk] at hpoke
    exact absurd hpoke hno

/-- Of no entries nothing is received, and the one of the fresh buffer is copied. -/
theorem delivers_iff_of_no_entries (hflag : w.entering = false)
    (hl : ∀ request, env.lind (request :: w.requests) = some resp)
    (hjudge : judge resp = .success code []) (hzero : t.regs.rsi = 0) :
    (∀ heap, ∃ w', emulated monitorPoll (env.withHeap heap) (w.atStop t) = .done () w' ∧
        w'.tracee.mem = overwritten t.mem t.regs.rdi []) ↔ ¬ t.mem.Pokeable t.regs.rdi := by
  set size := BitVec.ofNat 64 sizeofPollfd with hsize
  have hlimit : (pollOutput (argsOf t.regs)).limit = 0 := by
    show cInt (BitVec.ofNat 64 sizeofPollfd * t.regs.rsi) = 0
    rw [hzero]
    rfl
  have hrun (heap : ℕ → ℕ → Byte) : ∃ (w' : World) (b : Block),
      emulated monitorPoll (env.withHeap heap) (w.atStop t) = .done () w' ∧
      w'.tracee.mem = writeMem t.mem t.regs.rdi (b.wordAt (env.withHeap heap)) size ∧
      ∀ k < sizeofPollfd, b.byteAt (env.withHeap heap) (k : ℕ) = heap 0 k := by
    obtain ⟨b, hb⟩ : ∃ b, received (env.withHeap heap) (malloc 0 sizeofPollfd)
        (pollOutput (argsOf t.regs)).limit (.success code []) = some b :=
      ⟨_, received_of_fits (by rw [hlimit]; decide) _⟩
    obtain ⟨w', hdone, htracee, -⟩ := emulated_fill (c := .poll)
      (q := fun lpfd ↦ lindPoll (.block lpfd) t.regs.rsi (cInt t.regs.rdx)) (by decide) rfl hflag
      (lindPoll_done (env.withHeap heap) t.regs t.mem) (hl _) (hjudge ▸ hb)
    refine ⟨w', b, hdone, by rw [htracee]; rfl, fun k hk ↦ ?_⟩
    rw [byteAt_received (by decide) hb, if_neg (by simp), byteAt_malloc _ 0 hk]
    rfl
  choose w' b hdone hmem hbyte using hrun
  have hload (heap : ℕ → ℕ → Byte) (k : ℕ) (hk : k < size.toNat) :
      byteOf ((b heap).wordAt (env.withHeap heap) (8 * (k / 8 : ℕ))) (k % 8) =
        if k < ([] : List Byte).length then ([] : List Byte).getD k 0 else heap 0 k := by
    rw [byteOf_wordAt_index, if_neg (by simp), ← hbyte heap k hk]
  have hiff : (∀ heap, writeMem t.mem t.regs.rdi ((b heap).wordAt (env.withHeap heap)) size =
      overwritten t.mem t.regs.rdi []) ↔ NothingElse t.mem t.regs.rdi size [] :=
    forall_writeMem_eq_iff (by decide) (by decide) hload
  trans NothingElse t.mem t.regs.rdi size []
  · rw [← hiff]
    exact forall_congr' fun heap ↦
      (Outcome.exists_done_and_iff (hdone heap)).trans (by rw [hmem])
  · exact nothingElse_word_iff t.mem t.regs.rdi

/-- **`poll`** does what it should exactly where there is nothing to ask for, and the place of the
entry it copies back anyway cannot be written. -/
theorem poll_honours_iff (hflag : w.entering = false)
    (hl : ∀ request, env.lind (request :: w.requests) = some resp)
    (hjudge : judge resp = .success code data)
    (hdata : data.length = sizeofPollfd * t.regs.rsi.toNat) :
    PollHonours env w t data ↔ t.regs.rsi = 0 ∧ ¬ t.mem.Pokeable t.regs.rdi := by
  constructor
  · rintro ⟨hasks, hdelivers⟩
    have hzero : t.regs.rsi = 0 := noEntries_of_asks hflag hasks
    have hnil : data = [] := by
      rw [hzero] at hdata
      exact List.length_eq_zero_iff.1 hdata
    subst hnil
    exact ⟨hzero, (delivers_iff_of_no_entries hflag hl hjudge hzero).1 hdelivers⟩
  · rintro ⟨hzero, hno⟩
    have hnil : data = [] := by
      rw [hzero] at hdata
      exact List.length_eq_zero_iff.1 hdata
    subst hnil
    refine ⟨fun heap ↦ ⟨[], ?_, ?_, fun j hj ↦ absurd hj (Nat.not_lt_zero j)⟩,
      (delivers_iff_of_no_entries hflag hl hjudge hzero).2 hno⟩
    · rw [requests_monitorPoll _ t hflag, hzero]
      rfl
    · rw [hzero]
      rfl

end Poll

/-- A tracee that asks for events on descriptors, with zeros in its memory. -/
def pollTracee (nfds : Word) : Tracee :=
  ⟨{ callRegs 7 with rdi := 64, rsi := nfds }, zeroMemory⟩

/-- Two entries. -/
theorem poll_honours_iff_two :
    PollHonours (zerosEnv 16) zeroWorld (pollTracee 2) (List.replicate 16 0) ↔
      (pollTracee 2).regs.rsi = 0 ∧ ¬ (pollTracee 2).mem.Pokeable (pollTracee 2).regs.rdi :=
  poll_honours_iff rfl (fun _ ↦ rfl) (judge_successResponse (by decide) (by decide) _) rfl

/-- Even of one entry what is asked is in the fresh buffer. -/
theorem not_poll_honours :
    ¬ PollHonours (zerosEnv 8) zeroWorld (pollTracee 1) (List.replicate 8 0) := fun h ↦
  absurd (noEntries_of_asks rfl h.asks) (by decide)

end ReferenceMonitor
