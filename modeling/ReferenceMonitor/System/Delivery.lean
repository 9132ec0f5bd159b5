import ReferenceMonitor.Monitor.ReadBack
import ReferenceMonitor.System.ExitStops

/-!
# What arrives in the tracee's buffers

`monitor_read` and `monitor_getdents` allocate a buffer of the size the tracee asks for, let Lind's
answer fill it, and copy all of it back, whatever the answer was. What arrives is exactly the answer
only where it fills the buffer, and the last word besides.
-/

namespace ReferenceMonitor

open Halting

/-- The memory with the bytes at an address replaced. -/
def overwritten (m : ByteMemory) (addr : Word) (data : List Byte) : ByteMemory :=
  { m with byte := fun x ↦
      if InRange addr data.length x then some (data.getD (x - addr).toNat 0) else m.byte x }

/-- Equality with such a memory, byte by byte, by the distance from the address. -/
theorem eq_overwritten_iff {m m' : ByteMemory} {addr : Word} {data : List Byte}
    (h : m.SameMap m') :
    m' = overwritten m addr data ↔ ∀ k < 2 ^ 64, m'.byte (addr + BitVec.ofNat 64 k) =
      if k < data.length then some (data.getD k 0) else m.byte (addr + BitVec.ofNat 64 k) := by
  have hoff {k : ℕ} (hk : k < 2 ^ 64) : (addr + BitVec.ofNat 64 k - addr).toNat = k :=
    toNat_add_sub_self addr hk
  constructor
  · rintro rfl k hk
    simp only [overwritten, InRange, hoff hk]
  · intro hsame
    refine ByteMemory.ext (funext fun x ↦ ?_) h.2.symm
    obtain ⟨k, hk, rfl⟩ : ∃ k < 2 ^ 64, x = addr + BitVec.ofNat 64 k :=
      ⟨_, (x - addr).isLt, eq_add_sub addr x⟩
    simp only [hsame k hk, overwritten, InRange, hoff hk]

/-- The two calls that fill a buffer of the size they are given, and what they ask. -/
inductive BufferCall (r : UserRegs) : LindCall → Request → Prop
  | read : BufferCall r .read (lindRead (cInt r.rdi) (cInt r.rdx))
  | getdents : BufferCall r .getdents (lindGetdents (cInt r.rdi) (cInt r.rdx))

/-- The same with something else in the memory the blocks are allocated from. -/
def Env.withHeap (env : Env) (heap : ℕ → ℕ → Byte) : Env := { env with heap := heap }

/-- Whatever the fresh buffer held, the tracee's memory is the one before with the data at the
buffer's address. -/
def DeliversExactly (c : LindCall) (env : Env) (w : World) (t : Tracee) (data : List Byte) : Prop :=
  ∀ heap, ∃ w', emulated c.emulation (env.withHeap heap) (w.atStop t) = .done () w' ∧
    w'.tracee.mem = overwritten t.mem t.regs.rsi data

/-- A copy of `count` bytes that begin with `data` puts nothing else into the memory: the words it
can write have no byte that was not received, and behind the range already what `set_mem` puts
there; the others hold the data already. -/
structure NothingElse (m : ByteMemory) (addr count : Word) (data : List Byte) : Prop where
  written : ∀ k < 8 * wordsFor count, m.Pokeable (wordAddr addr (k / 8 : ℕ)) → k < data.length ∨
    count.toNat ≤ k ∧ m.byte (addr + BitVec.ofNat 64 k) =
      some (byteOf (lastRet m addr (count.toNat / 8)) (k % 8))
  kept : ∀ k < data.length, ¬ m.Pokeable (wordAddr addr (k / 8 : ℕ)) →
    m.byte (addr + BitVec.ofNat 64 k) = some (data.getD k 0)

section Buffer

variable {m : ByteMemory} {addr count : Word} {data : List Byte}

/-- A copy puts the data at the address exactly where every byte of the words it writes to is as it
should be. -/
theorem writeMem_eq_iff_bytes (h : count.toNat / 8 < 2 ^ 31) (hle : data.length ≤ count.toNat)
    {load : ℤ → Word} :
    writeMem m addr load count = overwritten m addr data ↔ ∀ k < 8 * wordsFor count,
      (if m.Pokeable (wordAddr addr (k / 8 : ℕ)) then some (copiedByte m addr load count k)
        else m.byte (addr + BitVec.ofNat 64 k)) =
      if k < data.length then some (data.getD k 0) else m.byte (addr + BitVec.ofNat 64 k) := by
  have hcount := count.isLt
  have hwords := wordsFor_le h
  have hcopies {k : ℕ} (hk : k < 2 ^ 64) :
      CopiesTo m addr count (addr + BitVec.ofNat 64 k) ↔
        k < 8 * wordsFor count ∧ m.Pokeable (wordAddr addr (k / 8 : ℕ)) := by
    rw [CopiesTo, InRange, toNat_add_sub_self addr hk]
  have hbyte {k : ℕ} (hk : k < 2 ^ 64) :
      (writeMem m addr load count).byte (addr + BitVec.ofNat 64 k) =
        if k < 8 * wordsFor count ∧ m.Pokeable (wordAddr addr (k / 8 : ℕ)) then
          some (copiedByte m addr load count k) else m.byte (addr + BitVec.ofNat 64 k) := by
    rw [byte_writeMem h]
    simp only [hcopies hk, toNat_add_sub_self addr hk]
  rw [eq_overwritten_iff (sameMap_writeMem m addr load count)]
  refine ⟨fun hall k hk ↦ ?_, fun hall k hk ↦ ?_⟩
  · have hk' : k < 2 ^ 64 := by omega
    rw [← hall k hk', hbyte hk']
    simp only [hk, true_and]
  · rw [hbyte hk]
    by_cases hin : k < 8 * wordsFor count
    · simp only [hin, true_and]
      exact hall k hin
    · have hdata : ¬ k < data.length := by
        rw [wordsFor] at hin
        omega
      rw [if_neg hdata, if_neg fun hwritten ↦ hin hwritten.1]

/-- A copy whose buffer begins with the data, and holds anything behind it. -/
theorem forall_writeMem_eq_iff (h : count.toNat / 8 < 2 ^ 31) (hle : data.length ≤ count.toNat)
    {load : (ℕ → ℕ → Byte) → ℤ → Word}
    (hload : ∀ heap k, k < count.toNat → byteOf (load heap (8 * (k / 8 : ℕ))) (k % 8) =
      if k < data.length then data.getD k 0 else heap 0 k) :
    (∀ heap, writeMem m addr (load heap) count = overwritten m addr data) ↔
      NothingElse m addr count data := by
  simp only [writeMem_eq_iff_bytes h hle]
  constructor
  · intro hbyte
    refine ⟨fun k hk hpoke ↦ or_iff_not_imp_left.2 fun hdata ↦ ?_, fun k hk hpoke ↦ ?_⟩
    · -- a byte that was not received can be any
      have h0 := hbyte (fun _ _ ↦ 0) k hk
      have h1 := hbyte (fun _ _ ↦ 1) k hk
      rw [if_pos hpoke, if_neg hdata] at h0 h1
      by_cases hlt : k < count.toNat
      · rw [copiedByte, if_pos hlt, hload _ k hlt, if_neg hdata] at h0 h1
        exact absurd (h0.trans h1.symm) (by decide)
      · rw [copiedByte, if_neg hlt] at h0
        exact ⟨not_lt.1 hlt, h0.symm⟩
    · have hk' : k < 8 * wordsFor count := by
        rw [wordsFor]
        omega
      have h0 := hbyte (fun _ _ ↦ 0) k hk'
      rwa [if_neg hpoke, if_pos hk] at h0
  · rintro ⟨hwritten, hkept⟩ heap k hk
    by_cases hpoke : m.Pokeable (wordAddr addr (k / 8 : ℕ))
    · rw [if_pos hpoke, copiedByte]
      rcases hwritten k hk hpoke with hlt | ⟨hge, hfill⟩
      · rw [if_pos (by omega), hload _ k (by omega), if_pos hlt, if_pos hlt]
      · rw [if_neg (by omega), if_neg (by omega), hfill]
    · rw [if_neg hpoke]
      split
      · exact hkept k ‹_› hpoke
      · rfl

/-- Where the whole buffer can be written, it must be filled, and so must its last word. -/
theorem nothingElse_iff_of_writableRange (h : WritableRange m addr count)
    (hle : data.length ≤ count.toNat) :
    NothingElse m addr count data ↔ data.length = count.toNat ∧
      ∀ k < 8 * wordsFor count, count.toNat ≤ k →
        m.byte (addr + BitVec.ofNat 64 k) = some (fillByte count) := by
  have hpoke {k : ℕ} (hk : k < 8 * wordsFor count) : m.Pokeable (wordAddr addr (k / 8 : ℕ)) :=
    h.pokeable (by omega)
  have hcover {k : ℕ} (hk : k < count.toNat) : k < 8 * wordsFor count := by
    rw [wordsFor]
    omega
  constructor
  · rintro ⟨hwritten, -⟩
    refine ⟨le_antisymm hle (not_lt.1 fun hlt ↦ ?_), fun k hk hge ↦ ?_⟩
    · have hfirst := hwritten data.length (hcover hlt) (hpoke (hcover hlt))
      omega
    · have hfill := ((hwritten k hk (hpoke hk)).resolve_left (by omega)).2
      rwa [byteOf_lastRet h (by omega)] at hfill
  · rintro ⟨hlen, hfill⟩
    refine ⟨fun k hk _ ↦ ?_, fun k hk hno ↦ absurd (hpoke (hcover (by omega))) hno⟩
    rcases Nat.lt_or_ge k count.toNat with hlt | hge
    · exact .inl (by omega)
    · exact .inr ⟨hge, by rw [byteOf_lastRet h (by omega), hfill k hk hge]⟩

end Buffer

section Read

variable {c : LindCall} {env : Env} {w : World} {t : Tracee} {request : Request} {resp : Response}
  {data : List Byte}

/-- The run: the buffer begins with the data and holds behind it what it held before. -/
theorem emulated_bufferCall (hc : BufferCall t.regs c request) (hflag : w.entering = false)
    (hl : env.lind (request :: w.requests) = some resp)
    (hdata : judge resp = .success data.length data) (hle : data.length ≤ t.regs.rdx.toNat)
    (hcount : t.regs.rdx.toNat < 2 ^ 31) :
    ∃ (w' : World) (b : Block), emulated c.emulation env (w.atStop t) = .done () w' ∧
      w'.tracee = ⟨{ t.regs with rax := ofInt data.length },
        writeMem t.mem t.regs.rsi (b.wordAt env) t.regs.rdx⟩ ∧
      ∀ k < t.regs.rdx.toNat, b.byteAt env k =
        if k < data.length then data.getD k 0 else env.heap 0 k := by
  have hcInt : cInt t.regs.rdx = t.regs.rdx.toNat := cInt_eq_toNat hcount
  have hfill : c.emulation (argsOf t.regs) =
      fill (bufferOutput (argsOf t.regs)) fun _ ↦ pure request := by
    cases hc <;> rfl
  have hne : c ≠ .getsockname := by
    rintro rfl
    cases hc
  obtain ⟨b, hb⟩ : ∃ b, received env (malloc 0 t.regs.rdx.toNat) (cInt t.regs.rdx)
      (.success data.length data) = some b :=
    ⟨_, received_of_fits
      (fits_of_room (by omega) (by omega) (.inl (by rw [length_malloc]; omega))) _⟩
  obtain ⟨w', hrun, htracee, -⟩ := emulated_fill hne hfill hflag rfl hl (hdata ▸ hb)
  refine ⟨w', b, hrun, ?_, fun k hk ↦ ?_⟩
  · rw [htracee, hdata, Verdict.status, wrapInt_eq_self (by omega) (by omega)]
    rfl
  · rw [byteAt_received (by omega) hb, byteAt_malloc env 0 hk]
    exact if_congr (by omega) rfl rfl

/-- What is copied, for each content of the heap. -/
theorem deliversExactly_iff_writeMem (hc : BufferCall t.regs c request) (hflag : w.entering = false)
    (hl : env.lind (request :: w.requests) = some resp)
    (hdata : judge resp = .success data.length data) (hle : data.length ≤ t.regs.rdx.toNat)
    (hcount : t.regs.rdx.toNat < 2 ^ 31) :
    ∃ load : (ℕ → ℕ → Byte) → ℤ → Word,
      (∀ heap k, k < t.regs.rdx.toNat → byteOf (load heap (8 * (k / 8 : ℕ))) (k % 8) =
        if k < data.length then data.getD k 0 else heap 0 k) ∧
      (DeliversExactly c env w t data ↔ ∀ heap, writeMem t.mem t.regs.rsi (load heap) t.regs.rdx =
        overwritten t.mem t.regs.rsi data) := by
  have hrun (heap : ℕ → ℕ → Byte) := by
    have hl' : (env.withHeap heap).lind (request :: w.requests) = some resp := hl
    exact emulated_bufferCall hc hflag hl' hdata hle hcount
  choose w' b hdone htracee hbyte using hrun
  refine ⟨fun heap ↦ (b heap).wordAt (env.withHeap heap), fun heap k hk ↦ ?_,
    forall_congr' fun heap ↦ ?_⟩
  · have hb := hbyte heap k hk
    rwa [byteOf_wordAt_index]
  · exact (Outcome.exists_done_and_iff (hdone heap)).trans (by rw [htracee])

/-- **What arrives of a read** is exactly the answer where the copy of the whole buffer puts nothing
else into the tracee's memory. -/
theorem exact_delivery_iff (hc : BufferCall t.regs c request) (hflag : w.entering = false)
    (hl : env.lind (request :: w.requests) = some resp)
    (hdata : judge resp = .success data.length data) (hle : data.length ≤ t.regs.rdx.toNat)
    (hcount : t.regs.rdx.toNat < 2 ^ 31) :
    DeliversExactly c env w t data ↔ NothingElse t.mem t.regs.rsi t.regs.rdx data := by
  obtain ⟨load, hload, hiff⟩ := deliversExactly_iff_writeMem hc hflag hl hdata hle hcount
  rw [hiff, forall_writeMem_eq_iff (by omega) hle hload]

end Read

/-- A tracee that reads into a memory of zeros. -/
def readTracee (count : Word) : Tracee :=
  ⟨{ callRegs 0 with rdi := 3, rsi := 64, rdx := count }, zeroMemory⟩

/-- An answer to everything: the bytes, and how many there are. -/
def dataEnv (data : List Byte) : Env := steadyEnv (some (successResponse data.length data))

theorem judge_dataEnv {data : List Byte} (h : data.length < 2 ^ 31) :
    judge (successResponse data.length data) = .success data.length data :=
  judge_successResponse (by omega) (by omega) data

/-- Eight bytes read of eight. -/
theorem exact_delivery_iff_eight :
    DeliversExactly .read (dataEnv (List.replicate 8 1)) zeroWorld (readTracee 8)
        (List.replicate 8 1) ↔
      NothingElse zeroMemory 64 8 (List.replicate 8 1) :=
  exact_delivery_iff .read rfl rfl (judge_dataEnv (by decide)) (by decide) (by decide)

/-- Two bytes read of eight: the six behind them are overwritten. -/
theorem not_exact_delivery :
    ¬ DeliversExactly .read (dataEnv [1, 2]) zeroWorld (readTracee 8) [1, 2] := by
  have hc : BufferCall (readTracee 8).regs .read (lindRead 3 8) := .read
  have hl : (dataEnv [1, 2]).lind (lindRead 3 8 :: zeroWorld.requests) =
      some (successResponse [(1 : Byte), 2].length [1, 2]) := rfl
  obtain ⟨load, hload, hiff⟩ := deliversExactly_iff_writeMem hc rfl hl (judge_dataEnv (by decide))
    (by decide) (by decide)
  have hwritable : WritableRange (readTracee 8).mem (readTracee 8).regs.rsi
    (readTracee 8).regs.rdx := writableRange_zeroMemory (by decide)
  rw [hiff, forall_writeMem_eq_iff (by decide) (by decide) hload,
    nothingElse_iff_of_writableRange hwritable (by decide)]
  exact fun h ↦ absurd h.1 (by decide)

end ReferenceMonitor
