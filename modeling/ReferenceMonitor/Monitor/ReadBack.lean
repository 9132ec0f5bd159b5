import ReferenceMonitor.Machine.SetMem
import ReferenceMonitor.Monitor.Outcomes

/-!
# Reading back: `get_mem`

`get_mem` fetches whole words, one of them behind the last full word of the range. Where that word
is not mapped as a whole, `ptrace` returns `-1`, and the bytes of the range in it come out as
all-ones (`getMem_eq_iff`). Behind `set_mem`, which needs the same words mapped, this does not
happen; what is left is that `get_mem` counts one word more in an `int` (`readBack_iff`).
-/

namespace ReferenceMonitor

open Halting

/-! ### The bytes of a block of words -/

theorem byteAt_memBlock (env : Env) (number : ℕ) (m : ByteMemory) (addr : Word) {n j : ℕ}
    (hj : j < 8 * n) : (memBlock number m addr n).byteAt env j =
      byteOf (peekData m (wordAddr addr (j / 8 : ℕ))) (j % 8) := by
  have hcell := cells_memBlock number m addr (i := j / 8) (j := j % 8) (n := n) (by omega)
    (by omega)
  rw [show 8 * (j / 8) + j % 8 = j by omega] at hcell
  rw [Block.byteAt, if_pos (by omega), Int.toNat_natCast, hcell]
  rfl

theorem wordAddr_add (addr : Word) (j : ℕ) :
    wordAddr addr (j / 8 : ℕ) + BitVec.ofNat 64 (j % 8) = addr + BitVec.ofNat 64 j := by
  rw [wordAddr_natCast, BitVec.add_assoc, ← BitVec.ofNat_add, show 8 * (j / 8) + j % 8 = j by omega]

/-- A mapped word gives the bytes that are there, another one all-ones. -/
theorem byteAt_memBlock_eq (env : Env) (number : ℕ) (m : ByteMemory) (addr : Word) {n j : ℕ}
    (hj : j < 8 * n) : some ((memBlock number m addr n).byteAt env j) =
      if m.Mapped (wordAddr addr (j / 8 : ℕ)) then m.byte (addr + BitVec.ofNat 64 j)
      else some 0xFF := by
  rw [byteAt_memBlock env number m addr hj]
  split
  · rename_i hmapped
    rw [byteOf_peekData hmapped (by omega), wordAddr_add]
  · rename_i hmapped
    rw [peekData_of_not_mapped hmapped, byteOf_neg_one (by omega)]

/-- `get_mem` has returned a block that starts with these bytes. -/
def Reads (env : Env) (m : ByteMemory) (addr count : Word) (bytes : ℕ → Option Byte) : Prop :=
  ∀ number, ∃ block, (getMem number addr count (env, m) []).toOption = some block ∧
    ∀ j < count.toNat, some (block.byteAt env j) = bytes j

/-- Byte by byte. -/
theorem reads_iff {env : Env} {m : ByteMemory} {addr count : Word} {bytes : ℕ → Option Byte} :
    Reads env m addr count bytes ↔ count.toNat / 8 + 1 < 2 ^ 31 ∧ ∀ j < count.toNat,
      (if m.Mapped (wordAddr addr (j / 8 : ℕ)) then m.byte (addr + BitVec.ofNat 64 j)
        else some 0xFF) = bytes j := by
  have hbyte (number j : ℕ) (hj : j < count.toNat) :=
    byteAt_memBlock_eq env number m addr (n := count.toNat / 8 + 1) (j := j) (by omega)
  constructor
  · intro h
    obtain ⟨block, hblock, hbytes⟩ := h 0
    have hfits : count.toNat / 8 + 1 < 2 ^ 31 := by
      by_contra hno
      rw [getMem_of_le (not_lt.1 hno)] at hblock
      cases hblock
    refine ⟨hfits, fun j hj ↦ ?_⟩
    rw [getMem_apply hfits] at hblock
    obtain rfl := Option.some.inj hblock
    rw [← hbytes j hj, hbyte 0 j hj]
  · rintro ⟨hfits, hbytes⟩ number
    refine ⟨_, by rw [getMem_apply hfits]; rfl, fun j hj ↦ ?_⟩
    rw [hbyte number j hj, hbytes j hj]

/-! ### At the edge of a mapping -/

/-- **`get_mem`** returns the bytes of a range exactly where its index does not overflow, and the
last word of the range, if it is not full, is mapped as a whole or has only all-ones bytes in the
range. -/
theorem getMem_eq_iff {env : Env} {m : ByteMemory} {addr count : Word}
    (h : ∀ j < count.toNat, (m.byte (addr + BitVec.ofNat 64 j)).isSome) :
    Reads env m addr count (fun j ↦ m.byte (addr + BitVec.ofNat 64 j)) ↔
      count.toNat / 8 + 1 < 2 ^ 31 ∧ (count.toNat % 8 = 0 ∨
        m.Mapped (wordAddr addr (count.toNat / 8 : ℕ)) ∨
        ∀ j < count.toNat, 8 * (count.toNat / 8) ≤ j →
          m.byte (addr + BitVec.ofNat 64 j) = some 0xFF) := by
  have hfull (i : ℕ) (hi : i < count.toNat / 8) : m.Mapped (wordAddr addr i) := by
    intro k hk
    have hj := h (8 * i + k) (by omega)
    rwa [← wordAddr_add, show (8 * i + k) / 8 = i by omega, show (8 * i + k) % 8 = k by omega] at hj
  rw [reads_iff, and_congr_right_iff]
  intro hfits
  constructor
  · intro hbytes
    refine or_iff_not_imp_left.2 fun hrest ↦ or_iff_not_imp_left.2 fun hno j hj hge ↦ ?_
    have hj' := hbytes j hj
    rw [show j / 8 = count.toNat / 8 by omega, if_neg hno] at hj'
    exact hj'.symm
  · intro hcond j hj
    obtain hlt | hge := Nat.lt_or_ge j (8 * (count.toNat / 8))
    · rw [if_pos (hfull _ (by omega))]
    · -- a byte of the last word
      rw [show j / 8 = count.toNat / 8 by omega]
      rcases hcond with hrest | hmapped | hones
      · omega
      · rw [if_pos hmapped]
      · rw [hones j hj hge, ite_self]

/-- A memory that ends after four bytes. -/
def fourBytes : ByteMemory := ⟨fun x ↦ if x.toNat < 4 then some 0 else none, fun _ ↦ true⟩

theorem isSome_fourBytes {j : ℕ} (h : j < (4 : Word).toNat) :
    (fourBytes.byte (0 + BitVec.ofNat 64 j)).isSome := by
  have hlt : j < 4 := h
  interval_cases j <;> rfl

theorem getMem_eq_iff_fourBytes :
    Reads Env.blank fourBytes 0 4 (fun j ↦ fourBytes.byte (0 + BitVec.ofNat 64 j)) ↔
      (4 : Word).toNat / 8 + 1 < 2 ^ 31 ∧ ((4 : Word).toNat % 8 = 0 ∨
        fourBytes.Mapped (wordAddr 0 ((4 : Word).toNat / 8 : ℕ)) ∨
        ∀ j < (4 : Word).toNat, 8 * ((4 : Word).toNat / 8) ≤ j →
          fourBytes.byte (0 + BitVec.ofNat 64 j) = some 0xFF) :=
  getMem_eq_iff fun _ ↦ isSome_fourBytes

/-- All four come out as `0xFF`. -/
theorem not_getMem_eq : ¬ ∀ (env : Env) (m : ByteMemory) (addr count : Word),
    (∀ j < count.toNat, (m.byte (addr + BitVec.ofNat 64 j)).isSome) →
      Reads env m addr count fun j ↦ m.byte (addr + BitVec.ofNat 64 j) := by
  intro h
  obtain ⟨-, hbytes⟩ := reads_iff.1 (h Env.blank fourBytes 0 4 fun _ ↦ isSome_fourBytes)
  exact absurd (hbytes 0 (by decide)) (by decide)

/-! ### Behind `set_mem` -/

/-- The words a copy writes. -/
def CopyBack.Covers (b : CopyBack) (x : Word) : Prop := InRange b.dst (8 * wordsFor b.count) x

theorem sameMap_writeMem (m : ByteMemory) (addr : Word) (load : ℤ → Word) (count : Word) :
    m.SameMap (writeMem m addr load count) := by
  rw [writeMem_eq_pokeAll]
  exact ByteMemory.sameMap_pokeAll _

theorem WritableRange.of_sameMap {m m' : ByteMemory} (hmap : m.SameMap m') {addr count : Word}
    (h : WritableRange m addr count) : WritableRange m' addr count :=
  ⟨h.fits, fun x hx ↦ hmap.1 x ▸ h.mapped x hx, fun x hx ↦ hmap.2 ▸ h.writable x hx⟩

theorem CopyBack.covers_of_inRange {b : CopyBack} {x : Word} (h : InRange b.dst b.count.toNat x) :
    b.Covers x := by
  rw [InRange] at h
  rw [CopyBack.Covers, InRange, wordsFor]
  omega

theorem sameMap_copyMem (env : Env) (m : ByteMemory) (bs : List CopyBack) :
    m.SameMap (copyMem env m bs) := by
  induction bs generalizing m with
  | nil => exact ByteMemory.SameMap.rfl
  | cons b bs ih => exact (sameMap_writeMem ..).trans (ih _)

section Copies

variable {env : Env} {m : ByteMemory} {bs : List CopyBack}

/-- What no copy covers stays as it is. -/
theorem byte_copyMem_of_not_covers (h : ∀ b ∈ bs, b.count.toNat / 8 < 2 ^ 31) {x : Word}
    (hx : ∀ b ∈ bs, ¬ b.Covers x) : (copyMem env m bs).byte x = m.byte x := by
  induction bs generalizing m with
  | nil => rfl
  | cons b bs ih =>
    rw [copyMem, List.foldl_cons, ← copyMem,
      ih (fun b' hb' ↦ h b' (List.mem_cons_of_mem _ hb'))
        fun b' hb' ↦ hx b' (List.mem_cons_of_mem _ hb'),
      byte_writeMem (h b List.mem_cons_self), if_neg]
    exact fun hcopies ↦ hx b List.mem_cons_self hcopies.1

/-- What one copy wrote, no other one covers. -/
theorem byte_copyMem_of_mem (h : ∀ b ∈ bs, WritableRange m b.dst b.count)
    (hdis : bs.Pairwise fun b b' ↦ ∀ x, b.Covers x → ¬ b'.Covers x) {b : CopyBack} (hb : b ∈ bs)
    {x : Word} (hx : InRange b.dst b.count.toNat x) :
    (copyMem env m bs).byte x = some (b.block.byteAt env (x - b.dst).toNat) := by
  induction bs generalizing m with
  | nil => exact absurd hb List.not_mem_nil
  | cons b' bs ih =>
    obtain ⟨hfirst, hrest⟩ := List.pairwise_cons.1 hdis
    have hwritable : ∀ c ∈ bs, WritableRange
        (writeMem m b'.dst (b'.block.wordAt env) b'.count) c.dst c.count := fun c hc ↦
      (h c (List.mem_cons_of_mem _ hc)).of_sameMap (sameMap_writeMem ..)
    rw [copyMem, List.foldl_cons, ← copyMem]
    rcases List.mem_cons.1 hb with rfl | hb
    · rw [byte_copyMem_of_not_covers (fun c hc ↦ (hwritable c hc).fits)
        fun c hc ↦ hfirst c hc x (CopyBack.covers_of_inRange hx),
        byte_writeMem_of_inRange (h b List.mem_cons_self) _ hx, byteOf_wordAt_index]
    · exact ih hwritable hrest hb

end Copies

/-- **Reading back.** After a sequence of `set_mem`s to ranges whose words are disjoint, `get_mem`
returns from each range the bytes that were copied there exactly where its index does not overflow;
and the bytes outside all those words are unchanged. -/
theorem readBack_iff {env : Env} {w : World} {bs : List CopyBack}
    (h : ∀ b ∈ bs, WritableRange w.tracee.mem b.dst b.count)
    (hdis : bs.Pairwise fun b b' ↦ ∀ x, b.Covers x → ¬ b'.Covers x) :
    ((∀ b ∈ bs, Reads env (copyBacks bs env w).state.tracee.mem b.dst b.count
        fun j ↦ some (b.block.byteAt env j)) ↔
      ∀ b ∈ bs, b.count.toNat / 8 + 1 < 2 ^ 31) ∧
    ∀ x, (∀ b ∈ bs, ¬ b.Covers x) →
      (copyBacks bs env w).state.tracee.mem.byte x = w.tracee.mem.byte x := by
  rw [copyBacks_apply]
  refine ⟨forall₂_congr fun b hb ↦ ?_, fun x hx ↦
    byte_copyMem_of_not_covers (fun b hb ↦ (h b hb).fits) hx⟩
  rw [reads_iff, and_iff_left]
  intro j hj
  have hcount := b.count.isLt
  have hoff := toNat_add_sub_self b.dst (j := j) (by omega)
  have hin : InRange b.dst b.count.toNat (b.dst + BitVec.ofNat 64 j) := by rwa [InRange, hoff]
  have hmapped : w.tracee.mem.Mapped (wordAddr b.dst (j / 8 : ℕ)) :=
    ((h b hb).pokeable (by rw [wordsFor]; omega)).1
  have hmap : w.tracee.mem.SameMap (copyMem env w.tracee.mem bs) := sameMap_copyMem env _ bs
  rw [Outcome.state_done, if_pos ((hmap.mapped_iff _).1 hmapped), byte_copyMem_of_mem h hdis hb hin,
    hoff]

/-- Two copies into a memory of zeros, of twelve bytes and of three. -/
def twoCopies : List CopyBack := [⟨0, malloc 0 12, 12⟩, ⟨16, malloc 1 3, 3⟩]

theorem writableRange_twoCopies : ∀ b ∈ twoCopies,
    WritableRange zeroWorld.tracee.mem b.dst b.count := by
  intro b hb
  refine writableRange_zeroMemory ?_
  rcases List.mem_cons.1 hb with rfl | hb
  · decide
  · rw [List.mem_singleton.1 hb]
    decide

theorem disjoint_twoCopies :
    twoCopies.Pairwise fun b b' ↦ ∀ x, b.Covers x → ¬ b'.Covers x := by
  refine List.pairwise_pair.2 fun x (h : (x - 0).toNat < 16) (h' : (x - 16).toNat < 8) ↦ ?_
  bv_omega

theorem readBack_iff_twoCopies :
    ((∀ b ∈ twoCopies, Reads Env.blank (copyBacks twoCopies Env.blank zeroWorld).state.tracee.mem
        b.dst b.count fun j ↦ some (b.block.byteAt Env.blank j)) ↔
      ∀ b ∈ twoCopies, b.count.toNat / 8 + 1 < 2 ^ 31) ∧
    ∀ x, (∀ b ∈ twoCopies, ¬ b.Covers x) →
      (copyBacks twoCopies Env.blank zeroWorld).state.tracee.mem.byte x = some 0 :=
  readBack_iff (w := zeroWorld) writableRange_twoCopies disjoint_twoCopies

/-- The longest range `set_mem` can write: `get_mem` overflows. -/
theorem not_readBack : ¬ ∀ (env : Env) (w : World) (bs : List CopyBack),
    (∀ b ∈ bs, WritableRange w.tracee.mem b.dst b.count) →
      (bs.Pairwise fun b b' ↦ ∀ x, b.Covers x → ¬ b'.Covers x) →
        ∀ b ∈ bs, Reads env (copyBacks bs env w).state.tracee.mem b.dst b.count
          fun j ↦ some (b.block.byteAt env j) := by
  intro h
  have hreads := h Env.blank zeroWorld [⟨0, malloc 0 0, 0x3FFFFFFF8⟩]
    (fun b hb ↦ by
      rw [List.mem_singleton.1 hb]
      exact writableRange_zeroMemory (by decide))
    (List.pairwise_singleton _ _) _ (List.mem_singleton_self _)
  exact absurd (reads_iff.1 hreads).1 (by decide)

end ReferenceMonitor
