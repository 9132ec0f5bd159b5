import ReferenceMonitor.Machine.TraceeAccess

/-!
# What `set_mem` writes besides the bytes it was given

`set_mem` writes whole words. For the bytes of the last word that lie beyond the range it peeks the
word, and then takes them from `ret` instead, the value the last full poke returned: zeros after a
full word, and all-ones bytes where there was none.
-/

namespace ReferenceMonitor

open Halting

/-- The address lies among the `n` bytes from `addr` on. -/
def InRange (addr : Word) (n : ℕ) (x : Word) : Prop := (x - addr).toNat < n

instance (addr : Word) (n : ℕ) (x : Word) : Decidable (InRange addr n x) :=
  inferInstanceAs (Decidable (_ < _))

/-- The number of words that hold `count` bytes. -/
def wordsFor (count : Word) : ℕ := (count.toNat + 7) / 8

/-- The words of the range can be written, and an `int` counts them. -/
structure WritableRange (m : ByteMemory) (addr count : Word) : Prop where
  fits : count.toNat / 8 < 2 ^ 31
  mapped : ∀ x, InRange addr (8 * wordsFor count) x → (m.byte x).isSome
  writable : ∀ x, InRange addr (8 * wordsFor count) x → m.writable x

/-- The byte `set_mem` puts beyond the range, into the last word: a byte of `ret`. -/
def fillByte (count : Word) : Byte := if count.toNat < 8 then 0xFF else 0

/-! ### Words of a range -/

theorem cInt_eq_toNat {w : Word} (h : w.toNat < 2 ^ 31) : cInt w = w.toNat := by
  rw [cInt, BitVec.toInt_setWidth]
  exact Int.bmod_eq_of_le (by omega) (by omega)

theorem toNat_div_eight (count : Word) : (count / 8).toNat = count.toNat / 8 := by
  rw [BitVec.toNat_udiv]
  rfl

theorem wordAddr_natCast (addr : Word) (i : ℕ) :
    wordAddr addr i = addr + BitVec.ofNat 64 (8 * i) := by
  rw [wordAddr, show (8 * (i : ℤ)) = ((8 * i : ℕ) : ℤ) by omega, BitVec.ofInt_natCast]

theorem toNat_sub_wordAddr (addr x : Word) (i : ℕ) :
    (x - wordAddr addr i).toNat = (2 ^ 64 - 8 * i % 2 ^ 64 + (x - addr).toNat) % 2 ^ 64 := by
  rw [wordAddr_natCast, ← BitVec.sub_sub, BitVec.toNat_sub, BitVec.toNat_ofNat]

/-- The word at index `i` of a range holds its bytes `8 i` to `8 i + 7`. -/
theorem inWord_wordAddr_iff {addr x : Word} {i : ℕ} (h : 8 * i + 8 ≤ 2 ^ 64) :
    InWord (wordAddr addr i) x ↔ 8 * i ≤ (x - addr).toNat ∧ (x - addr).toNat < 8 * i + 8 := by
  have hlt := (x - addr).isLt
  rw [InWord, toNat_sub_wordAddr]
  omega

/-! ### `set_mem`, byte by byte -/

/-- The byte at an offset of the words `set_mem` writes: one of the buffer, or a byte of `ret`. -/
def copiedByte (m : ByteMemory) (addr : Word) (load : ℤ → Word) (count : Word) (k : ℕ) : Byte :=
  if k < count.toNat then byteOf (load (8 * (k / 8 : ℕ))) (k % 8)
  else byteOf (lastRet m addr (count.toNat / 8)) (k % 8)

/-- One of the words `set_mem` writes holds the address, and can be poked. -/
def CopiesTo (m : ByteMemory) (addr count x : Word) : Prop :=
  InRange addr (8 * wordsFor count) x ∧ m.Pokeable (wordAddr addr ((x - addr).toNat / 8 : ℕ))

instance (m : ByteMemory) (addr count x : Word) : Decidable (CopiesTo m addr count x) :=
  inferInstanceAs (Decidable (_ ∧ _))

section CopyPokes

variable {m : ByteMemory} {addr count : Word}

theorem cInt_div_eight (h : count.toNat / 8 < 2 ^ 31) :
    cInt (count / 8) = (count.toNat / 8 : ℕ) := by
  rw [cInt_eq_toNat (by rw [toNat_div_eight]; exact h), toNat_div_eight]

/-- Poke `i` is that of word `i`; the last one mixes. -/
theorem getElem?_copyPokes (h : count.toNat / 8 < 2 ^ 31) (load : ℤ → Word) {i : ℕ}
    (hi : i < wordsFor count) :
    (copyPokes m addr load count)[i]? = some (wordAddr addr i,
      if i < count.toNat / 8 then load (8 * i)
      else mixWords (lastRet m addr (count.toNat / 8)) (load (8 * i)) (count.toNat % 8)) := by
  rw [wordsFor] at hi
  rw [copyPokes, cInt_div_eight h]
  simp only [Int.toNat_natCast]
  by_cases hfull : i < count.toNat / 8
  · rw [List.getElem?_append_left (by simpa using hfull), List.getElem?_map,
      List.getElem?_range hfull, if_pos hfull]
    rfl
  · obtain rfl : i = count.toNat / 8 := by omega
    rw [List.getElem?_append_right (by simp), if_neg (by omega), if_neg hfull]
    simp

theorem length_copyPokes (h : count.toNat / 8 < 2 ^ 31) (load : ℤ → Word) :
    (copyPokes m addr load count).length = wordsFor count := by
  rw [copyPokes, cInt_div_eight h, wordsFor, List.length_append, List.length_map,
    List.length_range, Int.toNat_natCast]
  split
  · rw [List.length_nil]
    omega
  · rw [List.length_singleton]
    omega

/-- The words of the pokes, by their index. -/
theorem addr_copyPokes (h : count.toNat / 8 < 2 ^ 31) (load : ℤ → Word) {i : ℕ} {a : Word}
    (hget : ((copyPokes m addr load count).map Prod.fst)[i]? = some a) :
    i < wordsFor count ∧ a = wordAddr addr i := by
  have hi := (List.getElem?_eq_some_iff.1 hget).1
  rw [List.length_map, length_copyPokes h] at hi
  rw [List.getElem?_map, getElem?_copyPokes h load hi] at hget
  exact ⟨hi, (Option.some.inj hget).symm⟩

theorem wordsFor_le (h : count.toNat / 8 < 2 ^ 31) : wordsFor count ≤ 2 ^ 31 := by
  rw [wordsFor]
  omega

/-- **`set_mem`, byte by byte.** -/
theorem byte_writeMem (h : count.toNat / 8 < 2 ^ 31) (load : ℤ → Word) (x : Word) :
    (writeMem m addr load count).byte x =
      if CopiesTo m addr count x then some (copiedByte m addr load count (x - addr).toNat)
      else m.byte x := by
  have hwords := wordsFor_le h
  rw [writeMem_eq_pokeAll]
  by_cases hx : CopiesTo m addr count x
  · obtain ⟨hin, hpoke⟩ := id hx
    rw [InRange] at hin
    have hget : (copyPokes m addr load count)[(x - addr).toNat / 8]? = _ :=
      getElem?_copyPokes h load (by omega)
    -- no later word of the range holds the address
    have hdecides : m.Decides ((copyPokes m addr load count).map Prod.fst) x
        ((x - addr).toNat / 8) (wordAddr addr ((x - addr).toNat / 8 : ℕ)) := by
      refine ⟨by rw [List.getElem?_map, hget]; rfl, hpoke,
        (inWord_wordAddr_iff (by omega)).2 (by omega), fun i' a' hlater hget' _ hin' ↦ ?_⟩
      obtain ⟨hi', rfl⟩ := addr_copyPokes h load hget'
      have hword := (inWord_wordAddr_iff (by omega)).1 hin'
      omega
    have hoff : (x - wordAddr addr ((x - addr).toNat / 8 : ℕ)).toNat = (x - addr).toNat % 8 := by
      have hlt := (x - addr).isLt
      rw [toNat_sub_wordAddr]
      omega
    rw [if_pos hx, ByteMemory.byte_pokeAll_of_decides hget hdecides, hoff, copiedByte]
    dsimp only
    by_cases hfull : (x - addr).toNat / 8 < count.toNat / 8
    · rw [if_pos hfull, if_pos (by omega)]
    · rw [if_neg hfull, byteOf_mixWords _ _ _ (by omega), wordsFor] at *
      by_cases hlt : (x - addr).toNat < count.toNat
      · rw [if_pos (by omega), if_pos hlt]
      · rw [if_neg (by omega), if_neg hlt]
  · rw [if_neg hx, ByteMemory.byte_pokeAll_of_not_touched]
    rintro ⟨w, hw, hpoke, hin⟩
    obtain ⟨i, hi⟩ := List.mem_iff_getElem?.1 hw
    obtain ⟨hlt, hw'⟩ := addr_copyPokes (i := i) h load (by rw [List.getElem?_map, hi]; rfl)
    rw [hw'] at hpoke hin
    have hword := (inWord_wordAddr_iff (by omega)).1 hin
    refine hx ⟨by rw [InRange]; omega, ?_⟩
    rwa [show (x - addr).toNat / 8 = i by omega]

/-- With a block, the bytes are those of the block. -/
theorem copiedByte_wordAt (env : Env) (b : Block) {k : ℕ} (h : k < count.toNat) :
    copiedByte m addr (b.wordAt env) count k = b.byteAt env k := by
  rw [copiedByte, if_pos h, byteOf_wordAt_index]

/-- A byte of the range, by its offset. -/
theorem byte_writeMem_add (h : count.toNat / 8 < 2 ^ 31) (env : Env) (b : Block) {k : ℕ}
    (hk : k < count.toNat) :
    (writeMem m addr (b.wordAt env) count).byte (addr + BitVec.ofNat 64 k) =
      if m.Pokeable (wordAddr addr (k / 8 : ℕ)) then some (b.byteAt env k)
      else m.byte (addr + BitVec.ofNat 64 k) := by
  have hcount := count.isLt
  have hoff := toNat_add_sub_self addr (j := k) (by omega)
  have hiff : CopiesTo m addr count (addr + BitVec.ofNat 64 k) ↔
      m.Pokeable (wordAddr addr (k / 8 : ℕ)) := by
    rw [CopiesTo, InRange, hoff, and_iff_right]
    rw [wordsFor]
    omega
  rw [byte_writeMem h, hoff, copiedByte_wordAt env b hk]
  simp only [hiff]

/-- A copy of whole words of a block. -/
theorem byte_writeMem_whole (h : count.toNat / 8 < 2 ^ 31) (hwhole : count.toNat % 8 = 0)
    (env : Env) (b : Block) (x : Word) :
    (writeMem m addr (b.wordAt env) count).byte x =
      if InRange addr count.toNat x ∧ m.Pokeable (wordAddr addr ((x - addr).toNat / 8 : ℕ)) then
        some (b.byteAt env (x - addr).toNat)
      else m.byte x := by
  have hwords : 8 * wordsFor count = count.toNat := by
    rw [wordsFor]
    omega
  rw [byte_writeMem h]
  simp only [CopiesTo, hwords]
  split
  · rename_i hx
    rw [copiedByte_wordAt env b hx.1]
  · rfl

end CopyPokes

section WritableRange

variable {m : ByteMemory} {addr count : Word}

/-- Every word of the range can be poked. -/
theorem WritableRange.pokeable (h : WritableRange m addr count) {i : ℕ} (hi : i < wordsFor count) :
    m.Pokeable (wordAddr addr i) := by
  have hwords := wordsFor_le h.fits
  have hin : ∀ j < 8, InRange addr (8 * wordsFor count) (wordAddr addr i + BitVec.ofNat 64 j) := by
    intro j hj
    have hword := (inWord_wordAddr_iff (by omega)).1 (inWord_add (wordAddr addr i) hj)
    rw [InRange]
    omega
  exact ⟨fun j hj ↦ h.mapped _ (hin j hj), fun j hj ↦ h.writable _ (hin j hj)⟩

theorem WritableRange.copiesTo_iff (h : WritableRange m addr count) {x : Word} :
    CopiesTo m addr count x ↔ InRange addr (8 * wordsFor count) x :=
  and_iff_left_of_imp fun hin ↦ h.pokeable (by rw [InRange] at hin; omega)

/-- The value of `ret` after the loop, byte by byte. -/
theorem byteOf_lastRet (h : WritableRange m addr count) {j : ℕ} (hj : j < 8) :
    byteOf (lastRet m addr (count.toNat / 8)) j = fillByte count := by
  cases hn : count.toNat / 8 with
  | zero =>
    rw [fillByte, if_pos (by omega), lastRet]
    interval_cases j <;> rfl
  | succ n =>
    have hpoke : m.Pokeable (wordAddr addr n) := h.pokeable (by rw [wordsFor]; omega)
    rw [fillByte, if_neg (by omega), lastRet, if_pos hpoke]
    interval_cases j <;> rfl

/-- **Outside the range**, `set_mem` changes the rest of the last word, and nothing else. -/
theorem byte_writeMem_of_not_inRange (h : WritableRange m addr count) (load : ℤ → Word) {x : Word}
    (hx : ¬ InRange addr count.toNat x) :
    (writeMem m addr load count).byte x =
      if InRange addr (8 * wordsFor count) x then some (fillByte count) else m.byte x := by
  rw [InRange] at hx
  rw [byte_writeMem h.fits, copiedByte, if_neg hx, byteOf_lastRet h (by omega)]
  simp only [h.copiesTo_iff]

/-- **Inside the range**, the bytes are those of the buffer. -/
theorem byte_writeMem_of_inRange (h : WritableRange m addr count) (load : ℤ → Word) {x : Word}
    (hx : InRange addr count.toNat x) :
    (writeMem m addr load count).byte x =
      some (byteOf (load (8 * ((x - addr).toNat / 8 : ℕ))) ((x - addr).toNat % 8)) := by
  rw [InRange] at hx
  have hin : InRange addr (8 * wordsFor count) x := by
    rw [InRange, wordsFor]
    omega
  rw [byte_writeMem h.fits, if_pos (h.copiesTo_iff.2 hin), copiedByte, if_pos hx]

/-- `set_mem` keeps the bytes outside its range exactly where there are none in its last word, or
they hold already what it puts there. -/
theorem setMem_frame_iff {w : World} (h : WritableRange w.tracee.mem addr count) (buff : Block)
    (env : Env) :
    (∀ x, ¬ InRange addr count.toNat x →
        (setMem addr buff count env w).state.tracee.mem.byte x = w.tracee.mem.byte x) ↔
      count.toNat % 8 = 0 ∨
        ∀ x, ¬ InRange addr count.toNat x → InRange addr (8 * wordsFor count) x →
          w.tracee.mem.byte x = some (fillByte count) := by
  have hmem : (setMem addr buff count env w).state.tracee.mem =
      writeMem w.tracee.mem addr (buff.wordAt env) count := rfl
  rw [hmem]
  constructor
  · intro hkeep
    refine .inr fun x hx hin ↦ ?_
    rw [← hkeep x hx, byte_writeMem_of_not_inRange h _ hx, if_pos hin]
  · intro hcond x hx
    rw [byte_writeMem_of_not_inRange h _ hx]
    split
    · rename_i hin
      rcases hcond with hr | hfill
      · rw [InRange, wordsFor, show 8 * ((count.toNat + 7) / 8) = count.toNat by omega] at hin
        exact absurd hin hx
      · exact (hfill x hx hin).symm
    · rfl

end WritableRange

/-! ### A short write -/

/-- A memory with a zero byte, writable, at every address. -/
def zeroMemory : ByteMemory := ⟨fun _ ↦ some 0, fun _ ↦ true⟩

theorem writableRange_zeroMemory {addr count : Word} (h : count.toNat / 8 < 2 ^ 31) :
    WritableRange zeroMemory addr count := ⟨h, fun _ _ ↦ rfl, fun _ _ ↦ rfl⟩

/-- The world of a stopped tracee with that memory. -/
def zeroWorld : World where
  regs := argsOf ⟨0, 0, 0, 0, 0, 0, 0, 0, []⟩
  entering := false
  tracee := ⟨⟨0, 0, 0, 0, 0, 0, 0, 0, []⟩, zeroMemory⟩
  requests := []
  mappings := []
  errno := 0
  trace := []

/-- Twelve bytes into a memory of zeros: the last word gets the zeros it had. -/
theorem setMem_frame_iff_twelve :
    (∀ x, ¬ InRange 0 (12 : Word).toNat x →
        (setMem 0 (malloc 0 12) 12 Env.blank zeroWorld).state.tracee.mem.byte x = some 0) ↔
      (12 : Word).toNat % 8 = 0 ∨ ∀ x, ¬ InRange 0 (12 : Word).toNat x →
        InRange 0 (8 * wordsFor 12) x → some (0 : Byte) = some (fillByte 12) :=
  setMem_frame_iff (w := zeroWorld) (writableRange_zeroMemory (by decide)) (malloc 0 12)
    Env.blank

/-- Four bytes into a memory of zeros: the four bytes after them become `0xFF`. -/
theorem not_setMem_frame : ¬ ∀ (env : Env) (w : World) (addr count : Word) (buff : Block),
    WritableRange w.tracee.mem addr count → ∀ x, ¬ InRange addr count.toNat x →
      (setMem addr buff count env w).state.tracee.mem.byte x = w.tracee.mem.byte x := by
  intro h
  have hfour := h Env.blank zeroWorld 0 4 (malloc 0 4) (writableRange_zeroMemory (by decide)) 4
    (by decide)
  exact absurd hfour (by decide)

end ReferenceMonitor
