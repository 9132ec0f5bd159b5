import Mathlib.Tactic.IntervalCases
import Mathlib.Data.List.Induction

/-!
# Byte-addressed memory, read and written a word at a time

A `ByteMemory` gives each 64-bit address a byte or nothing (unmapped), and says which addresses may
be written. It is accessed through 8-byte little-endian words at arbitrary, possibly unaligned,
addresses: `peek` fails unless all eight bytes are mapped, and `poke` unless all eight are mapped
and writable. Addresses wrap around.

A sequence of pokes (`pokeAll`) is described byte by byte: an address `Touched` by no successful
poke keeps its byte, and the last poke that touches it decides it otherwise. The set of addresses
that can be read or written never changes (`SameMap`), so which pokes succeed is settled before the
first of them.
-/

abbrev Byte := BitVec 8

abbrev Word := BitVec 64

/-! ### Little-endian words -/

/-- Byte `i` of a word, counted from the least significant one. -/
def byteOf (w : Word) (i : ℕ) : Byte := w.extractLsb' (8 * i) 8

/-- The word whose byte `i` is `f i`. -/
def wordOf (f : ℕ → Byte) : Word := f 7 ++ f 6 ++ f 5 ++ f 4 ++ f 3 ++ f 2 ++ f 1 ++ f 0

theorem getLsbD_byteOf (w : Word) (i j : ℕ) :
    (byteOf w i).getLsbD j = (decide (j < 8) && w.getLsbD (8 * i + j)) := by
  rw [byteOf, BitVec.getLsbD_extractLsb']

theorem byteOf_wordOf (f : ℕ → Byte) {i : ℕ} (hi : i < 8) : byteOf (wordOf f) i = f i := by
  apply BitVec.eq_of_getLsbD_eq
  intro j hj
  rw [getLsbD_byteOf]
  simp only [wordOf, BitVec.getLsbD_append]
  interval_cases i <;> interval_cases j <;> rfl

/-- Words are equal when their eight bytes are. -/
theorem word_ext {v w : Word} (h : ∀ i < 8, byteOf v i = byteOf w i) : v = w := by
  apply BitVec.eq_of_getLsbD_eq
  intro j hj
  have hb := congrArg (fun b ↦ b.getLsbD (j % 8)) (h (j / 8) (by omega))
  simpa only [getLsbD_byteOf, show j % 8 < 8 by omega, decide_true, Bool.true_and,
    show 8 * (j / 8) + j % 8 = j by omega] using hb

theorem wordOf_congr {f g : ℕ → Byte} (h : ∀ i < 8, f i = g i) : wordOf f = wordOf g :=
  word_ext fun i hi ↦ by rw [byteOf_wordOf f hi, byteOf_wordOf g hi, h i hi]

/-- The low `r` bytes of `w` under the high bytes of `old`, by masks. -/
def mixWords (old w : Word) (r : ℕ) : Word :=
  (old &&& (BitVec.allOnes 64 <<< (r * 8))) ||| (w &&& ~~~(BitVec.allOnes 64 <<< (r * 8)))

/-- The masks select whole bytes. -/
theorem byteOf_mixWords (old w : Word) (r : ℕ) {i : ℕ} (hi : i < 8) :
    byteOf (mixWords old w r) i = if i < r then byteOf w i else byteOf old i := by
  apply BitVec.eq_of_getLsbD_eq
  intro j hj
  have hbit : 8 * i + j < 64 := by omega
  rw [getLsbD_byteOf, mixWords]
  simp only [BitVec.getLsbD_or, BitVec.getLsbD_and, BitVec.getLsbD_not, BitVec.getLsbD_shiftLeft,
    BitVec.getLsbD_allOnes, hj, hbit, decide_true, Bool.true_and]
  by_cases hr : i < r
  · rw [if_pos hr, getLsbD_byteOf]
    simp [show 8 * i + j < r * 8 by omega, hj]
  · rw [if_neg hr, getLsbD_byteOf]
    simp [show ¬ 8 * i + j < r * 8 by omega, hj, show 8 * i + j - r * 8 < 64 by omega]

/-! ### Memories -/

/-- A byte-addressed memory: the mapped bytes, and which addresses may be written. -/
@[ext]
structure ByteMemory where
  /-- The byte at an address, if it is mapped. -/
  byte : Word → Option Byte
  /-- The address may be written. -/
  writable : Word → Bool

/-- `x` lies in the word at `a`. -/
def InWord (a x : Word) : Prop := (x - a).toNat < 8

instance (a x : Word) : Decidable (InWord a x) := inferInstanceAs (Decidable (_ < _))

theorem inWord_add (a : Word) {i : ℕ} (hi : i < 8) : InWord a (a + BitVec.ofNat 64 i) := by
  rw [InWord, show a + BitVec.ofNat 64 i - a = BitVec.ofNat 64 i by
    rw [BitVec.add_comm, BitVec.add_sub_cancel], BitVec.toNat_ofNat]
  omega

theorem toNat_add_sub_self (a : Word) {j : ℕ} (hj : j < 2 ^ 64) :
    (a + BitVec.ofNat 64 j - a).toNat = j := by
  rw [BitVec.add_comm, BitVec.add_sub_cancel, BitVec.toNat_ofNat, Nat.mod_eq_of_lt hj]

/-- An address by its offset. -/
theorem eq_add_sub (a x : Word) : x = a + BitVec.ofNat 64 (x - a).toNat := by
  rw [BitVec.ofNat_toNat, BitVec.setWidth_eq, BitVec.add_comm, BitVec.sub_add_cancel]

/-- The bytes at an address. -/
def BytesAt (m : ByteMemory) (addr : Word) (bytes : List Byte) : Prop :=
  ∀ j < bytes.length, m.byte (addr + BitVec.ofNat 64 j) = some (bytes.getD j 0)

instance (m : ByteMemory) (addr : Word) (bytes : List Byte) : Decidable (BytesAt m addr bytes) :=
  inferInstanceAs (Decidable (∀ j < bytes.length, _))

/-- There is one string of a length at an address. -/
theorem BytesAt.eq_of_length {m : ByteMemory} {addr : Word} {bytes bytes' : List Byte}
    (h : BytesAt m addr bytes) (h' : BytesAt m addr bytes') (hlen : bytes.length = bytes'.length) :
    bytes = bytes' := by
  refine List.ext_getElem hlen fun j hj hj' ↦ ?_
  have hbyte := Option.some.inj ((h j hj).symm.trans (h' j hj'))
  rwa [List.getD_eq_getElem?_getD, List.getD_eq_getElem?_getD, List.getElem?_eq_getElem hj,
    List.getElem?_eq_getElem hj'] at hbyte

namespace ByteMemory

variable (m : ByteMemory)

/-- All eight bytes of the word at `a` are mapped. -/
def Mapped (a : Word) : Prop := ∀ i < 8, (m.byte (a + BitVec.ofNat 64 i)).isSome

/-- All eight bytes of the word at `a` are mapped and writable. -/
def Pokeable (a : Word) : Prop := m.Mapped a ∧ ∀ i < 8, m.writable (a + BitVec.ofNat 64 i)

instance (a : Word) : Decidable (m.Mapped a) := inferInstanceAs (Decidable (∀ i < 8, _))

instance (a : Word) : Decidable (m.Pokeable a) := inferInstanceAs (Decidable (_ ∧ ∀ i < 8, _))

/-- The word at `a`. -/
def peek (a : Word) : Option Word :=
  if m.Mapped a then
    some (wordOf fun i ↦ (m.byte (a + BitVec.ofNat 64 i)).getD 0)
  else none

/-- Replace the eight bytes at `a`. -/
def storeWord (a v : Word) : ByteMemory :=
  { m with byte := fun x ↦ if InWord a x then some (byteOf v (x - a).toNat) else m.byte x }

/-- Write the word at `a`. -/
def poke (a v : Word) : Option ByteMemory :=
  if m.Pokeable a then some (m.storeWord a v) else none

/-- A sequence of pokes, each address with its value; a failing one changes nothing. -/
def pokeAll (ws : List (Word × Word)) : ByteMemory :=
  ws.foldl (fun m w ↦ (m.poke w.1 w.2).getD m) m

/-- The address lies in a word of the sequence that can be poked. -/
def Touched (ws : List (Word × Word)) (x : Word) : Prop :=
  ∃ w ∈ ws, m.Pokeable w.1 ∧ InWord w.1 x

variable {m}

theorem isSome_of_mapped {a x : Word} (h : m.Mapped a) (hx : InWord a x) : (m.byte x).isSome := by
  rw [eq_add_sub a x]
  exact h _ hx

theorem poke_pos {a : Word} (h : m.Pokeable a) (v : Word) :
    m.poke a v = some (m.storeWord a v) := if_pos h

theorem poke_neg {a : Word} (h : ¬ m.Pokeable a) (v : Word) : m.poke a v = none := if_neg h

/-! ### The map of a memory does not change -/

/-- The same addresses are mapped, and the same may be written. -/
def SameMap (m m' : ByteMemory) : Prop :=
  (∀ x, (m.byte x).isSome = (m'.byte x).isSome) ∧ m.writable = m'.writable

theorem SameMap.rfl : SameMap m m := ⟨fun _ ↦ Eq.refl _, Eq.refl _⟩

theorem SameMap.symm {m' : ByteMemory} (h : SameMap m m') : SameMap m' m :=
  ⟨fun x ↦ (h.1 x).symm, h.2.symm⟩

theorem SameMap.trans {m₁ m₂ m₃ : ByteMemory} (h : SameMap m₁ m₂) (h' : SameMap m₂ m₃) :
    SameMap m₁ m₃ :=
  ⟨fun x ↦ (h.1 x).trans (h'.1 x), h.2.trans h'.2⟩

theorem SameMap.mapped_iff {m' : ByteMemory} (h : SameMap m m') (a : Word) :
    m.Mapped a ↔ m'.Mapped a := by
  simp only [Mapped, h.1]

theorem SameMap.pokeable_iff {m' : ByteMemory} (h : SameMap m m') (a : Word) :
    m.Pokeable a ↔ m'.Pokeable a := by
  simp only [Pokeable, h.mapped_iff a, h.2]

theorem sameMap_storeWord {a : Word} (h : m.Mapped a) (v : Word) :
    SameMap m (m.storeWord a v) := by
  refine ⟨fun x ↦ ?_, Eq.refl _⟩
  by_cases hx : InWord a x
  · simp [storeWord, hx, isSome_of_mapped h hx]
  · simp [storeWord, hx]

theorem sameMap_poke (a v : Word) : SameMap m ((m.poke a v).getD m) := by
  by_cases h : m.Pokeable a
  · rw [poke_pos h]
    exact sameMap_storeWord h.1 v
  · rw [poke_neg h]
    exact SameMap.rfl

theorem sameMap_pokeAll (ws : List (Word × Word)) : SameMap m (m.pokeAll ws) := by
  induction ws generalizing m with
  | nil => exact SameMap.rfl
  | cons w ws ih => exact (sameMap_poke w.1 w.2).trans ih

theorem SameMap.touched_iff {m' : ByteMemory} (h : SameMap m m') (ws : List (Word × Word))
    (x : Word) : m.Touched ws x ↔ m'.Touched ws x := by
  simp only [Touched, h.pokeable_iff]

/-! ### A sequence of pokes, byte by byte -/

@[simp] theorem pokeAll_nil : m.pokeAll [] = m := rfl

@[simp] theorem pokeAll_cons (w : Word × Word) (ws : List (Word × Word)) :
    m.pokeAll (w :: ws) = ((m.poke w.1 w.2).getD m).pokeAll ws := rfl

theorem pokeAll_append (ws vs : List (Word × Word)) :
    m.pokeAll (ws ++ vs) = (m.pokeAll ws).pokeAll vs := by
  rw [pokeAll, List.foldl_append]
  rfl

@[simp] theorem touched_nil (x : Word) : m.Touched [] x ↔ False := by simp [Touched]

theorem touched_cons (w : Word × Word) (ws : List (Word × Word)) (x : Word) :
    m.Touched (w :: ws) x ↔ m.Pokeable w.1 ∧ InWord w.1 x ∨ m.Touched ws x := by
  simp [Touched]

/-- One poke, byte by byte. -/
theorem byte_poke (a v x : Word) :
    ((m.poke a v).getD m).byte x =
      if m.Pokeable a ∧ InWord a x then some (byteOf v (x - a).toNat) else m.byte x := by
  by_cases h : m.Pokeable a
  · by_cases hx : InWord a x <;> simp [poke, h, storeWord, hx]
  · simp [poke, h]

/-- The last poke of a sequence decides the bytes of its word. -/
theorem byte_pokeAll_concat (ws : List (Word × Word)) (a v x : Word) :
    (m.pokeAll (ws ++ [(a, v)])).byte x =
      if m.Pokeable a ∧ InWord a x then some (byteOf v (x - a).toNat)
      else (m.pokeAll ws).byte x := by
  rw [pokeAll_append, pokeAll_cons, pokeAll_nil, byte_poke]
  simp only [(sameMap_pokeAll ws).symm.pokeable_iff a]

/-- **Frame.** An address that no successful poke touches keeps its byte. -/
theorem byte_pokeAll_of_not_touched {ws : List (Word × Word)} {x : Word} (h : ¬ m.Touched ws x) :
    (m.pokeAll ws).byte x = m.byte x := by
  induction ws generalizing m with
  | nil => rfl
  | cons w ws ih =>
    rw [touched_cons, not_or] at h
    rw [pokeAll_cons, ih (fun ht ↦ h.2 (((sameMap_poke w.1 w.2).touched_iff ws x).2 ht)),
      byte_poke, if_neg h.1]

/-- Nothing pokeable, nothing changed. -/
theorem pokeAll_eq_self {ws : List (Word × Word)} (h : ∀ w ∈ ws, ¬ m.Pokeable w.1) :
    m.pokeAll ws = m := by
  induction ws with
  | nil => rfl
  | cons w ws ih =>
    rw [pokeAll_cons, poke_neg (h w List.mem_cons_self), Option.getD_none]
    exact ih fun v hv ↦ h v (List.mem_cons_of_mem _ hv)

/-- **Overwriting forgets.** Two memories with one map that differ only where a sequence of pokes
touches them are made equal by it. -/
theorem pokeAll_eq_of_eq_off {m' : ByteMemory} (hmap : SameMap m m') (ws : List (Word × Word))
    (h : ∀ x, ¬ m.Touched ws x → m.byte x = m'.byte x) : m.pokeAll ws = m'.pokeAll ws := by
  induction ws generalizing m m' with
  | nil => exact ByteMemory.ext (funext fun x ↦ h x (by simp)) hmap.2
  | cons w ws ih =>
    have hstep : SameMap ((m.poke w.1 w.2).getD m) ((m'.poke w.1 w.2).getD m') :=
      ((sameMap_poke w.1 w.2).symm.trans hmap).trans (sameMap_poke w.1 w.2)
    refine ih hstep fun x hx ↦ ?_
    simp only [byte_poke, hmap.pokeable_iff w.1]
    split
    · rfl
    · rename_i hw
      refine h x fun ht ↦ ?_
      rcases (touched_cons w ws x).1 ht with hhead | htail
      · exact hw ⟨(hmap.pokeable_iff w.1).1 hhead.1, hhead.2⟩
      · exact hx (((sameMap_poke w.1 w.2).touched_iff ws x).1 htail)

/-! ### The last poke of an address -/

/-- Word `i` of a sequence is the last one that can be poked and holds the address. -/
structure Decides (m : ByteMemory) (as : List Word) (x : Word) (i : ℕ) (a : Word) : Prop where
  get : as[i]? = some a
  pokeable : m.Pokeable a
  inWord : InWord a x
  last : ∀ i' a', i < i' → as[i']? = some a' → m.Pokeable a' → ¬ InWord a' x

/-- The last poke of an address decides its byte. -/
theorem byte_pokeAll_of_decides {ws : List (Word × Word)} {x : Word} {i : ℕ} {w : Word × Word}
    (hget : ws[i]? = some w) (h : m.Decides (ws.map Prod.fst) x i w.1) :
    (m.pokeAll ws).byte x = some (byteOf w.2 (x - w.1).toNat) := by
  induction ws using List.reverseRecOn with
  | nil => cases hget
  | append_singleton ws v ih =>
    rw [byte_pokeAll_concat]
    obtain hlt | hge := Nat.lt_or_ge i ws.length
    · have hv : ¬ (m.Pokeable v.1 ∧ InWord v.1 x) := fun hv ↦
        h.last ws.length v.1 hlt (by simp) hv.1 hv.2
      rw [List.getElem?_append_left hlt] at hget
      rw [if_neg hv]
      refine ih hget ⟨by rw [List.getElem?_map, hget, Option.map_some], h.pokeable, h.inWord,
        fun i' a' hi hget' ↦ ?_⟩
      refine h.last i' a' hi ?_
      rw [List.map_append, List.getElem?_append_left (List.getElem?_eq_some_iff.1 hget').1, hget']
    · obtain rfl : w = v := by
        rw [List.getElem?_append_right hge, List.getElem?_singleton] at hget
        split_ifs at hget
        exact (Option.some.inj hget).symm
      rw [if_pos ⟨h.pokeable, h.inWord⟩]

/-- A list with a member of some kind has a last one. -/
theorem exists_last {P : Word → Prop} {as : List Word} (h : ∃ a ∈ as, P a) :
    ∃ (i : ℕ) (a : Word), as[i]? = some a ∧ P a ∧
      ∀ (i' : ℕ) (a' : Word), i < i' → as[i']? = some a' → ¬ P a' := by
  induction as using List.reverseRecOn with
  | nil =>
    obtain ⟨a, ha, -⟩ := h
    exact absurd ha List.not_mem_nil
  | append_singleton as b ih =>
    by_cases hb : P b
    · refine ⟨as.length, b, by simp, hb, fun i' a' hi hget ↦ ?_⟩
      rw [List.getElem?_eq_none (by rw [List.length_append, List.length_singleton]; omega)] at hget
      cases hget
    · obtain ⟨a, ha, hp⟩ := h
      have hmem : a ∈ as := by
        rcases List.mem_append.1 ha with ha | ha
        · exact ha
        · rw [List.mem_singleton.1 ha] at hp
          exact absurd hp hb
      obtain ⟨i, a', hget, hP, hlast⟩ := ih ⟨a, hmem, hp⟩
      have hi := (List.getElem?_eq_some_iff.1 hget).1
      refine ⟨i, a', by rw [List.getElem?_append_left hi, hget], hP, fun i' c hlt hget' hc ↦ ?_⟩
      obtain hlt' | hge := Nat.lt_or_ge i' as.length
      · rw [List.getElem?_append_left hlt'] at hget'
        exact hlast i' c hlt hget' hc
      · rw [List.getElem?_append_right hge, List.getElem?_singleton] at hget'
        split_ifs at hget'
        obtain rfl : b = c := Option.some.inj hget'
        exact hb hc

theorem exists_decides {as : List Word} {x : Word} (h : ∃ a ∈ as, m.Pokeable a ∧ InWord a x) :
    ∃ i a, m.Decides as x i a := by
  obtain ⟨i, a, hget, hp, hlast⟩ := exists_last h
  exact ⟨i, a, hget, hp.1, hp.2, fun i' a' hi hget' hp' hin ↦ hlast i' a' hi hget' ⟨hp', hin⟩⟩

/-- Poking back what was peeked changes nothing. -/
theorem storeWord_peek {a v : Word} (h : m.peek a = some v) : m.storeWord a v = m := by
  by_cases hm : m.Mapped a
  · rw [peek, if_pos hm, Option.some.injEq] at h
    subst h
    refine ByteMemory.ext (funext fun x ↦ ?_) rfl
    by_cases hx : InWord a x
    · obtain ⟨b, hb⟩ := Option.isSome_iff_exists.1 (isSome_of_mapped hm hx)
      rw [storeWord]
      simp only [hx, if_true]
      rw [byteOf_wordOf _ hx, ← eq_add_sub, hb, Option.getD_some]
    · simp [storeWord, hx]
  · rw [peek, if_neg hm] at h
    cases h

/-- So does poking back a sequence of words that were peeked. -/
theorem pokeAll_peek {ws : List (Word × Word)}
    (h : ∀ w ∈ ws, m.Pokeable w.1 → m.peek w.1 = some w.2) : m.pokeAll ws = m := by
  induction ws with
  | nil => rfl
  | cons w ws ih =>
    have hw : (m.poke w.1 w.2).getD m = m := by
      by_cases hp : m.Pokeable w.1
      · rw [poke_pos hp, Option.getD_some]
        exact storeWord_peek (h w List.mem_cons_self hp)
      · rw [poke_neg hp, Option.getD_none]
    rw [pokeAll_cons, hw]
    exact ih fun v hv ↦ h v (List.mem_cons_of_mem _ hv)

end ByteMemory
