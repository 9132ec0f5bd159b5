import ReferenceMonitor.Machine.SetMem
import ReferenceMonitor.Platform.Response

/-!
# Payloads in parts

Lind sends several results in one payload, a frame: the lengths of the parts, four bytes each, and
then the parts. `CopyMultiDataVa` takes a frame apart, given the number of parts.

`ParseResponse` passes it the length of the payload instead. That is more than the number of parts,
so that the loop takes payload for lengths and asks for destinations that were not passed; only a
length that wraps around to the number of parts could make up for it (`delivers_iff`).
-/

namespace ReferenceMonitor

open Halting

/-! ### Where the copying stays inside -/

/-- The copies of a payload in parts all stay inside their blocks, and its offsets inside `int`. -/
def PartsFit (src : ℤ → Byte) : (rounds i : ℕ) → (offset : ℤ) → List Dest → Prop
  | 0, _, _, _ => True
  | _ + 1, _, _, [] => False
  | rounds + 1, i, offset, d :: varg =>
    let srclen := lengthAt src i
    let len := copyLen d.maxlen srclen
    (len = 0 ∨ ∃ b, d.ptr = .block b ∧ 0 < len ∧ len ≤ b.cells.length) ∧
      -2 ^ 31 ≤ offset + srclen ∧ offset + srclen < 2 ^ 31 ∧
      PartsFit src rounds (i + 1) (offset + srclen) varg

theorem returns_copyData_iff (d : Ptr) (src : ℤ → Byte) (maxlen srclen : ℤ)
    (p : Env × ByteMemory) (log : List Word) :
    (copyData d src maxlen srclen p log).Returns ↔ copyLen maxlen srclen = 0 ∨
      ∃ b, d = .block b ∧ 0 < copyLen maxlen srclen ∧ copyLen maxlen srclen ≤ b.cells.length := by
  unfold copyData
  rw [ite_run]
  by_cases h0 : copyLen maxlen srclen = 0
  · rw [if_pos h0]
    exact iff_of_true trivial (.inl h0)
  · rw [if_neg h0]
    cases d with
    | block b =>
      simp only [ite_run, h0, false_or, Ptr.block.injEq, exists_eq_left']
      split <;> simp_all
    | foreign a => simp [h0, noteForeign]
    | stray a => simp [h0]

/-- The parts fit exactly where the copying returns. -/
theorem returns_copyMultiLoop_iff (src : ℤ → Byte) (rounds i : ℕ) (offset : ℤ) (varg : List Dest)
    (p : Env × ByteMemory) (log : List Word) :
    (copyMultiLoop src rounds i offset varg p log).Returns ↔ PartsFit src rounds i offset varg := by
  induction rounds generalizing i offset varg log with
  | zero => exact iff_of_true trivial trivial
  | succ rounds ih =>
    cases varg with
    | nil => exact iff_of_false id id
    | cons d varg =>
      have hrest (dst : Ptr) (log : List Word) :
          ((if 2 ^ 31 ≤ offset + lengthAt src i ∨ offset + lengthAt src i < -2 ^ 31 then
              stop .intOverflow
            else return dst :: (← copyMultiLoop src rounds (i + 1) (offset + lengthAt src i) varg) :
            Fetch (List Ptr)) p log).Returns ↔
            -2 ^ 31 ≤ offset + lengthAt src i ∧ offset + lengthAt src i < 2 ^ 31 ∧
              PartsFit src rounds (i + 1) (offset + lengthAt src i) varg := by
        rw [ite_run]
        split
        · exact iff_of_false id fun h ↦ by omega
        · rw [bind_apply, Outcome.returns_andThen_iff, ← ih (i + 1) _ varg log,
            Outcome.returns_iff]
          simp only [pure_apply, Outcome.returns_done, and_true]
          exact ⟨fun h ↦ ⟨by omega, by omega, h⟩, fun h ↦ h.2.2⟩
      rw [copyMultiLoop, bind_apply, Outcome.returns_andThen_iff, PartsFit, ←
        returns_copyData_iff d.ptr (fun o ↦ src (offset + o)) d.maxlen (lengthAt src i) p log]
      simp only [hrest, Outcome.returns_iff, exists_and_right]

theorem PartsFit.rounds_le {src : ℤ → Byte} {rounds i : ℕ} {offset : ℤ} {varg : List Dest}
    (h : PartsFit src rounds i offset varg) : rounds ≤ varg.length := by
  induction rounds generalizing i offset varg with
  | zero => exact Nat.zero_le _
  | succ rounds ih =>
    cases varg with
    | nil => exact h.elim
    | cons d varg => exact Nat.succ_le_succ (ih h.2.2.2)

/-- The destinations after the last part are not looked at. -/
theorem PartsFit.take {src : ℤ → Byte} {rounds i : ℕ} {offset : ℤ} {varg : List Dest}
    (h : PartsFit src rounds i offset varg) : PartsFit src rounds i offset (varg.take rounds) := by
  induction rounds generalizing i offset varg with
  | zero => trivial
  | succ rounds ih =>
    cases varg with
    | nil => exact h.elim
    | cons d varg => exact ⟨h.1, h.2.1, h.2.2.1, ih h.2.2.2⟩

/-! ### The calls of `CopyData` -/

/-- The calls of `CopyData` that `ParseResponse` makes on a success: the destination, and the number
of bytes there are for it. -/
def copyCalls (env : Env) (num : ℕ) (data : List Byte) (varg : List Dest) : List (Dest × ℤ) :=
  let len := wrapInt data.length
  if num = 1 then (varg.take 1).map fun d ↦ (d, len)
  else if 1 < num then
    (varg.take len.toNat).mapIdx fun i d ↦ (d, lengthAt (payloadAt env data) i)
  else []

/-- The call writes no more bytes than the buffer has. A negative number is a huge one for
`memcpy`. -/
def StaysInside (call : Dest × ℤ) : Prop :=
  ∀ b, call.1.ptr = .block b →
    0 ≤ copyLen call.1.maxlen call.2 ∧ copyLen call.1.maxlen call.2 ≤ b.cells.length

/-- A limit and a number of bytes that together stay inside a buffer of this size. -/
def Within (size : ℕ) (limit n : ℤ) : Prop := 0 ≤ n ∧ 0 ≤ limit ∧ (limit ≤ size ∨ n ≤ size)

instance (size : ℕ) (limit n : ℤ) : Decidable (Within size limit n) :=
  inferInstanceAs (Decidable (_ ∧ _ ∧ _))

theorem copyLen_within_iff {size : ℕ} {limit n : ℤ} :
    0 ≤ copyLen limit n ∧ copyLen limit n ≤ size ↔ Within size limit n := by
  rw [copyLen, Within]
  split <;> omega

theorem staysInside_block_iff {b : Block} {limit n : ℤ} :
    StaysInside (⟨.block b, limit⟩, n) ↔ Within b.cells.length limit n := by
  rw [← copyLen_within_iff]
  exact ⟨fun h ↦ h b rfl, fun h b' hb ↦ by cases hb; exact h⟩

theorem staysInside_foreign (a : Word) (limit n : ℤ) : StaysInside (⟨.foreign a, limit⟩, n) :=
  fun _ hb ↦ by cases hb

/-- A loop that returns has stayed inside its buffers. -/
theorem PartsFit.staysInside {src : ℤ → Byte} {rounds i : ℕ} {offset : ℤ} {varg : List Dest}
    (h : PartsFit src rounds i offset varg) :
    ∀ k d, (varg.take rounds)[k]? = some d → StaysInside (d, lengthAt src (i + k)) := by
  induction rounds generalizing i offset varg with
  | zero => simp
  | succ rounds ih =>
    obtain _ | ⟨first, varg⟩ := varg
    · exact h.elim
    rintro (_ | k) d hd b hb
    · obtain rfl : first = d := by simpa using hd
      rcases h.1 with hzero | ⟨b', hb', hpos, hle⟩
      · dsimp only
        rw [Nat.add_zero, hzero]
        exact ⟨le_refl _, Int.natCast_nonneg _⟩
      · rw [hb', Ptr.block.injEq] at hb
        subst hb
        exact ⟨hpos.le, hle⟩
    · have hrest := ih h.2.2.2 k d (by simpa using hd) b hb
      rwa [show i + 1 + k = i + (k + 1) by omega] at hrest

/-! ### Frames -/

/-- A length, in four bytes. -/
def lengthBytes (n : ℕ) : List Byte := (List.range 4).map (byteOf (BitVec.ofNat 64 n))

/-- The frame of some parts. -/
def frame (parts : List (List Byte)) : List Byte :=
  parts.flatMap (fun part ↦ lengthBytes part.length) ++ parts.flatten

@[simp] theorem length_lengthBytes (n : ℕ) : (lengthBytes n).length = 4 := by simp [lengthBytes]

theorem length_header (parts : List (List Byte)) :
    (parts.flatMap fun part ↦ lengthBytes part.length).length = 4 * parts.length := by
  simp [List.length_flatMap, List.map_const', Nat.mul_comm]

theorem length_frame (parts : List (List Byte)) :
    (frame parts).length = 4 * parts.length + parts.flatten.length := by
  rw [frame, List.length_append, length_header]

theorem getElem?_lengthBytes (n : ℕ) {j : ℕ} (hj : j < 4) :
    (lengthBytes n)[j]? = some (byteOf (BitVec.ofNat 64 n) j) := by
  rw [lengthBytes, List.getElem?_map, List.getElem?_range hj]
  rfl

theorem getElem?_header {parts : List (List Byte)} {i j : ℕ} {part : List Byte}
    (h : parts[i]? = some part) (hj : j < 4) :
    (parts.flatMap fun part ↦ lengthBytes part.length)[4 * i + j]? =
      some (byteOf (BitVec.ofNat 64 part.length) j) := by
  induction parts generalizing i with
  | nil => simp at h
  | cons first parts ih =>
    rw [List.flatMap_cons]
    cases i with
    | zero =>
      obtain rfl : first = part := by simpa using h
      rw [List.getElem?_append_left (by simpa using hj), Nat.mul_zero, Nat.zero_add,
        getElem?_lengthBytes _ hj]
    | succ i =>
      rw [List.getElem?_append_right (by rw [length_lengthBytes]; omega), length_lengthBytes,
        show 4 * (i + 1) + j - 4 = 4 * i + j by omega]
      exact ih (by simpa using h)

/-- The narrowed word depends on its low four bytes. -/
theorem cInt_wordOf {f : ℕ → Byte} {w : Word} (h : ∀ j < 4, f j = byteOf w j) :
    cInt (wordOf f) = cInt w := by
  have hbyte (j : ℕ) (hj : j < 4) : byteOf (wordOf f) j = byteOf w j := by
    rw [byteOf_wordOf f (by omega), h j hj]
  rw [cInt, cInt]
  congr 1
  refine BitVec.eq_of_getLsbD_eq fun i hi ↦ ?_
  have hbit := congrArg (fun b : Byte ↦ b.getLsbD (i % 8)) (hbyte (i / 8) (by omega))
  simp only [byteOf, BitVec.getLsbD_extractLsb', Nat.mod_lt i (show 8 > 0 by decide), decide_true,
    Bool.true_and, Nat.div_add_mod] at hbit
  rw [BitVec.getLsbD_setWidth, BitVec.getLsbD_setWidth, hbit]

theorem payloadAt_natCast {env : Env} {data : List Byte} {n : ℕ} {b : Byte}
    (h : data[n]? = some b) : payloadAt env data n = b := by
  have hn := (List.getElem?_eq_some_iff.1 h).1
  rw [payloadAt, if_pos (by omega), Int.toNat_natCast, List.getD_eq_getElem?_getD, h,
    Option.getD_some]

/-- The lengths in a frame are those of its parts. -/
theorem lengthAt_of_header {src : ℤ → Byte} {parts : List (List Byte)}
    (hsrc : ∀ (k : ℕ) b, (frame parts)[k]? = some b → src k = b) {i : ℕ} {part : List Byte}
    (h : parts[i]? = some part) : lengthAt src i = wrapInt part.length := by
  have hbytes (j : ℕ) (hj : j < 4) : src (4 * i + j) = byteOf (BitVec.ofNat 64 part.length) j := by
    have hget := getElem?_header h hj
    have hlt := (List.getElem?_eq_some_iff.1 hget).1
    exact mod_cast hsrc (4 * i + j) _ (by rw [frame, List.getElem?_append_left hlt, hget])
  rw [lengthAt, cInt_wordOf hbytes, ← cInt_ofInt, ofInt, BitVec.ofInt_natCast]

theorem lengthAt_frame (env : Env) {parts : List (List Byte)} {i : ℕ} {part : List Byte}
    (h : parts[i]? = some part) :
    lengthAt (payloadAt env (frame parts)) i = wrapInt part.length :=
  lengthAt_of_header (fun _ _ ↦ payloadAt_natCast) h

/-! ### The loop on a frame -/

/-- A destination: a buffer of the caller, with at least as many bytes as it takes. -/
structure Dest.Room (d : Dest) (b : Block) : Prop where
  ptr : d.ptr = .block b
  nonneg : 0 ≤ d.maxlen
  le : d.maxlen ≤ b.cells.length

/-- A destination after its part was stored: the first bytes of the part, as many as it takes. -/
def partStored (d : Dest) (part : List Byte) : Ptr :=
  match d.ptr with
  | .block b => .block (b.store ((part.take d.maxlen.toNat).map .stored))
  | p => p

/-- The loop, from this offset on, stays inside the `int` range and finds the bytes of each part. -/
def PartsRight (src : ℤ → Byte) : (offset : ℤ) → List Dest → List (List Byte) → Prop
  | offset, d :: dests, part :: parts =>
    part.length < 2 ^ 31 ∧ offset + part.length < 2 ^ 31 ∧
      ((List.range (part.take d.maxlen.toNat).length).map fun j : ℕ ↦ src (offset + j)) =
        part.take d.maxlen.toNat ∧
      PartsRight src (offset + part.length) dests parts
  | _, _, _ => True

theorem store_inj {b : Block} {cells cells' : List Cell} (hlen : cells.length = cells'.length)
    (h : b.store cells = b.store cells') : cells = cells' := by
  rw [Block.store, Block.store, Block.mk.injEq] at h
  exact (List.append_inj h.2 hlen).1

/-- A destination for a part of this length: a limit that is not negative, and a buffer of the
caller with room for what is copied, if anything is. -/
structure Dest.Takes (d : Dest) (n : ℕ) : Prop where
  nonneg : 0 ≤ d.maxlen
  room : min d.maxlen.toNat n = 0 ∨ ∃ b, d.ptr = .block b ∧ min d.maxlen.toNat n ≤ b.cells.length

theorem Dest.Room.takes {d : Dest} {b : Block} (h : d.Room b) (n : ℕ) : d.Takes n := by
  have hle := h.le
  exact ⟨h.nonneg, .inr ⟨b, h.ptr, by omega⟩⟩

theorem copyLen_natCast {maxlen : ℤ} (h : 0 ≤ maxlen) (n : ℕ) :
    copyLen maxlen n = (min maxlen.toNat n : ℕ) := by
  rw [copyLen]
  split <;> omega

/-- Some bytes from an offset on. -/
def bytesFrom (src : ℤ → Byte) (offset : ℤ) (n : ℕ) : List Byte :=
  (List.range n).map fun j : ℕ ↦ src (offset + j)

theorem take_bytesFrom (src : ℤ → Byte) (offset : ℤ) (k n : ℕ) :
    (bytesFrom src offset n).take k = bytesFrom src offset (min k n) := by
  rw [bytesFrom, ← List.map_take, List.take_range, bytesFrom]

theorem bytesFrom_eq {src : ℤ → Byte} {offset : ℤ} {bytes : List Byte}
    (h : ∀ (j : ℕ) b, bytes[j]? = some b → src (offset + j) = b) :
    bytesFrom src offset bytes.length = bytes := by
  refine List.ext_getElem (by simp [bytesFrom]) fun j hj hj' ↦ ?_
  rw [← h j _ (List.getElem?_eq_getElem hj')]
  simp [bytesFrom]

/-- `CopyData` to a destination, for a length that is an `int`. -/
theorem copyData_of_takes {d : Dest} {n : ℕ} (h : d.Takes n) (src : ℤ → Byte) (offset : ℤ) :
    copyData d.ptr (fun o ↦ src (offset + o)) d.maxlen n =
      pure (partStored d (bytesFrom src offset n)) := by
  rw [partStored, take_bytesFrom]
  by_cases hz : min d.maxlen.toNat n = 0
  · rw [copyData.eq_def, copyLen_natCast h.nonneg, hz]
    cases d.ptr <;> rfl
  · obtain ⟨b, hb, hle⟩ := h.room.resolve_left hz
    rw [hb, copyData, copyLen_natCast h.nonneg, if_neg (by omega), bytesFrom, List.map_map]
    exact if_pos ⟨by omega, by omega⟩

/-- A round with a length that is not negative. -/
theorem copyMultiLoop_cons {d : Dest} {src : ℤ → Byte} {rounds i n : ℕ} (h : d.Takes n)
    {offset : ℤ} {dests : List Dest} (hn : lengthAt src i = n) (hlow : -2 ^ 31 ≤ offset)
    (p : Env × ByteMemory) (log : List Word) :
    copyMultiLoop src (rounds + 1) i offset (d :: dests) p log =
      if offset + n < 2 ^ 31 then
        (copyMultiLoop src rounds (i + 1) (offset + n) dests p log).andThen fun dsts log' ↦
          .done (partStored d (bytesFrom src offset n) :: dsts) log'
      else .halt .intOverflow log := by
  rw [copyMultiLoop, bind_apply, hn, copyData_of_takes h, pure_apply, Outcome.andThen_done, ite_run]
  by_cases hlt : offset + n < 2 ^ 31
  · rw [if_neg (by omega), if_pos hlt]
    rfl
  · rw [if_pos (by omega), if_neg hlt]
    rfl

/-- Where the bytes from the offset on are those of the parts, the loop returns the parts, each cut
off at the limit of its destination. -/
theorem copyMultiLoop_parts {src : ℤ → Byte} {parts : List (List Byte)} {dests : List Dest}
    {i : ℕ} {offset : ℤ} (htakes : List.Forall₂ (fun d part ↦ d.Takes part.length) dests parts)
    (hlengths : ∀ k part, parts[k]? = some part → lengthAt src (i + k) = part.length)
    (hbytes : ∀ (j : ℕ) b, parts.flatten[j]? = some b → src (offset + j) = b)
    (hlow : -2 ^ 31 ≤ offset) (hend : offset + parts.flatten.length < 2 ^ 31)
    (p : Env × ByteMemory) (log : List Word) :
    copyMultiLoop src parts.length i offset dests p log =
      .done (List.zipWith partStored dests parts) log := by
  induction htakes generalizing i offset with
  | nil => rfl
  | @cons d part dests parts htake _ ih =>
    rw [List.flatten_cons, List.length_append] at hend
    have hfirst : bytesFrom src offset part.length = part :=
      bytesFrom_eq fun j b hj ↦ hbytes j b (by
        rw [List.flatten_cons, List.getElem?_append_left (List.getElem?_eq_some_iff.1 hj).1, hj])
    -- the offset advances by the length of the part, also where the limit cut it off
    have hrest : copyMultiLoop src parts.length (i + 1) (offset + part.length) dests p log =
        .done (List.zipWith partStored dests parts) log :=
      ih (fun k c h ↦ by rw [Nat.add_right_comm]; exact hlengths (k + 1) c h)
        (fun j b h ↦ by
          rw [add_assoc, ← Nat.cast_add]
          exact hbytes _ b (by rw [List.flatten_cons, List.getElem?_append_right (by omega),
            Nat.add_sub_cancel_left, h]))
        (by omega) (by omega)
    rw [List.length_cons, copyMultiLoop_cons htake (by simpa using hlengths 0 part rfl) hlow,
      if_pos (by omega), hrest, hfirst]
    rfl

theorem partStored_bytesFrom_iff {d : Dest} {b : Block} (hd : d.Room b) {src : ℤ → Byte}
    {offset : ℤ} {part : List Byte} :
    partStored d (bytesFrom src offset part.length) = partStored d part ↔
      bytesFrom src offset (part.take d.maxlen.toNat).length = part.take d.maxlen.toNat := by
  rw [partStored, partStored, hd.ptr, take_bytesFrom, ← List.length_take]
  constructor
  · intro h
    exact (List.map_inj_right fun _ _ h ↦ Cell.stored.inj h).1
      (store_inj (by simp [bytesFrom]) (Ptr.block.inj h))
  · intro h
    rw [h]

/-- A round with a negative length does not return. -/
theorem not_returns_copyMultiLoop_cons {d : Dest} {b : Block} (h : d.Room b) {src : ℤ → Byte}
    {rounds i : ℕ} {offset : ℤ} {dests : List Dest} (hneg : lengthAt src i < 0)
    (p : Env × ByteMemory) (log : List Word) :
    ¬ (copyMultiLoop src (rounds + 1) i offset (d :: dests) p log).Returns := by
  have hnonneg := h.nonneg
  have hlen : copyLen d.maxlen (lengthAt src i) < 0 := by
    rw [copyLen]
    split <;> omega
  rw [returns_copyMultiLoop_iff, PartsFit]
  rintro ⟨hz | ⟨b', -, hpos, -⟩, -⟩ <;> omega

/-- **The loop on a frame** returns the parts exactly where it finds them. -/
theorem copyMultiLoop_eq_done_iff {src : ℤ → Byte} {i : ℕ} {offset : ℤ} {dests : List Dest}
    {parts : List (List Byte)} (hlen : dests.length = parts.length)
    (hroom : ∀ d ∈ dests, ∃ b, d.Room b) (hshort : ∀ part ∈ parts, part.length < 2 ^ 32)
    (hlengths : ∀ k part, parts[k]? = some part → lengthAt src (i + k) = wrapInt part.length)
    (hlow : -2 ^ 31 ≤ offset) (p : Env × ByteMemory) (log : List Word) :
    copyMultiLoop src parts.length i offset dests p log =
        .done (List.zipWith partStored dests parts) log ↔ PartsRight src offset dests parts := by
  induction parts generalizing i offset dests with
  | nil =>
    rw [List.length_nil, List.length_eq_zero_iff] at hlen
    subst hlen
    exact iff_of_true rfl trivial
  | cons part parts ih =>
    obtain _ | ⟨d, dests⟩ := dests
    · cases hlen
    obtain ⟨b, hd⟩ := hroom d List.mem_cons_self
    have hfirst : lengthAt src i = wrapInt part.length := hlengths 0 part rfl
    have hpart := hshort part List.mem_cons_self
    rw [List.length_cons, List.zipWith_cons_cons, PartsRight]
    by_cases hint : part.length < 2 ^ 31
    · rw [wrapInt_eq_self (by omega) (by omega)] at hfirst
      rw [copyMultiLoop_cons (hd.takes _) hfirst hlow]
      have hrest : copyMultiLoop src parts.length (i + 1) (offset + part.length) dests p log =
          .done (List.zipWith partStored dests parts) log ↔
            PartsRight src (offset + part.length) dests parts :=
        ih (by simpa using hlen) (fun d' h ↦ hroom d' (List.mem_cons_of_mem _ h))
          (fun c h ↦ hshort c (List.mem_cons_of_mem _ h))
          (fun k c h ↦ by rw [Nat.add_right_comm]; exact hlengths (k + 1) c h) (by omega)
      rw [← hrest]
      by_cases hoff : offset + part.length < 2 ^ 31
      · simp only [hint, hoff, if_true, true_and]
        constructor
        · intro h
          obtain ⟨dsts, log', hloop, hdone⟩ := Outcome.andThen_eq_done_iff.1 h
          simp only [Outcome.done.injEq, List.cons.injEq] at hdone
          obtain ⟨⟨hstore, rfl⟩, rfl⟩ := hdone
          exact ⟨(partStored_bytesFrom_iff hd).1 hstore, hloop⟩
        · rintro ⟨hbytes, hloop⟩
          rw [hloop, Outcome.andThen_done, (partStored_bytesFrom_iff hd).2 hbytes]
      · rw [if_neg hoff]
        exact iff_of_false (fun h ↦ by cases h) fun h ↦ hoff h.2.1
    · -- the length field of a part of `2 ^ 31` bytes or more reads as a negative `int`
      have hneg : lengthAt src i < 0 := by
        rw [hfirst, wrapInt_eq_sub (by omega) (by omega)]
        omega
      refine iff_of_false (fun h ↦ ?_) fun h ↦ hint h.1
      exact not_returns_copyMultiLoop_cons hd hneg p log (by rw [h]; trivial)

/-- The loop ends behind the last part, still inside the `int` range. -/
theorem PartsRight.end_lt {src : ℤ → Byte} {offset : ℤ} {dests : List Dest}
    {parts : List (List Byte)} (h : PartsRight src offset dests parts)
    (hlen : dests.length = parts.length) (hoffset : offset < 2 ^ 31) :
    offset + parts.flatten.length < 2 ^ 31 := by
  induction parts generalizing offset dests with
  | nil => simpa using hoffset
  | cons part parts ih =>
    obtain _ | ⟨d, dests⟩ := dests
    · cases hlen
    have hrest := ih h.2.2.2 (by simpa using hlen) h.2.1
    rw [List.flatten_cons, List.length_append]
    omega

/-! ### `CopyMultiData` on a frame -/

/-- **Taking a frame apart.** Given the number of parts, `CopyMultiData` stores the first bytes of
each part in its destination, as many as the destination takes, and nothing else. -/
theorem copyMultiData_frame {src : ℤ → Byte} {parts : List (List Byte)} {dests : List Dest}
    (hshort : (frame parts).length < 2 ^ 31)
    (hsrc : ∀ (k : ℕ) b, (frame parts)[k]? = some b → src k = b)
    (htakes : List.Forall₂ (fun d part ↦ d.Takes part.length) dests parts)
    (p : Env × ByteMemory) (log : List Word) :
    copyMultiData src parts.length dests p log =
      .done (List.zipWith partStored dests parts) log := by
  rw [length_frame] at hshort
  rw [copyMultiData, copyMultiDataVa, Int.toNat_natCast, wrapInt_eq_self (by omega) (by omega)]
  refine copyMultiLoop_parts htakes (fun k part h ↦ ?_) (fun j b h ↦ ?_) (by omega) (by omega) p log
  · have hle := (List.sublist_flatten_of_mem (List.mem_of_getElem? h)).length_le
    rw [Nat.zero_add, lengthAt_of_header hsrc h, wrapInt_eq_self (by omega) (by omega)]
  · -- the payload of the frame begins behind its header
    have hget : (frame parts)[4 * parts.length + j]? = some b := by
      rw [frame, List.getElem?_append_right (by rw [length_header]; omega), length_header,
        Nat.add_sub_cancel_left, h]
    exact mod_cast hsrc _ b hget

/-! ### `ParseResponse` on a frame -/

/-- `ParseResponse` returns the code with each part in its destination, changes nothing else but
`errno`, and takes all of the destinations. -/
def Delivers (env : Env) (w : World) (r : Response) (num : ℕ) (code : ℤ) (dests : List Dest)
    (parts : List (List Byte)) : Prop :=
  parseResponse (some r) num dests env w =
      .done (code, List.zipWith partStored dests parts) { w with errno := 0 } ∧
    ∀ k < num, ¬ (parseResponse (some r) num (dests.take k) env w).Returns

/-- With several destinations, `ParseResponse` on a success is the loop, with the length of the
payload as the number of rounds. -/
theorem parseResponse_success {r : Response} {num : ℕ} {code : ℤ} {data : List Byte}
    (hnum : 1 < num)
    (hr : judge r = .success code data) (dests : List Dest) (env : Env) (w : World) :
    parseResponse (some r) num dests env w =
      (fetch (copyMultiLoop (payloadAt env data) (wrapInt data.length).toNat 0
        (wrapInt (4 * wrapInt data.length)) dests) env { w with errno := 0 }).andThen
          fun dsts w' ↦ .done (wrapInt code, dsts) w' := by
  rw [parseResponse, hr]
  simp only [bind_apply, setErrno, modify_apply, Outcome.andThen_done]
  rw [show fetch (copyPayload num data dests) env { w with errno := 0 } =
    fetch (copyMultiLoop (payloadAt env data) (wrapInt data.length).toNat 0
      (wrapInt (4 * wrapInt data.length)) dests) env { w with errno := 0 } from ?_]
  · rfl
  · simp only [fetch, focus, copyPayload, bind_apply, ask_apply, Outcome.andThen_done, ite_run]
    rw [if_neg (by omega), if_pos hnum]
    rfl

theorem returns_parseResponse_iff {r : Response} {num : ℕ} {code : ℤ} {data : List Byte}
    (hnum : 1 < num) (hr : judge r = .success code data) {dests : List Dest} {env : Env}
    {w : World} :
    (parseResponse (some r) num dests env w).Returns ↔
      PartsFit (payloadAt env data) (wrapInt data.length).toNat 0
        (wrapInt (4 * wrapInt data.length)) dests := by
  rw [parseResponse_success hnum hr, Outcome.returns_andThen_iff,
    ← returns_copyMultiLoop_iff _ _ _ _ _ (env, w.tracee.mem) []]
  simp only [Outcome.returns_done, and_true]
  rw [← Outcome.returns_iff, fetch, focus]
  cases copyMultiLoop (payloadAt env data) (wrapInt data.length).toNat 0
    (wrapInt (4 * wrapInt data.length)) dests (env, w.tracee.mem) [] <;> exact Iff.rfl

theorem fetch_eq_done_iff {α : Type} {q : Fetch α} {env : Env} {w : World} {a : α} :
    fetch q env w = .done a w ↔ q (env, w.tracee.mem) [] = .done a [] := by
  rw [fetch, focus]
  cases q (env, w.tracee.mem) [] with
  | done b log =>
    constructor
    · intro h
      simp only [Outcome.done.injEq] at h ⊢
      obtain ⟨rfl, hw⟩ := h
      have htrace := congrArg (fun w ↦ w.trace.length) hw
      simp only [List.length_append, List.length_map] at htrace
      exact ⟨rfl, List.length_eq_zero_iff.1 (by omega)⟩
    · intro h
      cases h
      rfl
  | halt e log => simp

/-- The loop takes the parts of the frame, as many as there are, and finds them. -/
structure FrameTaken (env : Env) (code : ℤ) (dests : List Dest) (parts : List (List Byte)) :
    Prop where
  code : -2 ^ 31 ≤ code ∧ code < 2 ^ 31
  rounds : wrapInt (frame parts).length = parts.length
  right : PartsRight (payloadAt env (frame parts)) (wrapInt (4 * parts.length)) dests parts

/-- Where four bytes for each part are an `int`, the length of the frame is no number of parts. -/
theorem not_frameTaken {env : Env} {code : ℤ} {dests : List Dest} {parts : List (List Byte)}
    (hlen : dests.length = parts.length) (hpos : 0 < parts.length) (hlt : parts.length < 2 ^ 29) :
    ¬ FrameTaken env code dests parts := by
  intro h
  have hright := h.right
  rw [wrapInt_eq_self (by omega) (by omega)] at hright
  have hend := hright.end_lt hlen (by omega)
  have hrounds := h.rounds
  rw [length_frame, wrapInt_eq_self (by omega) (by omega)] at hrounds
  omega

section Frame

variable {env : Env} {w : World} {r : Response} {code : ℤ} {dests : List Dest}
  {parts : List (List Byte)}

theorem wrapInt_length_eq_of_delivers (hr : judge r = .success code (frame parts))
    (hnum : 2 ≤ parts.length) (hlen : dests.length = parts.length)
    (h : Delivers env w r parts.length code dests parts) :
    wrapInt (frame parts).length = parts.length := by
  obtain ⟨hdone, hfewer⟩ := h
  have hfit := (returns_parseResponse_iff hnum hr).1 (by rw [hdone]; trivial)
  have hle := hfit.rounds_le
  have hge : ¬ (wrapInt (frame parts).length).toNat < parts.length := fun hlt ↦
    hfewer _ hlt ((returns_parseResponse_iff hnum hr).2 hfit.take)
  omega

/-- Where the length of the frame is the number of parts, the loop decides. -/
theorem parseResponse_eq_done_iff (hr : judge r = .success code (frame parts))
    (hnum : 2 ≤ parts.length) (hlen : dests.length = parts.length)
    (hroom : ∀ d ∈ dests, ∃ b, d.Room b) (hshort : ∀ part ∈ parts, part.length < 2 ^ 32)
    (hrounds : wrapInt (frame parts).length = parts.length) :
    parseResponse (some r) parts.length dests env w =
        .done (code, List.zipWith partStored dests parts) { w with errno := 0 } ↔
      wrapInt code = code ∧
        PartsRight (payloadAt env (frame parts)) (wrapInt (4 * parts.length)) dests parts := by
  rw [parseResponse_success hnum hr, hrounds, Int.toNat_natCast,
    ← copyMultiLoop_eq_done_iff hlen hroom hshort
      (fun k part h ↦ by rw [Nat.zero_add]; exact lengthAt_frame env h) (wrapInt_bounds _).1
      (env, w.tracee.mem) [], ← fetch_eq_done_iff (w := { w with errno := 0 }),
    Outcome.andThen_eq_done_iff]
  constructor
  · rintro ⟨dsts, w', hfetch, hret⟩
    simp only [Outcome.done.injEq, Prod.mk.injEq] at hret
    obtain ⟨⟨hcode, rfl⟩, rfl⟩ := hret
    exact ⟨hcode, hfetch⟩
  · rintro ⟨hcode, hfetch⟩
    exact ⟨_, _, hfetch, by rw [hcode]⟩

/-- **Payloads in parts.** `ParseResponse` delivers the parts of a frame exactly where the length of
the frame wraps around to their number and the loop finds them all the same; with less than `2 ^ 29`
destinations, never. -/
theorem delivers_iff (hr : judge r = .success code (frame parts)) (hnum : 2 ≤ parts.length)
    (hlen : dests.length = parts.length) (hroom : ∀ d ∈ dests, ∃ b, d.Room b)
    (hshort : ∀ part ∈ parts, part.length < 2 ^ 32) :
    (Delivers env w r parts.length code dests parts ↔ FrameTaken env code dests parts) ∧
      (parts.length < 2 ^ 29 → ¬ Delivers env w r parts.length code dests parts) := by
  have hcode : wrapInt code = code ↔ -2 ^ 31 ≤ code ∧ code < 2 ^ 31 :=
    ⟨fun h ↦ h ▸ wrapInt_bounds code, fun h ↦ wrapInt_eq_self h.1 h.2⟩
  have hiff : Delivers env w r parts.length code dests parts ↔ FrameTaken env code dests parts := by
    constructor
    · intro h
      have hrounds := wrapInt_length_eq_of_delivers hr hnum hlen h
      obtain ⟨hc, hright⟩ := (parseResponse_eq_done_iff hr hnum hlen hroom hshort hrounds).1 h.1
      exact ⟨hcode.1 hc, hrounds, hright⟩
    · intro h
      refine ⟨(parseResponse_eq_done_iff hr hnum hlen hroom hshort h.rounds).2
        ⟨hcode.2 h.code, h.right⟩, fun k hk hreturns ↦ ?_⟩
      have hle := ((returns_parseResponse_iff hnum hr).1 hreturns).rounds_le
      rw [h.rounds, Int.toNat_natCast, List.length_take] at hle
      omega
  exact ⟨hiff, fun hlt h ↦ not_frameTaken hlen (by omega) hlt (hiff.1 h)⟩

end Frame

/-! ### Three parts -/

/-- Three parts, of which the first is the length of the third. -/
def threeParts : List (List Byte) := [[16, 0, 0, 0], [104, 105], List.replicate 16 0]

/-- Three destinations with room for them. -/
def threeDests : List Dest := [⟨.block (malloc 0 4), 4⟩, ⟨.block (malloc 1 8), 8⟩,
  ⟨.block (malloc 2 16), 16⟩]

theorem room_threeDests : ∀ d ∈ threeDests, ∃ b, d.Room b := by
  intro d hd
  simp only [threeDests, List.mem_cons, List.not_mem_nil, or_false] at hd
  rcases hd with rfl | rfl | rfl <;> exact ⟨_, rfl, by decide, by decide⟩

theorem judge_threeParts :
    judge (successResponse 2 (frame threeParts)) = .success 2 (frame threeParts) :=
  judge_successResponse (by decide) (by decide) _

theorem delivers_iff_threeParts :
    (Delivers Env.blank zeroWorld (successResponse 2 (frame threeParts)) 3 2 threeDests threeParts ↔
        FrameTaken Env.blank 2 threeDests threeParts) ∧
      (threeParts.length < 2 ^ 29 → ¬ Delivers Env.blank zeroWorld
        (successResponse 2 (frame threeParts)) 3 2 threeDests threeParts) :=
  delivers_iff judge_threeParts (by decide) rfl room_threeDests (by decide)

/-- The three parts of `recvfrom` do not arrive: the frame has 34 bytes, and not three. -/
theorem not_delivers : ¬ ∀ (env : Env) (w : World) (r : Response) (code : ℤ) (dests : List Dest)
    (parts : List (List Byte)), judge r = .success code (frame parts) → 2 ≤ parts.length →
      dests.length = parts.length → (∀ d ∈ dests, ∃ b, d.Room b) →
        (∀ part ∈ parts, part.length < 2 ^ 32) →
          Delivers env w r parts.length code dests parts := by
  intro h
  have hdelivers := h Env.blank zeroWorld _ 2 threeDests threeParts judge_threeParts (by decide) rfl
    room_threeDests (by decide)
  have hrounds := wrapInt_length_eq_of_delivers judge_threeParts (by decide) rfl hdelivers
  exact absurd hrounds (by decide)

/-- Destinations that cut off the first part, take nothing of the second and have room for the
third. -/
def cutDests : List Dest := [⟨.block (malloc 0 4), 2⟩, ⟨.block (malloc 1 8), 0⟩,
  ⟨.block (malloc 2 16), 20⟩]

theorem takes_cutDests : List.Forall₂ (fun d part ↦ d.Takes part.length) cutDests threeParts :=
  .cons ⟨by decide, .inr ⟨_, rfl, by decide⟩⟩ <|
    .cons ⟨by decide, .inl rfl⟩ <| .cons ⟨by decide, .inr ⟨_, rfl, by decide⟩⟩ .nil

theorem copyMultiData_frame_cutDests :
    copyMultiData (payloadAt Env.blank (frame threeParts)) threeParts.length cutDests
        (Env.blank, zeroWorld.tracee.mem) [] =
      .done (List.zipWith partStored cutDests threeParts) [] :=
  copyMultiData_frame (by decide) (fun _ _ ↦ payloadAt_natCast) takes_cutDests _ _

end ReferenceMonitor
