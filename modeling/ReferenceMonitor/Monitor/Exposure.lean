import ReferenceMonitor.Machine.SetMem
import ReferenceMonitor.Monitor.Blindness

/-!
# What the copies of a handler show of its buffers

The copies of a handler are a sequence of pokes. A `Slot` is one of them without its value: the word
it goes to, the offset of the buffer it is loaded from, and how many of its bytes are taken from
there. Which slot decides a byte of the tracee in the end depends on the ranges of the copies and on
what the tracee has mapped, and not on what the buffers hold.

A byte of a buffer that is `Known` was stored there; any other is as fresh memory had it. The copies
are independent of fresh memory exactly where every byte they show is known (`copyMem_blind_iff`).
-/

namespace ReferenceMonitor

open Halting

/-! ### Slots -/

/-- A range of the tracee that something is copied to. -/
structure Range (κ : Type) where
  dst : Word
  count : Word
  src : κ

/-- A word that is poked: the first `keep` bytes come from the source at the offset, the others from
`old`. -/
structure Slot (κ : Type) where
  addr : Word
  src : κ
  offset : ℤ
  keep : ℕ
  old : Word

/-- The word poked, given what the sources hold. -/
def Slot.value {κ : Type} (load : κ → ℤ → Word) (q : Slot κ) : Word :=
  mixWords q.old (load q.src q.offset) q.keep

/-- The same slot of another source. -/
def Slot.map {κ κ' : Type} (f : κ → κ') (q : Slot κ) : Slot κ' :=
  { addr := q.addr, src := f q.src, offset := q.offset, keep := q.keep, old := q.old }

/-- The slots of one `set_mem`. -/
def Range.slots {κ : Type} (m : ByteMemory) (r : Range κ) : List (Slot κ) :=
  let fullblocks := cInt (r.count / 8)
  (List.range fullblocks.toNat).map (fun i : ℕ ↦ ⟨wordAddr r.dst i, r.src, 8 * i, 8, 0⟩) ++
    if r.count.toNat % 8 = 0 then []
    else [⟨wordAddr r.dst fullblocks, r.src, 8 * fullblocks, r.count.toNat % 8,
      lastRet m r.dst fullblocks.toNat⟩]

/-- The slots of several. -/
def slots {κ : Type} (m : ByteMemory) (rs : List (Range κ)) : List (Slot κ) :=
  rs.flatMap (Range.slots m)

/-- The range a handler copies a buffer to. -/
def CopyBack.range (b : CopyBack) : Range Block := ⟨b.dst, b.count, b.block⟩

section Slots

variable {κ κ' : Type} {m : ByteMemory}

theorem mixWords_eight (old w : Word) : mixWords old w 8 = w :=
  word_ext fun i hi ↦ by rw [byteOf_mixWords old w 8 hi, if_pos hi]

theorem lastRet_of_sameMap {m' : ByteMemory} (h : m.SameMap m') (addr : Word) (n : ℕ) :
    lastRet m' addr n = lastRet m addr n := by
  cases n with
  | zero => rfl
  | succ n => simp only [lastRet, h.pokeable_iff]

theorem Range.slots_of_sameMap {m' : ByteMemory} (h : m.SameMap m') (r : Range κ) :
    r.slots m' = r.slots m := by
  rw [Range.slots, Range.slots]
  simp only [lastRet_of_sameMap h]

theorem slots_cons (r : Range κ) (rs : List (Range κ)) :
    slots m (r :: rs) = r.slots m ++ slots m rs := List.flatMap_cons

theorem slots_of_sameMap {m' : ByteMemory} (h : m.SameMap m') (rs : List (Range κ)) :
    slots m' rs = slots m rs := by
  rw [slots, slots]
  exact congrArg (rs.flatMap ·) (funext fun r ↦ r.slots_of_sameMap h)

theorem Range.map_slots (r : Range κ) (load : κ → ℤ → Word) :
    (r.slots m).map (fun q ↦ (q.addr, q.value load)) =
      copyPokes m r.dst (load r.src) r.count := by
  rw [Range.slots, copyPokes, List.map_append, List.map_map]
  congr 1
  · refine List.map_congr_left fun i _ ↦ ?_
    simp only [Function.comp_apply, Slot.value, mixWords_eight]
  · split <;> rfl

theorem Range.addr_slots (r : Range κ) : (r.slots m).map Slot.addr = copyWords r.dst r.count := by
  rw [← copyPokes_fst m r.dst (fun _ ↦ 0) r.count, ← r.map_slots fun _ _ ↦ 0, List.map_map]
  rfl

/-- A slot takes some bytes from its source, from offsets below the count. -/
theorem Range.mem_slots {r : Range κ} {q : Slot κ} (h : q ∈ r.slots m) :
    q.src = r.src ∧ 0 < q.keep ∧ q.keep ≤ 8 ∧ q.offset + q.keep ≤ r.count.toNat := by
  have hle : cInt (r.count / 8) ≤ (r.count / 8).toNat := by
    rw [cInt, BitVec.toInt_setWidth, Int.bmod_def]
    split <;> omega
  rw [toNat_div_eight] at hle
  rcases List.mem_append.1 h with h | h
  · obtain ⟨i, hi, rfl⟩ := List.mem_map.1 h
    have hlt := List.mem_range.1 hi
    refine ⟨rfl, Nat.succ_pos 7, le_refl _, ?_⟩
    dsimp only
    omega
  · split at h
    · exact absurd h List.not_mem_nil
    · obtain rfl := List.mem_singleton.1 h
      refine ⟨rfl, ?_, ?_, ?_⟩ <;> dsimp only <;> omega

theorem copyMem_eq_pokeAll (env : Env) (m : ByteMemory) (bs : List CopyBack) :
    copyMem env m bs = m.pokeAll ((slots m (bs.map CopyBack.range)).map
      fun q ↦ (q.addr, q.value fun b ↦ b.wordAt env)) := by
  induction bs generalizing m with
  | nil => rfl
  | cons b bs ih =>
    have hfirst : (b.range.slots m).map (fun q ↦ (q.addr, q.value fun b ↦ b.wordAt env)) =
        copyPokes m b.dst (b.block.wordAt env) b.count := Range.map_slots _ _
    have hmap := ByteMemory.sameMap_pokeAll (m := m)
      (copyPokes m b.dst (b.block.wordAt env) b.count)
    rw [copyMem, List.foldl_cons, ← copyMem, ih, List.map_cons, slots_cons, List.map_append,
      ByteMemory.pokeAll_append, hfirst, writeMem_eq_pokeAll, slots_of_sameMap hmap]

/-- The addresses of all words poked. -/
theorem addr_slots (rs : List (Range κ)) :
    (slots m rs).map Slot.addr = rs.flatMap fun r ↦ copyWords r.dst r.count := by
  rw [slots, List.map_flatMap]
  exact congrArg (rs.flatMap ·) (funext fun r ↦ r.addr_slots)

theorem mem_slots {rs : List (Range κ)} {q : Slot κ} (h : q ∈ slots m rs) :
    ∃ r ∈ rs, q.src = r.src ∧ 0 < q.keep ∧ q.keep ≤ 8 ∧ q.offset + q.keep ≤ r.count.toNat := by
  obtain ⟨r, hr, hq⟩ := List.mem_flatMap.1 h
  exact ⟨r, hr, Range.mem_slots hq⟩

/-- Byte `j` of a slot, as long as it comes from the source. -/
theorem Slot.byteOf_value (load : κ → ℤ → Word) (q : Slot κ) {j : ℕ} (hj : j < 8) :
    byteOf (q.value load) j =
      if j < q.keep then byteOf (load q.src q.offset) j else byteOf q.old j :=
  byteOf_mixWords _ _ _ hj

/-! ### What is shown -/

/-- `P` holds of every byte of a source, by its offset, that an address shows in the end. -/
def ShownOnly (m : ByteMemory) (rs : List (Range κ)) (P : κ → ℤ → Prop) : Prop :=
  ∀ i q (j : ℕ), (slots m rs)[i]? = some q → j < q.keep →
    m.Decides ((slots m rs).map Slot.addr) (q.addr + BitVec.ofNat 64 j) i q.addr →
      P q.src (q.offset + j)

theorem shownOnly_congr {rs : List (Range κ)} {P Q : κ → ℤ → Prop}
    (h : ∀ r ∈ rs, ∀ o < (r.count.toNat : ℤ), P r.src o ↔ Q r.src o) :
    ShownOnly m rs P ↔ ShownOnly m rs Q := by
  refine forall_congr' fun i ↦ forall_congr' fun q ↦ forall_congr' fun j ↦ forall_congr' fun hq ↦
    forall_congr' fun hj ↦ forall_congr' fun _ ↦ ?_
  obtain ⟨r, hr, hsrc, -, -, hcount⟩ := mem_slots (List.mem_of_getElem? hq)
  rw [hsrc]
  exact h r hr _ (by omega)

/-- The same range of another source. -/
def Range.map (f : κ → κ') (r : Range κ) : Range κ' := ⟨r.dst, r.count, f r.src⟩

theorem slots_map (f : κ → κ') (rs : List (Range κ)) :
    slots m (rs.map (Range.map f)) = (slots m rs).map (Slot.map f) := by
  rw [slots, slots, List.map_flatMap, List.flatMap_map]
  refine congrArg (rs.flatMap ·) (funext fun r ↦ ?_)
  rw [Range.slots, Range.slots, List.map_append, List.map_map]
  congr 1
  by_cases h : r.count.toNat % 8 = 0
  · rw [if_pos h]
    exact if_pos h
  · rw [if_neg h]
    exact if_neg h

theorem shownOnly_map (f : κ → κ') (rs : List (Range κ)) (P : κ' → ℤ → Prop) :
    ShownOnly m (rs.map (Range.map f)) P ↔ ShownOnly m rs fun s ↦ P (f s) := by
  have haddr : (slots m (rs.map (Range.map f))).map Slot.addr = (slots m rs).map Slot.addr := by
    rw [slots_map, List.map_map]
    rfl
  rw [ShownOnly, ShownOnly, haddr, slots_map]
  constructor
  · intro h i q j hq hj hd
    exact h i (q.map f) j (by rw [List.getElem?_map, hq, Option.map_some]) hj hd
  · intro h i q j hq hj hd
    rw [List.getElem?_map] at hq
    obtain ⟨p, hp, rfl⟩ := Option.map_eq_some_iff.1 hq
    exact h i p j hp hj hd

/-- Two lists of ranges that differ in their sources, where these show the same. -/
theorem shownOnly_iff_of_forall₂ {rs : List (Range κ)} {rs' : List (Range κ')}
    {P : κ → ℤ → Prop} {Q : κ' → ℤ → Prop}
    (h : List.Forall₂ (fun r r' ↦ r'.dst = r.dst ∧ r'.count = r.count ∧
      ∀ o < (r.count.toNat : ℤ), P r.src o ↔ Q r'.src o) rs rs') :
    ShownOnly m rs P ↔ ShownOnly m rs' Q := by
  obtain ⟨zs, rfl, rfl, hzs⟩ : ∃ zs : List (Range (κ × κ')),
      rs = zs.map (Range.map Prod.fst) ∧ rs' = zs.map (Range.map Prod.snd) ∧
        ∀ z ∈ zs, ∀ o < (z.count.toNat : ℤ), P z.src.1 o ↔ Q z.src.2 o := by
    induction h with
    | nil => exact ⟨[], rfl, rfl, fun z hz ↦ absurd hz List.not_mem_nil⟩
    | @cons r r' rs rs' hr _ ih =>
      obtain ⟨zs, rfl, rfl, hzs⟩ := ih
      obtain ⟨dst, count, src⟩ := r
      obtain ⟨dst', count', src'⟩ := r'
      obtain ⟨rfl, rfl, hsrc⟩ := hr
      exact ⟨⟨dst', count', (src, src')⟩ :: zs, rfl, rfl, List.forall_mem_cons.2 ⟨hsrc, hzs⟩⟩
  rw [shownOnly_map, shownOnly_map]
  exact shownOnly_congr hzs

end Slots

/-! ### Known bytes -/

/-- The byte of the block at the offset was stored there. -/
def Block.Known (b : Block) (o : ℤ) : Prop := 0 ≤ o ∧ ∃ v, b.cells[o.toNat]? = some (.stored v)

/-- The environment with one byte in all fresh memory, and around it. -/
def Env.filledWith (env : Env) (c : Option LindCall) (β : Byte) : Env :=
  { env with
    heap := fun _ _ ↦ β
    around := fun k o ↦ if HasVector c ∧ k = 1 then env.around k o else β }

section Known

variable {c : Option LindCall} {env env' : Env}

theorem sameButFresh_filledWith (c : Option LindCall) (env : Env) (β : Byte) :
    SameButFresh c env (env.filledWith c β) where
  eq := rfl
  vector hc := funext fun _ ↦ if_pos ⟨hc, rfl⟩

/-- A known byte is the same in all environments. -/
theorem Block.Known.byteAt_eq {b : Block} {o : ℤ} (h : b.Known o) (env env' : Env) :
    b.byteAt env' o = b.byteAt env o := by
  obtain ⟨ho, v, hv⟩ := h
  rw [Block.byteAt, Block.byteAt, if_pos ho, hv]
  rfl

/-- Any other is the one fresh memory is filled with. -/
theorem byteAt_filledWith {b : Block} {o : ℤ} (h : ¬ b.Known o)
    (hb : HasVector c → b.number ≠ 1) (env : Env) (β : Byte) :
    b.byteAt (env.filledWith c β) o = β := by
  rw [Block.byteAt]
  cases hcell : (if 0 ≤ o then b.cells[o.toNat]? else none) with
  | none => exact if_neg fun hc ↦ hb hc.1 hc.2
  | some cell =>
    split at hcell
    · rename_i ho
      cases cell with
      | stored v => exact absurd ⟨ho, v, hcell⟩ h
      | initial k i => rfl
    · cases hcell

/-- The byte an address shows in the end, by the slot that decides it. -/
theorem byte_copyMem_of_decides {m : ByteMemory} {bs : List CopyBack} {i : ℕ} {q : Slot Block}
    {x : Word} (hget : (slots m (bs.map CopyBack.range))[i]? = some q)
    (hd : m.Decides ((slots m (bs.map CopyBack.range)).map Slot.addr) x i q.addr) (env : Env) :
    (copyMem env m bs).byte x =
      some (if (x - q.addr).toNat < q.keep then q.src.byteAt env (q.offset + (x - q.addr).toNat)
        else byteOf q.old (x - q.addr).toNat) := by
  have hlt : (x - q.addr).toNat < 8 := hd.inWord
  rw [copyMem_eq_pokeAll]
  refine (ByteMemory.byte_pokeAll_of_decides (i := i)
    (w := (q.addr, q.value fun b ↦ b.wordAt env))
    (by rw [List.getElem?_map, hget, Option.map_some]) ?_).trans ?_
  · rwa [List.map_map]
  · rw [Slot.byteOf_value _ _ hlt, byteOf_wordAt _ _ _ hlt]

theorem byte_copyMem_of_not_decided {m : ByteMemory} {bs : List CopyBack} {x : Word}
    (h : ¬ ∃ a ∈ (slots m (bs.map CopyBack.range)).map Slot.addr, m.Pokeable a ∧ InWord a x)
    (env : Env) : (copyMem env m bs).byte x = m.byte x := by
  rw [copyMem_eq_pokeAll]
  refine ByteMemory.byte_pokeAll_of_not_touched fun ht ↦ h ?_
  obtain ⟨w, hw, hp⟩ := ht
  obtain ⟨q, hq, rfl⟩ := List.mem_map.1 hw
  exact ⟨q.addr, List.mem_map.2 ⟨q, hq, rfl⟩, hp⟩

theorem writable_copyMem (env : Env) (m : ByteMemory) (bs : List CopyBack) :
    (copyMem env m bs).writable = m.writable := by
  rw [copyMem_eq_pokeAll]
  exact (ByteMemory.sameMap_pokeAll _).2.symm

/-- **Independence.** The copies do not depend on fresh memory exactly where every byte they show is
known. -/
theorem copyMem_blind_iff {m : ByteMemory} {bs : List CopyBack}
    (hnum : HasVector c → ∀ b ∈ bs, b.block.number ≠ 1) :
    (∀ env', SameButFresh c env env' → copyMem env' m bs = copyMem env m bs) ↔
      ShownOnly m (bs.map CopyBack.range) Block.Known := by
  constructor
  · intro h i q j hget hj hd
    by_contra hknown
    obtain ⟨r, hr, hsrc, -, hkeep, -⟩ := mem_slots (List.mem_of_getElem? hget)
    obtain ⟨b, hb, rfl⟩ := List.mem_map.1 hr
    have hq : HasVector c → q.src.number ≠ 1 := fun hc ↦ by
      rw [hsrc]
      exact hnum hc b hb
    -- two fillings of fresh memory show two bytes
    have hshow (β : Byte) : (copyMem env m bs).byte (q.addr + BitVec.ofNat 64 j) = some β := by
      rw [← h _ (sameButFresh_filledWith c env β), byte_copyMem_of_decides hget hd,
        toNat_add_sub_self _ (by omega), if_pos hj, byteAt_filledWith hknown hq]
    exact absurd ((hshow 0).symm.trans (hshow 1)) (by decide)
  · intro h env' _
    refine ByteMemory.ext (funext fun x ↦ ?_) (by rw [writable_copyMem, writable_copyMem])
    by_cases hx : ∃ a ∈ (slots m (bs.map CopyBack.range)).map Slot.addr, m.Pokeable a ∧ InWord a x
    · obtain ⟨i, a, hd⟩ := ByteMemory.exists_decides hx
      obtain ⟨q, hget, rfl⟩ := Option.map_eq_some_iff.1 ((List.getElem?_map ..).symm.trans hd.get)
      rw [byte_copyMem_of_decides hget hd env', byte_copyMem_of_decides hget hd env]
      split
      · rename_i hj
        have hxj := eq_add_sub q.addr x
        rw [hxj] at hd
        rw [(h i q _ hget hj hd).byteAt_eq env env']
      · rfl
    · rw [byte_copyMem_of_not_decided hx, byte_copyMem_of_not_decided hx]

end Known

/-! ### Copies to two memories -/

/-- The copies go to one range and write the same bytes to it. -/
def CopyBack.Agrees (env env' : Env) (b b' : CopyBack) : Prop :=
  b'.dst = b.dst ∧ b'.count = b.count ∧
    ∀ o < (b.count.toNat : ℤ), b'.block.byteAt env' o = b.block.byteAt env o

section Agrees

variable {env env' : Env} {m m' : ByteMemory}

/-- The pokes of `set_mem` depend on the bytes below the count. -/
theorem copyPokes_congr (hmap : m.SameMap m') (dst : Word) {count : Word} {load load' : ℤ → Word}
    (h : ∀ (o : ℤ) (j : ℕ), j < 8 → o + j < count.toNat →
      byteOf (load' o) j = byteOf (load o) j) :
    copyPokes m' dst load' count = copyPokes m dst load count := by
  rw [← Range.map_slots (m := m') ⟨dst, count, ()⟩ fun _ ↦ load',
    ← Range.map_slots (m := m) ⟨dst, count, ()⟩ fun _ ↦ load, Range.slots_of_sameMap hmap]
  refine List.map_congr_left fun q hq ↦ ?_
  obtain ⟨-, -, -, hcount⟩ := Range.mem_slots hq
  dsimp only at hcount
  refine congrArg (Prod.mk q.addr) (word_ext fun j hj ↦ ?_)
  rw [Slot.byteOf_value _ _ hj, Slot.byteOf_value _ _ hj]
  split
  · exact h _ j hj (by omega)
  · rfl

/-- The pokes of all copies of a handler. -/
def pokesOf (env : Env) (m : ByteMemory) (bs : List CopyBack) : List (Word × Word) :=
  bs.flatMap fun b ↦ copyPokes m b.dst (b.block.wordAt env) b.count

theorem pokesOf_nil (env : Env) (m : ByteMemory) : pokesOf env m [] = [] := rfl

theorem pokesOf_cons (env : Env) (m : ByteMemory) (b : CopyBack) (bs : List CopyBack) :
    pokesOf env m (b :: bs) =
      copyPokes m b.dst (b.block.wordAt env) b.count ++ pokesOf env m bs := List.flatMap_cons

theorem copyMem_eq_pokesOf (env : Env) (m : ByteMemory) (bs : List CopyBack) :
    copyMem env m bs = m.pokeAll (pokesOf env m bs) := by
  rw [copyMem_eq_pokeAll, pokesOf, slots, List.map_flatMap, List.flatMap_map]
  exact congrArg (fun f ↦ m.pokeAll (bs.flatMap f)) (funext fun b ↦ b.range.map_slots _)

theorem pokesOf_congr (hmap : m.SameMap m') {bs bs' : List CopyBack}
    (h : List.Forall₂ (CopyBack.Agrees env env') bs bs') :
    pokesOf env' m' bs' = pokesOf env m bs := by
  induction h with
  | nil => rw [pokesOf_nil, pokesOf_nil]
  | @cons b b' bs bs' hb _ ih =>
    obtain ⟨hdst, hcount, hbyte⟩ := hb
    rw [pokesOf_cons, pokesOf_cons, ih, hdst, hcount]
    refine congrArg (· ++ pokesOf env m bs) (copyPokes_congr hmap b.dst fun o j hj ho ↦ ?_)
    rw [byteOf_wordAt _ _ _ hj, byteOf_wordAt _ _ _ hj]
    exact hbyte _ ho

/-- Copies that agree make two memories equal that differ only where they go. -/
theorem copyMem_eq_of_agrees (hmap : m.SameMap m') {bs bs' : List CopyBack}
    (h : List.Forall₂ (CopyBack.Agrees env env') bs bs')
    (hoff : ∀ x, m.byte x ≠ m'.byte x →
      ∃ a ∈ bs.flatMap fun b ↦ copyWords b.dst b.count, m.Pokeable a ∧ InWord a x) :
    copyMem env' m' bs' = copyMem env m bs := by
  rw [copyMem_eq_pokesOf, copyMem_eq_pokesOf, pokesOf_congr hmap h]
  refine (ByteMemory.pokeAll_eq_of_eq_off hmap _ fun x hx ↦ ?_).symm
  by_contra hne
  obtain ⟨a, ha, hp⟩ := hoff x hne
  obtain ⟨b, hb, hab⟩ := List.mem_flatMap.1 ha
  rw [← copyPokes_fst m b.dst (b.block.wordAt env) b.count] at hab
  obtain ⟨w, hw, rfl⟩ := List.mem_map.1 hab
  exact hx ⟨w, List.mem_flatMap.2 ⟨b, hb, hw⟩, hp⟩

end Agrees

end ReferenceMonitor
