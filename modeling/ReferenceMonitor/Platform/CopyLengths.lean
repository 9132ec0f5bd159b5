import Mathlib.Algebra.BigOperators.Intervals
import Mathlib.Algebra.Order.BigOperators.Group.Finset
import ReferenceMonitor.Platform.MultiPart

/-!
# The lengths of the copies

`CopyData` takes the smaller of two `int`s for the length of its copy. One is the limit of the
caller, a `size_t` or a `long` in most wrappers, narrowed to `int`; the other is the length of the
payload or a length its header announces, narrowed as well. Here the copies of a response are listed
with the operands they are made with, and with the limit as it was before it was narrowed.

A copy is safe where its length is not negative, it reads inside the payload, and it writes no more
than was asked for. For one destination this is decided by the two numbers alone. For several it is
decided by what the payload announces (`safe_responseCalls_iff`); as long as the payload has less
than `2 ^ 32` bytes, the copies of a safe response are all empty (`copy_nothing_of_safe`).
-/

namespace ReferenceMonitor

open Halting

/-! ### The calls of `CopyData`, with their operands -/

/-- A call of `CopyData`: where in the payload it reads, the limit its caller asked for, and how
many bytes there are for it. -/
structure CopyCall where
  offset : ℤ
  limit : ℤ
  srclen : ℤ

/-- The length that `memcpy` gets. -/
def CopyCall.len (c : CopyCall) : ℤ := copyLen (wrapInt c.limit) c.srclen

/-- The calls of the loop of `CopyMultiDataVa`. `none` is a call with operands that the language
leaves undefined: no destination was passed for it, or the offset overflowed before it. -/
def multiCalls (src : ℤ → Byte) :
    (rounds i : ℕ) → (offset : ℤ) → (limits : List ℤ) → List (Option CopyCall)
  | 0, _, _, _ => []
  | _ + 1, _, _, [] => [none]
  | rounds + 1, i, offset, limit :: limits =>
    if 2 ^ 31 ≤ offset ∨ offset < -2 ^ 31 then [none]
    else some ⟨offset, limit, lengthAt src i⟩ ::
      multiCalls src rounds (i + 1) (offset + lengthAt src i) limits

/-- The calls that `ParseResponse` makes on a success. -/
def responseCalls (env : Env) (num : ℕ) (data : List Byte) (limits : List ℤ) :
    List (Option CopyCall) :=
  let len := wrapInt data.length
  if num = 1 then
    match limits with
    | [] => [none]
    | limit :: _ => [some ⟨0, limit, len⟩]
  else if 1 < num then multiCalls (payloadAt env data) len.toNat 0 (wrapInt (4 * len)) limits
  else []

/-- Make some calls, each with the next of the destinations. -/
def perform (src : ℤ → Byte) : List (Option CopyCall) → List Ptr → Fetch (List Ptr)
  | [], dsts => pure dsts
  | some c :: calls, dst :: dsts => do
    let dst ← copyData dst (fun o ↦ src (c.offset + o)) (wrapInt c.limit) c.srclen
    if 2 ^ 31 ≤ c.offset + c.srclen ∨ c.offset + c.srclen < -2 ^ 31 then stop .intOverflow
    else return dst :: (← perform src calls dsts)
  | _, _ => stop .varargs

/-- The destinations as they are passed on, with narrowed limits. -/
def narrowed (args : List (Ptr × ℤ)) : List Dest := args.map fun arg ↦ ⟨arg.1, wrapInt arg.2⟩

theorem map_ptr_narrowed (args : List (Ptr × ℤ)) :
    (narrowed args).map Dest.ptr = args.map Prod.fst := by simp [narrowed]

/-- The loop makes the calls that are listed for it. -/
theorem copyMultiLoop_eq_perform {src : ℤ → Byte} {rounds i : ℕ} {offset : ℤ}
    {args : List (Ptr × ℤ)} (hlow : -2 ^ 31 ≤ offset) (hhigh : offset < 2 ^ 31) :
    copyMultiLoop src rounds i offset (narrowed args) =
      perform src (multiCalls src rounds i offset (args.map Prod.snd)) (args.map Prod.fst) := by
  induction rounds generalizing i offset args with
  | zero => rw [copyMultiLoop, map_ptr_narrowed, multiCalls, perform]
  | succ rounds ih =>
    rcases args with - | ⟨⟨dst, limit⟩, args⟩
    · rfl
    rw [List.map_cons, List.map_cons, multiCalls, if_neg (by omega), perform]
    refine bind_congr fun dst ↦ ?_
    split
    · rfl
    · rw [← ih (by omega) (by omega)]
      rfl

/-- `ParseResponse` makes the calls that are listed for it. -/
theorem copyPayload_apply (num : ℕ) (data : List Byte) (args : List (Ptr × ℤ))
    (p : Env × ByteMemory) (log : List Word) :
    copyPayload num data (narrowed args) p log =
      perform (payloadAt p.1 data) (responseCalls p.1 num data (args.map Prod.snd))
        (args.map Prod.fst) p log := by
  have hlen := wrapInt_bounds data.length
  have hoffset := wrapInt_bounds (4 * wrapInt data.length)
  rw [copyPayload, bind_apply, ask_apply, Outcome.andThen_done, responseCalls.eq_def]
  dsimp only
  split
  · rcases args with - | ⟨⟨dst, limit⟩, args⟩
    · rfl
    · have hint : ¬ (2 ^ 31 ≤ wrapInt data.length ∨ wrapInt data.length < -2 ^ 31) := by omega
      simp only [narrowed, List.map_cons, List.map_map, perform, zero_add, if_neg hint,
        pure_bind]
      rfl
  · split
    · rw [copyMultiDataVa, copyMultiLoop_eq_perform hoffset.1 hoffset.2]
    · rw [map_ptr_narrowed, perform]

/-! ### Safe copies -/

/-- The copy has a length that is not negative, reads inside a payload of this size, and writes no
more than was asked for. -/
structure CopyCall.Safe (size : ℕ) (c : CopyCall) : Prop where
  nonneg : 0 ≤ c.len
  inside : c.len = 0 ∨ 0 ≤ c.offset ∧ c.offset + c.len ≤ size
  le_limit : c.len ≤ c.limit

/-- All of the calls are defined and safe. -/
def SafeCalls (size : ℕ) (calls : List (Option CopyCall)) : Prop :=
  ∀ call ∈ calls, ∃ c, call = some c ∧ c.Safe size

@[simp] theorem safeCalls_nil (size : ℕ) : SafeCalls size [] := fun _ h ↦ absurd h List.not_mem_nil

@[simp] theorem not_safeCalls_none {size : ℕ} {calls : List (Option CopyCall)} :
    ¬ SafeCalls size (none :: calls) := fun h ↦ by
  obtain ⟨c, hc, -⟩ := h none List.mem_cons_self
  cases hc

@[simp] theorem safeCalls_some {size : ℕ} {c : CopyCall} {calls : List (Option CopyCall)} :
    SafeCalls size (some c :: calls) ↔ c.Safe size ∧ SafeCalls size calls := by
  simp [SafeCalls]

/-- A limit is kept where neither it nor what narrowing leaves of it is negative. -/
def LimitKept (limit : ℤ) : Prop := 0 ≤ limit ∧ 0 ≤ wrapInt limit

instance (limit : ℤ) : Decidable (LimitKept limit) := inferInstanceAs (Decidable (_ ∧ _))

/-- Safety, by the operands. -/
theorem safe_iff {size : ℕ} {c : CopyCall} :
    c.Safe size ↔ LimitKept c.limit ∧ 0 ≤ c.srclen ∧
      (wrapInt c.limit = 0 ∨ c.srclen = 0 ∨
        0 ≤ c.offset ∧ c.offset + min (wrapInt c.limit) c.srclen ≤ size) := by
  have hlen : c.len = min (wrapInt c.limit) c.srclen := by
    rw [CopyCall.len, copyLen]
    split <;> omega
  constructor
  · rintro ⟨hnonneg, hinside, hle⟩
    rw [hlen] at hnonneg hinside hle
    exact ⟨⟨by omega, by omega⟩, by omega, by omega⟩
  · rintro ⟨⟨hlimit, hkept⟩, hsrc, hinside⟩
    have hle := wrapInt_le_self hlimit
    exact ⟨by omega, by omega, by omega⟩

/-! ### What a payload announces -/

/-- Where part `k` begins, by the lengths before it. -/
def partStart (src : ℤ → Byte) (i : ℕ) (offset : ℤ) (k : ℕ) : ℤ :=
  offset + ∑ j ∈ Finset.range k, lengthAt src (i + j)

@[simp] theorem partStart_zero (src : ℤ → Byte) (i : ℕ) (offset : ℤ) :
    partStart src i offset 0 = offset := by simp [partStart]

theorem partStart_succ (src : ℤ → Byte) (i : ℕ) (offset : ℤ) (k : ℕ) :
    partStart src i offset (k + 1) = partStart src (i + 1) (offset + lengthAt src i) k := by
  rw [partStart, partStart, Finset.sum_range_succ', add_zero, add_assoc, add_comm (lengthAt src i)]
  simp only [Nat.add_right_comm i, Nat.add_assoc]

/-- A part of `n` bytes that begins at `start` can be copied up to this limit: neither the limit nor
the length is negative, and what there is to copy lies inside the payload. -/
structure PartSafe (size : ℕ) (start limit n : ℤ) : Prop where
  kept : LimitKept limit
  nonneg : 0 ≤ n
  start_lt : start < 2 ^ 31
  inside : wrapInt limit = 0 ∨ n = 0 ∨ 0 ≤ start ∧ start + min (wrapInt limit) n ≤ size

theorem partSafe_iff {size : ℕ} {start limit n : ℤ} :
    PartSafe size start limit n ↔ start < 2 ^ 31 ∧ CopyCall.Safe size ⟨start, limit, n⟩ := by
  rw [safe_iff]
  exact ⟨fun h ↦ ⟨h.start_lt, h.kept, h.nonneg, h.inside⟩, fun h ↦ ⟨h.2.1, h.2.2.1, h.1, h.2.2.2⟩⟩

/-- The calls of the loop are safe exactly where each of the announced parts is. -/
theorem safe_multiCalls_iff {src : ℤ → Byte} {size rounds i : ℕ} {offset : ℤ} {limits : List ℤ}
    (hlow : -2 ^ 31 ≤ offset) :
    SafeCalls size (multiCalls src rounds i offset limits) ↔
      ∀ k < rounds, ∃ limit, limits[k]? = some limit ∧
        PartSafe size (partStart src i offset k) limit (lengthAt src (i + k)) := by
  induction rounds generalizing i offset limits with
  | zero => simp [multiCalls]
  | succ rounds ih =>
    rw [Nat.forall_lt_succ_left]
    rcases limits with - | ⟨limit, limits⟩
    · simp [multiCalls]
    simp only [List.getElem?_cons_zero, List.getElem?_cons_succ, Option.some.injEq,
      exists_eq_left', partStart_zero, add_zero, partStart_succ, multiCalls]
    rw [partSafe_iff]
    split
    · exact iff_of_false not_safeCalls_none fun h ↦ by omega
    · rw [safeCalls_some, and_iff_right (show offset < 2 ^ 31 by omega)]
      refine and_congr_right fun hsafe ↦ ?_
      -- a safe call has a length that is not negative, so that the offset does not go back
      have hnonneg : 0 ≤ lengthAt src i := (safe_iff.1 hsafe).2.1
      refine (ih (by omega)).trans (forall₂_congr fun k _ ↦ ?_)
      rw [show i + 1 + k = i + (k + 1) by omega]

/-! ### Safe responses -/

/-- What makes the copies of a response safe. For one destination, the limit is kept and the length
of the payload is not negative as an `int`. For several, that length is the number of parts, and
each part can be copied to a destination. -/
structure SafeResponse (env : Env) (num : ℕ) (data : List Byte) (limits : List ℤ) : Prop where
  one : num = 1 → ∃ limit, limits.head? = some limit ∧ LimitKept limit ∧ 0 ≤ wrapInt data.length
  several : 1 < num → ∀ k < (wrapInt data.length).toNat, ∃ limit, limits[k]? = some limit ∧
    PartSafe data.length
      (partStart (payloadAt env data) 0 (wrapInt (4 * wrapInt data.length)) k) limit
      (lengthAt (payloadAt env data) k)

/-- One destination: two numbers decide. -/
theorem safe_one_iff {size : ℕ} {limit : ℤ} :
    CopyCall.Safe size ⟨0, limit, wrapInt size⟩ ↔ LimitKept limit ∧ 0 ≤ wrapInt size := by
  have hle := wrapInt_le_self (Int.natCast_nonneg size)
  rw [safe_iff]
  exact and_congr_right fun _ ↦ and_iff_left (.inr (.inr ⟨le_refl _, by dsimp only; omega⟩))

/-- **The lengths of the copies.** They are safe exactly where `SafeResponse` says so. -/
theorem safe_responseCalls_iff (env : Env) (num : ℕ) (data : List Byte) (limits : List ℤ) :
    SafeCalls data.length (responseCalls env num data limits) ↔
      SafeResponse env num data limits := by
  rw [responseCalls.eq_def]
  dsimp only
  split
  · rename_i hone
    subst hone
    have hsafe : SafeResponse env 1 data limits ↔ ∃ limit, limits.head? = some limit ∧
        LimitKept limit ∧ 0 ≤ wrapInt data.length :=
      ⟨fun h ↦ h.one rfl, fun h ↦ ⟨fun _ ↦ h, fun h ↦ absurd h (lt_irrefl _)⟩⟩
    rw [hsafe]
    rcases limits with - | ⟨limit, limits⟩
    · simp
    · simp [safe_one_iff]
  · rename_i hone
    split
    · rename_i hseveral
      rw [safe_multiCalls_iff (wrapInt_bounds _).1]
      simp only [Nat.zero_add]
      exact ⟨fun h ↦ ⟨fun h ↦ absurd h hone, fun _ ↦ h⟩, fun h ↦ h.several hseveral⟩
    · rename_i hseveral
      exact iff_of_true (safeCalls_nil _) ⟨fun h ↦ absurd h hone, fun h ↦ absurd h hseveral⟩

/-- Asking for `2 ^ 31` bytes, as `lind_read` can, makes a copy of negative length. -/
theorem not_safe_responseCalls : ¬ ∀ (env : Env) (num : ℕ) (data : List Byte) (limits : List ℤ),
    limits.length = num → (∀ limit ∈ limits, -2 ^ 63 ≤ limit ∧ limit < 2 ^ 64) →
      SafeCalls data.length (responseCalls env num data limits) := by
  intro h
  have hsafe := h Env.blank 1 [0] [2 ^ 31] rfl (by decide)
  have hneg : (CopyCall.mk 0 (2 ^ 31) 1).len < 0 := by decide
  obtain ⟨c, hc, hcs⟩ := hsafe _ List.mem_cons_self
  obtain rfl := Option.some.inj hc
  exact absurd hcs.nonneg (not_le.2 hneg)

/-! ### Safe copies of several parts are empty -/

theorem le_partStart {src : ℤ → Byte} {offset : ℤ} {k : ℕ}
    (h : ∀ j < k, 0 ≤ lengthAt src j) : offset ≤ partStart src 0 offset k := by
  have hsum : 0 ≤ ∑ j ∈ Finset.range k, lengthAt src (0 + j) :=
    Finset.sum_nonneg fun j hj ↦ by
      rw [Nat.zero_add]
      exact h j (Finset.mem_range.1 hj)
  rw [partStart]
  omega

/-- The payload is looked for behind its own length, four bytes for each of its bytes: with less than
`2 ^ 29` destinations and less than `2 ^ 32` bytes, no safe copy copies anything. -/
theorem copy_nothing_of_safe {env : Env} {num : ℕ} {data : List Byte} {limits : List ℤ}
    (h : SafeResponse env num data limits) (hnum : 1 < num) (hlimits : limits.length < 2 ^ 29)
    (hdata : data.length < 2 ^ 32) {k : ℕ} (hk : k < (wrapInt data.length).toNat) :
    ∃ limit, limits[k]? = some limit ∧
      (wrapInt limit = 0 ∨ lengthAt (payloadAt env data) k = 0) := by
  have hparts := h.several hnum
  have hself : wrapInt data.length = data.length := by
    rcases Nat.lt_or_ge data.length (2 ^ 31) with hlt | hge
    · exact wrapInt_eq_self (by omega) (by omega)
    · rw [wrapInt_eq_sub (by omega) (by omega)] at hk
      omega
  rw [hself, Int.toNat_natCast] at hparts hk
  -- there is a destination for the last of the parts
  obtain ⟨last, hlast, -⟩ := hparts (data.length - 1) (by omega)
  have hshort := (List.getElem?_eq_some_iff.1 hlast).1
  have hle : wrapInt (4 * data.length) ≤
      partStart (payloadAt env data) 0 (wrapInt (4 * data.length)) k := le_partStart fun j hj ↦ by
    obtain ⟨_, -, hpart⟩ := hparts j (by omega)
    exact hpart.nonneg
  rw [wrapInt_eq_self (by omega) (by omega)] at hle hparts
  obtain ⟨limit, hlimit, hpart⟩ := hparts k hk
  have hkept := hpart.kept.2
  have hnonneg := hpart.nonneg
  refine ⟨limit, hlimit, hpart.inside.imp_right fun hor ↦ hor.resolve_right fun hin ↦ ?_⟩
  omega

end ReferenceMonitor
