import Mathlib.Data.List.Forall2
import ReferenceMonitor.Monitor.ReadBack
import ReferenceMonitor.Monitor.Replies
import ReferenceMonitor.Monitor.Walks
import ReferenceMonitor.System.ExitStops

/-!
# Results of a fixed size

`stat` and its relatives fill a structure, and `select` four, whose order in the answer is not that
of the arguments (`LindCall.slices`). A handler copies each of them back as a whole number of words,
so nothing but them is written: where the run gets that far, the result arrives. What can come
before is a path `get_path` finds no end of, and what can come after a code that is no `int`.
-/

namespace ReferenceMonitor

open Halting

/-- A part of an answer, and where it goes. -/
structure Slice where
  dst : Word
  offset : ℕ
  size : ℕ

/-- The bytes the slice covers. -/
def Slice.Covers (s : Slice) (x : Word) : Prop := InRange s.dst s.size x

/-- The parts of the answers to the calls whose result has a fixed size. -/
def LindCall.slices (r : UserRegs) : LindCall → List Slice
  | stat | fstat => [⟨r.rsi, 0, sizeofStat⟩]
  | statfs | fstatfs => [⟨r.rsi, 0, sizeofStatfs⟩]
  | select => [⟨r.rsi, 16, sizeofFdSet⟩, ⟨r.rdx, 144, sizeofFdSet⟩, ⟨r.r10, 272, sizeofFdSet⟩,
      ⟨r.r8, 0, sizeofTimeval⟩]
  | _ => []

/-- The size of such an answer. -/
def LindCall.resultSize : LindCall → ℕ
  | stat | fstat => sizeofStat
  | statfs | fstatfs => sizeofStatfs
  | select => 400
  | _ => 0

/-- The path of such a call. -/
def LindCall.pathArg (r : UserRegs) : LindCall → Option Word
  | stat | statfs => some r.rdi
  | _ => none

/-- What such a call asks Lind. -/
inductive FixedRequest (env : Env) (t : Tracee) : LindCall → Request → Prop
  | stat {path : List Byte} {log : List Word} :
      getPath t.regs.rdi (env, t.mem) [] = .done path log → FixedRequest env t .stat (lindStat path)
  | statfs {path : List Byte} {log : List Word} :
      getPath t.regs.rdi (env, t.mem) [] = .done path log →
        FixedRequest env t .statfs (lindStatfs path)
  | fstat : FixedRequest env t .fstat (lindFstat (cInt t.regs.rdi))
  | fstatfs : FixedRequest env t .fstatfs (lindFstatfs (cInt t.regs.rdi))
  | select : FixedRequest env t .select
      (selectRequest env (argsOf t.regs) (selectSets t.mem (argsOf t.regs)))

/-- The calls. -/
def fixedCalls : List LindCall := [.stat, .statfs, .fstat, .fstatfs, .select]

/-- The result has arrived: its parts in their places, its code in `rax`, and nothing else. -/
structure FixedArrival (c : LindCall) (t t' : Tracee) (code : ℤ) (data : List Byte) : Prop where
  regs : t'.regs = { t.regs with rax := ofInt code }
  holds : ∀ s ∈ c.slices t.regs, ∀ j < s.size,
    t'.mem.byte (s.dst + BitVec.ofNat 64 j) = some (data.getD (s.offset + j) 0)
  frame : ∀ x, (∀ s ∈ c.slices t.regs, ¬ s.Covers x) → t'.mem.byte x = t.mem.byte x

/-- The copy goes where the slice does. -/
structure CopyBack.GoesTo (b : CopyBack) (s : Slice) : Prop where
  dst : b.dst = s.dst
  count : b.count = BitVec.ofNat 64 s.size

/-- The copy brings that slice of the data. -/
structure CopyBack.Brings (env : Env) (data : List Byte) (b : CopyBack) (s : Slice) : Prop
    extends b.GoesTo s where
  bytes : ∀ j < s.size, b.block.byteAt env j = data.getD (s.offset + j) 0

theorem slices_whole (c : LindCall) (r : UserRegs) :
    ∀ s ∈ c.slices r, s.size % 8 = 0 ∧ s.size < 2 ^ 31 := by
  cases c <;> simp [LindCall.slices, sizeofStat, sizeofStatfs, sizeofFdSet, sizeofTimeval]

/-- The handler returns the code as an `int` and, where that is a success, copies the slices. -/
def Brought (c : LindCall) (env : Env) (w : World) (t : Tracee) (code : ℤ) (data : List Byte) :
    Prop :=
  ∃ w' backs, emulated c.emulation env (w.atStop t) = .done () w' ∧
    w'.tracee = ⟨{ t.regs with rax := ofInt (wrapInt code) }, copyMem env t.mem backs⟩ ∧
    (0 ≤ wrapInt code → List.Forall₂ (CopyBack.Brings env data) backs (c.slices t.regs))

section Copies

variable {env : Env} {m : ByteMemory} {data : List Byte} {backs : List CopyBack} {ss : List Slice}
  {b : CopyBack} {s : Slice}

theorem CopyBack.GoesTo.toNat_count (h : b.GoesTo s) (hsize : s.size < 2 ^ 31) :
    b.count.toNat = s.size := by
  rw [h.count, BitVec.toNat_ofNat, Nat.mod_eq_of_lt (by omega)]

/-- A copy of whole words writes the slice's own bytes. -/
theorem CopyBack.GoesTo.covers_iff (h : b.GoesTo s) (hwhole : s.size % 8 = 0 ∧ s.size < 2 ^ 31)
    (x : Word) : b.Covers x ↔ s.Covers x := by
  have hcover : 8 * wordsFor b.count = s.size := by
    rw [wordsFor, h.toNat_count hwhole.2]
    omega
  rw [CopyBack.Covers, Slice.Covers, hcover, h.dst]

/-- Copies to slices write nothing else. -/
theorem byte_copyMem_of_goesTo (h : List.Forall₂ CopyBack.GoesTo backs ss)
    (hwhole : ∀ s ∈ ss, s.size % 8 = 0 ∧ s.size < 2 ^ 31) {x : Word}
    (hx : ∀ s ∈ ss, ¬ s.Covers x) : (copyMem env m backs).byte x = m.byte x := by
  have hgoes {b : CopyBack} (hb : b ∈ backs) : ∃ s ∈ ss, b.GoesTo s := by
    obtain ⟨i, hi, rfl⟩ := List.getElem_of_mem hb
    have hi' : i < ss.length := h.length_eq ▸ hi
    exact ⟨ss[i], List.getElem_mem hi', h.get hi hi'⟩
  refine byte_copyMem_of_not_covers (fun b hb ↦ ?_) fun b hb ↦ ?_
  · obtain ⟨s, hs, hbs⟩ := hgoes hb
    have hsize := (hwhole s hs).2
    rw [hbs.toNat_count hsize]
    omega
  · obtain ⟨s, hs, hbs⟩ := hgoes hb
    rw [hbs.covers_iff (hwhole s hs)]
    exact hx s hs

/-- Copies that bring slices of the data to disjoint places put them there. -/
theorem byte_copyMem_of_brings (h : List.Forall₂ (CopyBack.Brings env data) backs ss)
    (hwhole : ∀ s ∈ ss, s.size % 8 = 0 ∧ s.size < 2 ^ 31)
    (hwritable : ∀ s ∈ ss, WritableRange m s.dst (BitVec.ofNat 64 s.size))
    (hdis : ss.Pairwise fun s s' ↦ ∀ x, s.Covers x → ¬ s'.Covers x) {s : Slice} (hs : s ∈ ss)
    {j : ℕ} (hj : j < s.size) :
    (copyMem env m backs).byte (s.dst + BitVec.ofNat 64 j) =
      some (data.getD (s.offset + j) 0) := by
  have hlen := h.length_eq
  have hbrings (i : ℕ) (hb : i < backs.length) (hs : i < ss.length) :
      backs[i].Brings env data ss[i] := h.get hb hs
  have hcovers (i : ℕ) (hb : i < backs.length) (hs : i < ss.length) (x : Word) :
      backs[i].Covers x ↔ ss[i].Covers x :=
    (hbrings i hb hs).covers_iff (hwhole _ (List.getElem_mem hs)) x
  have hbacks : ∀ b ∈ backs, WritableRange m b.dst b.count := by
    intro b hb
    obtain ⟨i, hi, rfl⟩ := List.getElem_of_mem hb
    have hi' : i < ss.length := hlen ▸ hi
    rw [(hbrings i hi hi').dst, (hbrings i hi hi').count]
    exact hwritable _ (List.getElem_mem hi')
  have hpair : backs.Pairwise fun b b' ↦ ∀ x, b.Covers x → ¬ b'.Covers x := by
    rw [List.pairwise_iff_getElem] at hdis ⊢
    intro i j hi hj hij x
    rw [hcovers i hi (hlen ▸ hi), hcovers j hj (hlen ▸ hj)]
    exact hdis i j _ _ hij x
  obtain ⟨i, hi, rfl⟩ := List.getElem_of_mem hs
  have hi' : i < backs.length := hlen ▸ hi
  have hb := hbrings i hi' hi
  have hsize := (hwhole _ hs).2
  have hoff := toNat_add_sub_self ss[i].dst (j := j) (by omega)
  rw [byte_copyMem_of_mem hbacks hpair (List.getElem_mem hi'), hb.dst, hoff, hb.bytes j hj]
  rw [InRange, hb.dst, hoff, hb.toNat_count hsize]
  exact hj

/-- A part of a block, stored over another. -/
theorem byteAt_store_part (env : Env) (b result : Block) {o n j : ℕ} (hj : j < n)
    (hsize : o + n ≤ result.cells.length) :
    (b.store ((result.cells.drop o).take n)).byteAt env j = result.byteAt env (o + j : ℕ) := by
  have hlt : o + j < result.cells.length := by omega
  have hget : ((result.cells.drop o).take n)[j]? = some result.cells[o + j] := by
    rw [List.getElem?_take_of_lt hj, List.getElem?_drop, List.getElem?_eq_getElem hlt]
  rw [byteAt_store, hget]
  dsimp only
  rw [Block.byteAt, if_pos (Int.natCast_nonneg _), Int.toNat_natCast, List.getElem?_eq_getElem hlt]

end Copies

section Calls

variable {c : LindCall} {env : Env} {w : World} {t : Tracee} {request : Request} {resp : Response}
  {code : ℤ} {data : List Byte}

/-- A call that fills one structure. -/
theorem brought_struct {size : ℕ} (q : Block → Fetch Request)
    (hc : c ≠ .getsockname)
    (he : c.emulation (argsOf t.regs) = fill (structOutput size t.regs.rsi) q)
    (hs : c.slices t.regs = [⟨t.regs.rsi, 0, size⟩]) (hsize : c.resultSize = size ∧ size < 2 ^ 31)
    (hq : ∃ log, q (malloc 0 size) (env, t.mem) [] = .done request log) (hflag : w.entering = false)
    (hl : env.lind (request :: w.requests) = some resp) (hjudge : judge resp = .success code data)
    (hdata : data.length = c.resultSize) :
    Brought c env w t code data := by
  obtain ⟨b, hb⟩ : ∃ b, received env (malloc 0 size) size (.success code data) = some b :=
    ⟨_, received_of_fits (fits_of_room (by omega) (by omega) (.inr (by simp; omega))) _⟩
  obtain ⟨log, hq⟩ := hq
  obtain ⟨w', hrun, htracee, -⟩ := emulated_fill hc he hflag hq hl (hjudge ▸ hb)
  refine ⟨w', [⟨t.regs.rsi, b, BitVec.ofNat 64 size⟩], hrun, ?_,
    fun _ ↦ hs ▸ .cons ⟨⟨rfl, rfl⟩, fun j hj ↦ ?_⟩ .nil⟩
  · rw [htracee, hjudge]
    rfl
  · dsimp only at hj ⊢
    rw [byteAt_received (by omega) hb, if_pos (by omega), Nat.zero_add]

/-- The call that fills four, where its code is a success. -/
theorem brought_select (hflag : w.entering = false)
    (hl : env.lind (selectRequest env (argsOf t.regs) (selectSets t.mem (argsOf t.regs)) ::
      w.requests) = some resp) (hjudge : judge resp = .success code data)
    (hdata : data.length = 400) :
    Brought .select env w t code data := by
  have hfits : Fits (malloc 4 400).cells.length 400 data :=
    fits_of_room (by omega) (by omega) (.inr (by simp [hdata]))
  obtain ⟨result, hresult⟩ : ∃ b, received env (malloc 4 400) 400 (.success code data) = some b :=
    ⟨_, received_of_fits hfits _⟩
  have hroom : result.cells.length = 400 := by
    rw [length_received hresult, length_malloc]
  have hverdict : verdictOn env (w.atLeave t)
      (selectRequest env (argsOf t.regs) (selectSets t.mem (argsOf t.regs))) =
      some (.success code data) := by
    rw [← hjudge, verdictOn]
    exact congrArg (Option.map judge) hl
  have happly := monitorSelect_apply (argsOf t.regs) env (w.atLeave t)
  simp only [show (w.atLeave t).tracee = t from rfl, hverdict, hresult] at happly
  obtain ⟨w', hrun, htracee, -⟩ :=
    emulated_done (c := .select) (by decide) hflag happly
  refine ⟨w', _, hrun, htracee, fun hcode ↦ ?_⟩
  rw [Verdict.status, if_neg (not_lt.2 hcode)]
  have hpart (b : Block) {o n j : ℕ} (hj : j < n) (hsize : o + n ≤ 400) :
      (b.store ((result.cells.drop o).take n)).byteAt env j = data.getD (o + j) 0 := by
    rw [byteAt_store_part env b result hj (by omega), byteAt_received (by omega) hresult,
      if_pos (by omega)]
  exact .cons ⟨⟨rfl, rfl⟩, fun j hj ↦ hpart _ hj (by decide)⟩
    (.cons ⟨⟨rfl, rfl⟩, fun j hj ↦ hpart _ hj (by decide)⟩
      (.cons ⟨⟨rfl, rfl⟩, fun j hj ↦ hpart _ hj (by decide)⟩
        (.cons ⟨⟨rfl, rfl⟩, fun j hj ↦ hpart _ hj (by decide)⟩ .nil)))

/-- The run: once its request is made, every one of the calls returns. -/
theorem brought_fixed (hr : FixedRequest env t c request) (hflag : w.entering = false)
    (hl : env.lind (request :: w.requests) = some resp) (hjudge : judge resp = .success code data)
    (hdata : data.length = c.resultSize) :
    Brought c env w t code data := by
  cases hr with
  | @stat path log hpath =>
    refine brought_struct (fun _ ↦ return lindStat (← getPath t.regs.rdi)) (by decide) rfl rfl
      (by decide) ⟨log, ?_⟩ hflag hl hjudge hdata
    rw [bind_apply, hpath]
    rfl
  | @statfs path log hpath =>
    refine brought_struct (fun _ ↦ return lindStatfs (← getPath t.regs.rdi)) (by decide) rfl rfl
      (by decide) ⟨log, ?_⟩ hflag hl hjudge hdata
    rw [bind_apply, hpath]
    rfl
  | fstat =>
    exact brought_struct (fun _ ↦ pure (lindFstat (cInt t.regs.rdi))) (by decide) rfl rfl
      (by decide) ⟨[], rfl⟩ hflag hl hjudge hdata
  | fstatfs =>
    exact brought_struct (fun _ ↦ pure (lindFstatfs (cInt t.regs.rdi))) (by decide) rfl rfl
      (by decide) ⟨[], rfl⟩ hflag hl hjudge hdata
  | select => exact brought_select hflag hl hjudge hdata

/-- Where its path ends, a call makes its request. -/
theorem exists_fixedRequest (env : Env) (hc : c ∈ fixedCalls)
    (hpath : ∀ addr, c.pathArg t.regs = some addr → PathEnds t.mem addr) :
    ∃ request, FixedRequest env t c request := by
  have hends (h : c.pathArg t.regs = some t.regs.rdi) :
      ∃ path log, getPath t.regs.rdi (env, t.mem) [] = .done path log :=
    Outcome.returns_iff.1 ((getPath_returns_iff ..).2 (hpath _ h))
  cases c with
  | stat =>
    obtain ⟨path, log, h⟩ := hends rfl
    exact ⟨_, .stat h⟩
  | statfs =>
    obtain ⟨path, log, h⟩ := hends rfl
    exact ⟨_, .statfs h⟩
  | fstat => exact ⟨_, .fstat⟩
  | fstatfs => exact ⟨_, .fstatfs⟩
  | select => exact ⟨_, .select⟩
  | _ => exact absurd hc (by decide)

/-- Where it does not, the call does not return. -/
theorem pathEnds_of_emulated {w' : World} {addr : Word} (hflag : w.entering = false)
    (hrun : emulated c.emulation env (w.atStop t) = .done () w')
    (haddr : c.pathArg t.regs = some addr) : PathEnds t.mem addr := by
  by_contra hno
  rw [← getPath_returns_iff addr env t.mem []] at hno
  obtain ⟨h, log, hhalt⟩ : ∃ h log, getPath addr (env, t.mem) [] = .halt h log := by
    rcases hpath : getPath addr (env, t.mem) [] with ⟨path, log⟩ | ⟨h, log⟩
    · exact absurd (by rw [hpath]; trivial) hno
    · exact ⟨h, log, rfl⟩
  have hfill (size : ℕ) (mk : List Byte → Request)
      (he : c.emulation (argsOf t.regs) = fill (structOutput size t.regs.rsi) fun _ ↦ do
        return mk (← getPath addr)) : False := by
    have hq : (do return mk (← getPath addr) : Fetch Request) (env, t.mem) [] = .halt h log := by
      rw [bind_apply, hhalt]
      rfl
    obtain ⟨u, hu⟩ := emulated_fill_halt he hflag hq
    rw [hrun] at hu
    cases hu
  cases c with
  | stat =>
    cases haddr
    exact hfill sizeofStat lindStat rfl
  | statfs =>
    cases haddr
    exact hfill sizeofStatfs lindStatfs rfl
  | _ => cases haddr

/-- **What arrives of a result of fixed size** is the result, exactly where `get_path` finds the end
of the path and the code is an `int`. -/
theorem fixed_arrival_iff (hc : c ∈ fixedCalls) (hflag : w.entering = false)
    (hl : ∀ request, FixedRequest env t c request → env.lind (request :: w.requests) = some resp)
    (hjudge : judge resp = .success code data) (hcode : 0 ≤ code)
    (hdata : data.length = c.resultSize)
    (hwritable : ∀ s ∈ c.slices t.regs, WritableRange t.mem s.dst (BitVec.ofNat 64 s.size))
    (hdis : (c.slices t.regs).Pairwise fun s s' ↦ ∀ x, s.Covers x → ¬ s'.Covers x) :
    (∃ w', emulated c.emulation env (w.atStop t) = .done () w' ∧
        FixedArrival c t w'.tracee code data) ↔
      (∀ addr, c.pathArg t.regs = some addr → PathEnds t.mem addr) ∧ code < 2 ^ 31 := by
  have hbound := (judge_success_bounds hjudge).2
  constructor
  · rintro ⟨w', hrun, harrival⟩
    have hpath (addr : Word) (haddr : c.pathArg t.regs = some addr) : PathEnds t.mem addr :=
      pathEnds_of_emulated hflag hrun haddr
    refine ⟨hpath, ?_⟩
    obtain ⟨request, hr⟩ := exists_fixedRequest env hc hpath
    obtain ⟨v, backs, hv, htracee, -⟩ := brought_fixed hr hflag (hl request hr) hjudge hdata
    rw [hrun] at hv
    cases hv
    have hrax := congrArg UserRegs.rax harrival.regs
    rw [htracee] at hrax
    exact (ofInt_wrapInt_eq_iff hcode hbound).1 hrax
  · rintro ⟨hpath, hint⟩
    obtain ⟨request, hr⟩ := exists_fixedRequest env hc hpath
    obtain ⟨w', backs, hrun, htracee, hbacks⟩ :=
      brought_fixed hr hflag (hl request hr) hjudge hdata
    rw [wrapInt_eq_self (by omega) hint] at htracee hbacks
    have hwhole := slices_whole c t.regs
    refine ⟨w', hrun, by rw [htracee], fun s hs j hj ↦ ?_, fun x hx ↦ ?_⟩
    · rw [htracee, byte_copyMem_of_brings (hbacks hcode) hwhole hwritable hdis hs hj]
    · rw [htracee]
      exact byte_copyMem_of_goesTo ((hbacks hcode).imp fun _ _ h ↦ h.toGoesTo) hwhole hx

end Calls

/-- `select` with four objects one after the other, in a memory of zeros. -/
def selectTracee : Tracee :=
  ⟨{ callRegs 23 with rdi := 1, rsi := 128, rdx := 256, r10 := 384, r8 := 512 }, zeroMemory⟩

/-- An answer of zeros to everything. -/
def zerosEnv (size : ℕ) : Env := steadyEnv (some (successResponse 0 (List.replicate size 0)))

theorem writableRange_selectTracee : ∀ s ∈ LindCall.slices selectTracee.regs .select,
    WritableRange zeroMemory s.dst (BitVec.ofNat 64 s.size) := by
  intro s hs
  have hsize := (slices_whole .select _ s hs).2
  refine writableRange_zeroMemory ?_
  rw [BitVec.toNat_ofNat, Nat.mod_eq_of_lt (by omega)]
  omega

theorem disjoint_selectTracee : (LindCall.slices selectTracee.regs .select).Pairwise
    fun s s' ↦ ∀ x, s.Covers x → ¬ s'.Covers x := by
  simp only [LindCall.slices, selectTracee, callRegs, Slice.Covers, InRange, sizeofFdSet,
    sizeofTimeval, List.pairwise_cons, List.mem_cons, List.not_mem_nil, or_false, forall_eq_or_imp,
    forall_eq, List.Pairwise.nil, and_true, false_implies, implies_true]
  refine ⟨⟨fun x ↦ ?_, fun x ↦ ?_, fun x ↦ ?_⟩, ⟨fun x ↦ ?_, fun x ↦ ?_⟩, fun x ↦ ?_⟩
  all_goals bv_omega

theorem fixed_arrival_iff_select :
    (∃ w', emulated monitorSelect (zerosEnv 400) (zeroWorld.atStop selectTracee) = .done () w' ∧
        FixedArrival .select selectTracee w'.tracee 0 (List.replicate 400 0)) ↔
      (∀ addr, LindCall.pathArg selectTracee.regs .select = some addr →
        PathEnds zeroMemory addr) ∧ (0 : ℤ) < 2 ^ 31 :=
  fixed_arrival_iff (c := .select) (by decide) rfl (fun _ _ ↦ rfl)
    (judge_successResponse (by decide) (by decide) _) le_rfl (List.length_replicate ..)
    writableRange_selectTracee disjoint_selectTracee

/-- `stat` of a string at the end of a page, into its beginning. -/
def edgeTracee : Tracee := ⟨{ callRegs 4 with rdi := 0x1FFC, rsi := 0x1000 }, pageMemory⟩

theorem writableRange_edgeTracee :
    WritableRange pageMemory 0x1000 (BitVec.ofNat 64 sizeofStat) := by
  refine ⟨by decide, fun x (hx : (x - 0x1000).toNat < 144) ↦ ?_, fun _ _ ↦ rfl⟩
  have hpage : 0x1000 ≤ x.toNat ∧ x.toNat < 0x2000 := by bv_omega
  simp only [pageMemory, if_pos hpage]
  split <;> rfl

/-- A string that ends in the last word of a mapping. -/
theorem not_fixed_arrival : ¬ ∀ (c : LindCall) (env : Env) (w : World) (t : Tracee)
    (resp : Response) (code : ℤ) (data : List Byte), c ∈ fixedCalls → w.entering = false →
    (∀ addr, c.pathArg t.regs = some addr → Terminated t.mem addr) →
    (∀ request, env.lind (request :: w.requests) = some resp) → judge resp = .success code data →
    0 ≤ code → data.length = c.resultSize →
    (∀ s ∈ c.slices t.regs, WritableRange t.mem s.dst (BitVec.ofNat 64 s.size)) →
    (c.slices t.regs).Pairwise (fun s s' ↦ ∀ x, s.Covers x → ¬ s'.Covers x) →
    ∃ w', emulated c.emulation env (w.atStop t) = .done () w' ∧
      FixedArrival c t w'.tracee code data := by
  intro h
  obtain ⟨w', hrun, -⟩ := h .stat (zerosEnv sizeofStat) zeroWorld edgeTracee _ 0 _ (by decide) rfl
    (fun addr haddr ↦ by cases haddr; exact terminated_pageMemory) (fun _ ↦ rfl)
    (judge_successResponse (by decide) (by decide) _) le_rfl (List.length_replicate ..)
    (fun s hs ↦ by rw [List.mem_singleton.1 hs]; exact writableRange_edgeTracee)
    (List.pairwise_singleton _ _)
  have haddr : LindCall.pathArg edgeTracee.regs .stat = some 0x1FFC := rfl
  exact not_pathEnds_pageMemory (pathEnds_of_emulated rfl hrun haddr)

end ReferenceMonitor
