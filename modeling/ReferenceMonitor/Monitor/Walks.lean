import ReferenceMonitor.Monitor.Handlers

/-!
# Walks over the tracee's memory

Three loops of the monitor read the tracee's memory until something stops them. `get_path` and the
first loop of `monitor_execve` stop at a zero they find there, and at nothing else: a failed read is
data to them, all ones. `get_mem` stops at a count its caller takes from a register.

The walks are characterised by the memory alone. `get_path` looks at four bytes at a time but reads
eight, so it finds a zero only where the whole word is mapped that begins at the group of four the
zero is in (`PathEnds`).
-/

namespace ReferenceMonitor

open Halting

/-! ### Where a walk ends -/

/-- A string `get_path` finds the end of: within the range of an `int`, a zero byte, in a word the
tracee has mapped. -/
def PathEnds (m : ByteMemory) (addr : Word) : Prop :=
  ∃ i < 2 ^ 31, m.byte (addr + BitVec.ofNat 64 i) = some 0 ∧
    m.Mapped (addr + BitVec.ofNat 64 (4 * (i / 4)))

/-- Entry `i` of an array of pointers, as `get_mem` reads it. -/
def entryAt (m : ByteMemory) (argv : Word) (i : ℕ) : Word := peekData m (wordAddr argv i)

/-- An array `monitor_execve` finds the end of: a null entry, and strings before it. -/
def ArgvEnds (m : ByteMemory) (argv : Word) : Prop :=
  ∃ n < 2 ^ 31 - 1, entryAt m argv n = 0 ∧
    ∀ i < n, entryAt m argv i ≠ 0 ∧ PathEnds m (entryAt m argv i)

/-- The loops of `monitor_execve` over its second argument. -/
def argvWalk (argv : Word) : Fetch Unit := do
  let argc ← argvCount argv (2 ^ 31 - 1) 0
  argvPaths argv argc

/-! ### `get_path` -/

/-- The four bytes `get_path` looks at in one round hold a zero. -/
theorem zero_mem_quarter_iff (m : ByteMemory) (a : Word) :
    0 ∈ (List.range 4).map (byteOf (peekData m a)) ↔
      m.Mapped a ∧ ∃ j < 4, m.byte (a + BitVec.ofNat 64 j) = some 0 := by
  simp only [List.mem_map, List.mem_range]
  by_cases h : m.Mapped a
  · simp only [h, true_and]
    refine exists_congr fun j ↦ and_congr_right fun hj ↦ ?_
    rw [← byteOf_peekData h (by omega), Option.some.injEq]
  · simp only [h, false_and, iff_false, peekData_of_not_mapped h, not_exists, not_and]
    intro j hj
    rw [byteOf_neg_one (by omega)]
    decide

/-- The loop of `get_path` ends at the first group with a zero, if its index gets there. -/
theorem pathLoop_ok_iff (m : ByteMemory) (addr : Word) (fuel : ℕ) {i len : ℕ} (buffer : List Byte)
    (hi : i % 4 = 0) (hlen : len % 4 = 0) (hpos : 0 < len) (hle : i ≤ len) :
    (∃ path, pathLoop m addr fuel i len buffer = .ok path) ↔
      ∃ k < fuel, 0 ∈ (List.range 4).map
        (byteOf (peekData m (addr + BitVec.ofNat 64 (i + 4 * k)))) := by
  induction fuel generalizing i len buffer with
  | zero => simp [pathLoop]
  | succ fuel ih =>
    rw [pathLoop]
    -- the buffer has room for the group: the index and the size are multiples of four
    obtain ⟨len', hlen', hroom⟩ : ∃ len', (if i ≥ len then len * 2 else len) = len' ∧
        len' % 4 = 0 ∧ i + 4 ≤ len' := by
      refine ⟨_, rfl, ?_⟩
      split <;> omega
    simp only [hlen', if_neg (show ¬ i + 4 > len' by omega)]
    split
    · rename_i hzero
      exact iff_of_true ⟨_, rfl⟩ ⟨0, by omega, by simpa using hzero⟩
    · rename_i hzero
      rw [ih _ (by omega) hroom.1 (by omega) hroom.2]
      constructor
      · rintro ⟨k, hk, hmem⟩
        exact ⟨k + 1, by omega, by rwa [show i + 4 * (k + 1) = i + 4 + 4 * k by omega]⟩
      · rintro ⟨k, hk, hmem⟩
        cases k with
        | zero => exact absurd (by simpa using hmem) hzero
        | succ k =>
          exact ⟨k, by omega, by rwa [show i + 4 + 4 * k = i + 4 * (k + 1) by omega]⟩

theorem exists_zero_quarter_iff (m : ByteMemory) (addr : Word) :
    (∃ k < 2 ^ 29, 0 ∈ (List.range 4).map
        (byteOf (peekData m (addr + BitVec.ofNat 64 (0 + 4 * k))))) ↔ PathEnds m addr := by
  have haddr (k j : ℕ) : addr + BitVec.ofNat 64 (0 + 4 * k) + BitVec.ofNat 64 j =
      addr + BitVec.ofNat 64 (4 * k + j) := by
    rw [BitVec.add_assoc, ← BitVec.ofNat_add, Nat.zero_add]
  simp only [zero_mem_quarter_iff, haddr]
  constructor
  · rintro ⟨k, hk, hmapped, j, hj, hzero⟩
    refine ⟨4 * k + j, by omega, hzero, ?_⟩
    rwa [show 4 * ((4 * k + j) / 4) = 0 + 4 * k by omega]
  · rintro ⟨i, hi, hzero, hmapped⟩
    refine ⟨i / 4, by omega, ?_, i % 4, by omega, ?_⟩
    · rwa [Nat.zero_add]
    · rwa [show 4 * (i / 4) + i % 4 = i by omega]

/-- `get_path` returns exactly where the string ends. -/
theorem getPath_returns_iff (addr : Word) (env : Env) (m : ByteMemory) (log : List Word) :
    (getPath addr (env, m) log).Returns ↔ PathEnds m addr := by
  have hloop := pathLoop_ok_iff m addr (2 ^ 29) [] (show 0 % 4 = 0 by decide)
    (show pathMax % 4 = 0 by decide) (by decide) (by decide)
  rw [exists_zero_quarter_iff] at hloop
  rw [← hloop, getPath, bind_apply, ask_apply, Outcome.andThen_done]
  dsimp only
  cases pathLoop m addr (2 ^ 29) 0 pathMax [] with
  | ok path => exact iff_of_true trivial ⟨path, rfl⟩
  | error h => exact iff_of_false id fun ⟨path, hp⟩ ↦ by cases hp

/-! ### `get_mem` -/

/-- `get_mem` returns exactly where its `int` index counts the words. -/
theorem getMem_returns_iff (number : ℕ) (addr count : Word) (env : Env) (m : ByteMemory)
    (log : List Word) :
    (getMem number addr count (env, m) log).Returns ↔ count.toNat / 8 + 1 < 2 ^ 31 := by
  by_cases h : count.toNat / 8 + 1 < 2 ^ 31
  · rw [getMem_apply h]
    exact iff_of_true trivial h
  · rw [getMem, bind_apply, ask_apply, Outcome.andThen_done]
    simp only [if_pos (not_lt.1 h), stop_apply, Outcome.returns_halt, false_iff]
    exact h

/-! ### The loops of `monitor_execve` -/

theorem wordAt_entry (env : Env) (m : ByteMemory) (argv : Word) (i : ℕ) :
    (memBlock 0 m (wordAddr argv i) ((8 : Word).toNat / 8 + 1)).wordAt env 0 =
      entryAt m argv i := by
  have h := wordAt_memBlock env 0 m (wordAddr argv i) (show 0 < (8 : Word).toNat / 8 + 1 by decide)
  rw [show wordAddr (wordAddr argv i) (0 : ℕ) = wordAddr argv i by simp [wordAddr]] at h
  exact h

/-- One round of the first loop. -/
theorem argvCount_succ (argv : Word) (fuel i : ℕ) (env : Env) (m : ByteMemory) (log : List Word) :
    argvCount argv (fuel + 1) i (env, m) log =
      if entryAt m argv i = 0 then .done (i + 1) log
      else argvCount argv fuel (i + 1) (env, m) log := by
  rw [argvCount]
  simp only [bind_apply, ask_apply, Outcome.andThen_done, getMem_apply
    (show (8 : Word).toNat / 8 + 1 < 2 ^ 31 by decide), wordAt_entry, ite_run, pure_apply]

/-- From index `i` on the count is greater than `i`. -/
theorem lt_of_argvCount_done {argv : Word} {fuel i c : ℕ} {env : Env} {m : ByteMemory}
    {log log' : List Word} (h : argvCount argv fuel i (env, m) log = .done c log') : i < c := by
  induction fuel generalizing i with
  | zero => cases h
  | succ fuel ih =>
    rw [argvCount_succ] at h
    split at h
    · cases h
      omega
    · have := ih h
      omega

/-- The first loop counts up to the first null entry, if its index gets there. -/
theorem argvCount_done_iff (argv : Word) (fuel i : ℕ) (env : Env) (m : ByteMemory)
    (log log' : List Word) (n : ℕ) :
    argvCount argv fuel i (env, m) log = .done (i + n + 1) log' ↔
      log' = log ∧ n < fuel ∧ entryAt m argv (i + n) = 0 ∧
        ∀ k < n, entryAt m argv (i + k) ≠ 0 := by
  induction fuel generalizing i n with
  | zero => simp [argvCount]
  | succ fuel ih =>
    rw [argvCount_succ]
    -- with `n = 0` the count ends in this round, otherwise it goes on to the next entry
    cases n with
    | zero =>
      split
      · rename_i hnull
        simp [hnull, eq_comm]
      · rename_i hnull
        refine iff_of_false (fun h ↦ ?_) fun h ↦ hnull h.2.2.1
        have := lt_of_argvCount_done h
        omega
    | succ n =>
      split
      · rename_i hnull
        refine iff_of_false (fun h ↦ ?_) fun h ↦ h.2.2.2 0 (by omega) hnull
        simp only [Outcome.done.injEq] at h
        omega
      · rename_i hnull
        rw [show i + (n + 1) + 1 = i + 1 + n + 1 by omega, ih,
          show i + 1 + n = i + (n + 1) by omega]
        refine and_congr_right fun _ ↦ and_congr (by omega) (and_congr_right fun _ ↦ ?_)
        constructor
        · intro hbefore k hk
          cases k with
          | zero => exact hnull
          | succ k =>
            rw [show i + (k + 1) = i + 1 + k by omega]
            exact hbefore k (by omega)
        · intro hbefore k hk
          rw [show i + 1 + k = i + (k + 1) by omega]
          exact hbefore (k + 1) (by omega)

/-- The second loop returns where the strings of the entries before `n` end. -/
theorem argvPaths_returns_iff (argv : Word) (n : ℕ) (env : Env) (m : ByteMemory)
    (log : List Word) :
    (argvPaths argv n (env, m) log).Returns ↔
      ∀ i < n, entryAt m argv i ≠ 0 → PathEnds m (entryAt m argv i) := by
  induction n with
  | zero => exact iff_of_true trivial fun i hi ↦ absurd hi (Nat.not_lt_zero i)
  | succ n ih =>
    have hround (log : List Word) :
        (if entryAt m argv n = 0 then .done () log
          else (getPath (entryAt m argv n) (env, m) log).andThen fun _ log' ↦
            .done () log' : Outcome Halt (List Word) Unit).Returns ↔
          (entryAt m argv n ≠ 0 → PathEnds m (entryAt m argv n)) := by
      split
      · simp [*]
      · rename_i hnull
        rw [Outcome.returns_andThen_iff, ← getPath_returns_iff _ env m log, Outcome.returns_iff]
        simp only [Outcome.returns_done, and_true]
        exact ⟨fun h _ ↦ h, fun h ↦ h hnull⟩
    rw [argvPaths, bind_apply, Outcome.returns_andThen_iff]
    simp only [bind_apply, ask_apply, Outcome.andThen_done, getMem_apply
      (show (8 : Word).toNat / 8 + 1 < 2 ^ 31 by decide), wordAt_entry, ite_run, pure_apply, hround,
      exists_and_right]
    rw [← Outcome.returns_iff, ih]
    constructor
    · rintro ⟨hbefore, hlast⟩ i hi
      rcases Nat.lt_succ_iff_lt_or_eq.1 hi with hlt | rfl
      · exact hbefore i hlt
      · exact hlast
    · intro h
      exact ⟨fun i hi ↦ h i (by omega), h n (by omega)⟩

/-- The loops of `monitor_execve` return exactly where the array ends. -/
theorem argvWalk_returns_iff (argv : Word) (env : Env) (m : ByteMemory) (log : List Word) :
    (argvWalk argv (env, m) log).Returns ↔ ArgvEnds m argv := by
  rw [argvWalk, bind_apply, Outcome.returns_andThen_iff]
  simp only [argvPaths_returns_iff]
  constructor
  · rintro ⟨c, log', hcount, hpaths⟩
    obtain ⟨n, rfl⟩ : ∃ n, c = 0 + n + 1 := ⟨c - 1, by have := lt_of_argvCount_done hcount; omega⟩
    obtain ⟨-, hn, hend, hbefore⟩ := (argvCount_done_iff ..).1 hcount
    simp only [Nat.zero_add] at hend hbefore
    exact ⟨n, hn, hend, fun i hi ↦ ⟨hbefore i hi, hpaths i (by omega) (hbefore i hi)⟩⟩
  · rintro ⟨n, hn, hend, hbefore⟩
    refine ⟨0 + n + 1, log, (argvCount_done_iff ..).2 ⟨rfl, hn, ?_, ?_⟩, fun i hi hnull ↦ ?_⟩
    · rwa [Nat.zero_add]
    · intro k hk
      rw [Nat.zero_add]
      exact (hbefore k hk).1
    · refine (hbefore i ?_).2
      by_contra hge
      exact hnull (by rwa [show i = n by omega])

/-! ### Every walk -/

/-- **Where the walks end.** Each of the three ends exactly under its own condition on the memory
and the register it starts from. -/
theorem walks_end_iff (env : Env) (m : ByteMemory) (log : List Word) :
    (∀ addr, (getPath addr (env, m) log).Returns ↔ PathEnds m addr) ∧
      (∀ argv, (argvWalk argv (env, m) log).Returns ↔ ArgvEnds m argv) ∧
      ∀ number addr count,
        (getMem number addr count (env, m) log).Returns ↔ count.toNat / 8 + 1 < 2 ^ 31 :=
  ⟨fun addr ↦ getPath_returns_iff addr env m log, fun argv ↦ argvWalk_returns_iff argv env m log,
    fun number addr count ↦ getMem_returns_iff number addr count env m log⟩

/-- Where nothing is mapped no string ends. -/
theorem not_pathEnds_of_unmapped {m : ByteMemory} (h : ∀ x, m.byte x = none) (addr : Word) :
    ¬ PathEnds m addr := by
  rintro ⟨i, -, hzero, -⟩
  rw [h] at hzero
  cases hzero

/-- A null pointer, in a tracee with nothing mapped. -/
theorem not_walks_end : ¬ ∀ (env : Env) (m : ByteMemory) (log : List Word),
    (∀ addr, (getPath addr (env, m) log).Returns) ∧
      ∀ argv, (argvWalk argv (env, m) log).Returns := by
  intro h
  obtain ⟨hpath, -⟩ := h Env.blank ⟨fun _ ↦ none, fun _ ↦ false⟩ []
  simp only [getPath_returns_iff] at hpath
  exact not_pathEnds_of_unmapped (fun _ ↦ rfl) 0 (hpath 0)

/-! ### A string at the end of a mapping -/

/-- The string at an address ends inside the mapped memory. -/
def Terminated (m : ByteMemory) (addr : Word) : Prop :=
  ∃ n, m.byte (addr + BitVec.ofNat 64 n) = some 0 ∧
    ∀ i < n, (m.byte (addr + BitVec.ofNat 64 i)).isSome

/-- One page, with the string `/` four bytes before its end. -/
def pageMemory : ByteMemory where
  byte x :=
    if 0x1000 ≤ x.toNat ∧ x.toNat < 0x2000 then if x = 0x1FFD then some 0 else some 0x2F else none
  writable _ := true

theorem terminated_pageMemory : Terminated pageMemory 0x1FFC := by
  refine ⟨1, by decide, fun i hi ↦ ?_⟩
  obtain rfl : i = 0 := by omega
  decide

theorem not_pathEnds_pageMemory : ¬ PathEnds pageMemory 0x1FFC := by
  rintro ⟨i, hi, hzero, hmapped⟩
  have hx : (0x1FFC : Word) + BitVec.ofNat 64 i = 0x1FFD := by
    by_contra hne
    simp only [pageMemory, hne, if_false] at hzero
    split at hzero <;> simp at hzero
  obtain rfl : i = 1 := by
    have hnat := congrArg BitVec.toNat hx
    rw [BitVec.toNat_add, BitVec.toNat_ofNat, show (0x1FFC : Word).toNat = 8188 from rfl,
      show (0x1FFD : Word).toNat = 8189 from rfl] at hnat
    omega
  exact absurd (hmapped 4 (by decide)) (by decide)

end ReferenceMonitor
