import Mathlib.Data.List.TakeWhile
import ReferenceMonitor.Platform.Encoding

/-!
# Gathering a message: `lind_sendmsg`

`lind_sendmsg` is given a header with a vector of buffers and should send their concatenation. Its
loops take the length of the first buffer for the number of buffers, and the pointer it sends from
has moved to the end of the concatenation, which has been freed by then; the number of buffers is
sent as the length. The arguments behind do not match their format, so that the control data is
taken from an address that is a length.

So what is sent is what is behind the freed buffer, as many bytes as there are buffers
(`strayMessage`): the message only where both are nothing at all.
-/

namespace ReferenceMonitor

open Halting

/-- A `struct iovec`: the address of a buffer and its length. -/
def iovecBytes (base : Word) (len : ℕ) : List Byte :=
  (List.range 8).map (byteOf base) ++ (List.range 8).map (byteOf (BitVec.ofNat 64 len))

/-- A message to send: its parts, where they are, and the flags in its header. -/
structure Message where
  name : List Byte
  pieces : List (List Byte)
  control : List Byte
  bases : ℕ → Word
  flags : ℤ
  /-- `msg_namelen` has 32 bits. -/
  name_lt : name.length < 2 ^ 32
  /-- The vector is in memory. -/
  vector_lt : 16 * pieces.length < 2 ^ 64
  control_lt : control.length < 2 ^ 64
  total_lt : pieces.flatten.length < 2 ^ 31

/-- A block of known bytes. -/
def storedBlock (number : ℕ) (bytes : List Byte) : Block := ⟨number, bytes.map .stored⟩

/-- The vector of a message. -/
def Message.vector (d : Message) : List Byte :=
  (d.pieces.mapIdx fun i piece ↦ iovecBytes (d.bases i) piece.length).flatten

/-- The header of a message, as `lind_sendmsg` receives it. -/
def Message.hdr (d : Message) : MsgHdr where
  name := storedBlock 2 d.name
  namelen := wrapInt d.name.length
  iov := storedBlock 1 d.vector
  iovlen := ofInt d.pieces.length
  control := storedBlock 3 d.control
  controllen := BitVec.ofNat 64 d.control.length
  flags := d.flags

/-- The elements of the vector the loops look at: the first for its length, and as many as its
length says. -/
def loopIndices (env : Env) (iov : Block) : List ℕ := 0 :: List.range (iovLen env iov 0).toNat

/-- The strings in the request are the name, the concatenation of the buffers, and the control data,
for which there may be `None` where there is none. -/
structure Message.CarriedBy (d : Message) (r : Request) : Prop where
  num : r.num = LIND_safe_net_sendmsg
  name : r.args[1]? = some (.str d.name)
  payload : r.args[2]? = some (.str d.pieces.flatten)
  control : r.args[4]? = some (.str d.control) ∨ d.control = [] ∧ r.args[4]? = some .none

/-- `lind_sendmsg` sends the message, whatever its memory holds besides, and stays in the vector. -/
def SendmsgGathers (d : Message) (sockfd flags : ℤ) : Prop :=
  ∀ env m, (∀ i ∈ loopIndices env d.hdr.iov, i < d.pieces.length) ∧
    ∃ request log, lindSendmsg sockfd d.hdr flags (env, m) [] = .done request log ∧
      d.CarriedBy request

/-- What `lind_sendmsg` sends for a message of which its loops have copied `final` bytes. -/
def strayMessage (env : Env) (final : ℤ) (iovlen : Word) : List Byte :=
  if 0 ≤ cInt iovlen then
    (List.range (cInt iovlen).toNat).map fun k : ℕ ↦ env.around 5 (final + k)
  else env.aroundString 5

section Gathering

variable {env : Env} {m : ByteMemory} {d : Message}

/-- All that is in a block of known bytes is sent as it is. -/
theorem sentBytes_storedBlock (env : Env) (number : ℕ) (bytes : List Byte) :
    sentBytes env (storedBlock number bytes) bytes.length = bytes := by
  refine List.ext_getElem? fun j ↦ ?_
  rw [sentBytes, Int.toNat_natCast, List.getElem?_map]
  rcases Nat.lt_or_ge j bytes.length with hlt | hge
  · have hcell : (storedBlock number bytes).cells[j]? = some (.stored bytes[j]) := by
      rw [storedBlock, List.getElem?_map, List.getElem?_eq_getElem hlt]
      rfl
    rw [List.getElem?_range hlt, List.getElem?_eq_getElem hlt, Option.map_some, Block.byteAt,
      if_pos (Int.natCast_nonneg j), Int.toNat_natCast, hcell]
    rfl
  · rw [List.getElem?_eq_none (by simpa using hge), List.getElem?_eq_none hge]
    rfl

/-- The request, where there is one. -/
theorem msgRequest_eq_done_iff {num : ℕ} {sockfd flags : ℤ} {msg : MsgHdr} {request : Request}
    {log log' : List Word} :
    msgRequest num sockfd msg flags (env, m) log = .done request log' ↔
      ∃ final l control, packIov msg.iov msg.iovlen (env, m) log = .done final l ∧
        pyBytes (.stray msg.controllen) msg.flags (env, m) l = .done control log' ∧
        request = ⟨num, [.int sockfd, .str (takenBytes env msg.name msg.namelen),
          .str (strayMessage env final msg.iovlen),
          .int (cInt (env.heapAddr msg.control.number)), control, .int flags,
          .int (cInt env.vararg)]⟩ := by
  have hmessage (final : ℤ) : (if 0 ≤ cInt msg.iovlen then
      PyVal.str ((List.range (cInt msg.iovlen).toNat).map fun k : ℕ ↦ env.around 5 (final + k))
      else .str (env.aroundString 5)) = .str (strayMessage env final msg.iovlen) :=
    (apply_ite PyVal.str _ _ _).symm
  rw [msgRequest, bind_apply, ask_apply, Outcome.andThen_done]
  simp only [bind_apply, pyBytes_takenBytes, Outcome.andThen_done, hmessage, pure_apply]
  constructor
  · intro h
    obtain ⟨final, l, hpack, h⟩ := Outcome.andThen_eq_done_iff.1 h
    obtain ⟨control, l', hcontrol, h⟩ := Outcome.andThen_eq_done_iff.1 h
    cases h
    exact ⟨final, l, control, hpack, hcontrol, rfl⟩
  · rintro ⟨final, l, control, hpack, hcontrol, rfl⟩
    rw [hpack, Outcome.andThen_done, hcontrol]
    rfl

/-- The vector of no bytes at all: both loops end at once. -/
theorem packIov_eq_zero {iov : Block} (iovlen : Word) (log : List Word)
    (h : iovLen env iov 0 = 0) : packIov iov iovlen (env, m) log = .done 0 log := by
  rw [packIov, bind_apply, ask_apply, Outcome.andThen_done]
  simp only [h]
  rfl

/-- The length of the first buffer, read back from the vector. -/
theorem iovLen_vector (env : Env) {d : Message} {piece : List Byte} {rest : List (List Byte)}
    (h : d.pieces = piece :: rest) :
    iovLen env d.hdr.iov 0 = BitVec.ofNat 64 piece.length := by
  refine word_ext fun j hj ↦ ?_
  have hvector : ∃ tail, d.vector = (List.range 8).map (byteOf (d.bases 0)) ++
      ((List.range 8).map (byteOf (BitVec.ofNat 64 piece.length)) ++ tail) := by
    rw [Message.vector, h, List.mapIdx_cons, List.flatten_cons, iovecBytes, List.append_assoc]
    exact ⟨_, rfl⟩
  obtain ⟨tail, htail⟩ := hvector
  have hcell : d.hdr.iov.cells[8 + j]? =
      some (.stored (byteOf (BitVec.ofNat 64 piece.length) j)) := by
    show (d.vector.map Cell.stored)[8 + j]? = _
    rw [htail, List.getElem?_map, List.getElem?_append_right (by simp),
      List.getElem?_append_left (by simp; omega), List.getElem?_map, List.length_map,
      List.length_range, Nat.add_sub_cancel_left, List.getElem?_range hj]
    rfl
  have hoff : (16 * ((0 : ℕ) : ℤ) + 8 + j).toNat = 8 + j := by omega
  rw [iovLen, byteOf_wordAt _ _ _ hj, Block.byteAt, if_pos (by omega), hoff, hcell]
  rfl

theorem cInt_ofInt_natCast_eq_zero_iff (k : ℕ) : cInt (ofInt k) = 0 ↔ 2 ^ 32 ∣ k := by
  rw [cInt_ofInt, wrapInt, BitVec.toInt_ofInt, ← Int.dvd_iff_bmod_eq_zero]
  exact Int.natCast_dvd_natCast

/-- What `lind_sendmsg` sends, when it sends the message. -/
theorem SendmsgGathers.sent {sockfd flags : ℤ} (h : SendmsgGathers d sockfd flags) (env : Env)
    (m : ByteMemory) :
    ∃ final l log control, pyBytes (.stray d.hdr.controllen) d.flags (env, m) l =
        .done control log ∧
      takenBytes env d.hdr.name d.hdr.namelen = d.name ∧
      strayMessage env final d.hdr.iovlen = d.pieces.flatten ∧
      (control = .str d.control ∨ d.control = [] ∧ control = .none) := by
  obtain ⟨-, request, log, hdone, hcarried⟩ := h env m
  obtain ⟨final, l, control, -, hcontrol, rfl⟩ := msgRequest_eq_done_iff.1 hdone
  obtain ⟨-, hname, hpayload, hcarried⟩ := hcarried
  refine ⟨final, l, log, control, hcontrol, ?_, ?_, ?_⟩
  · exact PyVal.str.inj (Option.some.inj hname)
  · exact PyVal.str.inj (Option.some.inj hpayload)
  · exact hcarried.imp Option.some.inj (And.imp_right Option.some.inj)

/-- An environment of one byte, in which nothing is mapped. -/
def uniformEnv (β : Byte) : Env :=
  { Env.blank with around := fun _ _ ↦ β, aroundString := fun _ ↦ [β] }

theorem strayMessage_uniformEnv (β : Byte) (final : ℤ) (iovlen : Word) :
    strayMessage (uniformEnv β) final iovlen =
      if 0 ≤ cInt iovlen then List.replicate (cInt iovlen).toNat β else [β] := by
  rw [strayMessage]
  refine if_congr Iff.rfl ?_ rfl
  refine List.eq_replicate_iff.2 ⟨by simp, fun b hb ↦ ?_⟩
  obtain ⟨k, -, rfl⟩ := List.mem_map.1 hb
  rfl

/-- Only nothing at all is sent whatever is behind the freed buffer. -/
theorem SendmsgGathers.payload {sockfd flags : ℤ} (h : SendmsgGathers d sockfd flags) :
    cInt d.hdr.iovlen = 0 ∧ d.pieces.flatten = [] := by
  have hsent (β : Byte) : (if 0 ≤ cInt d.hdr.iovlen then
      List.replicate (cInt d.hdr.iovlen).toNat β else [β]) = d.pieces.flatten := by
    obtain ⟨final, -, -, -, -, -, hpayload, -⟩ :=
      h.sent (uniformEnv β) ⟨fun _ ↦ none, fun _ ↦ false⟩
    rwa [strayMessage_uniformEnv] at hpayload
  have hsame := (hsent 0).trans (hsent 1).symm
  have hzero : cInt d.hdr.iovlen = 0 := by
    split at hsame
    · rename_i hnonneg
      obtain ⟨n, hn⟩ := Int.eq_ofNat_of_zero_le hnonneg
      rw [hn, Int.toNat_natCast] at hsame
      rcases n with - | n
      · exact hn
      · rw [List.replicate_succ, List.replicate_succ] at hsame
        exact absurd (List.cons.inj hsame).1 (by decide)
    · exact absurd hsame (by decide)
  refine ⟨hzero, ?_⟩
  rw [← hsent 0, hzero]
  rfl

/-- A name longer than an `int` counts is sent up to a zero, and further if there is none. -/
theorem SendmsgGathers.name_fits {sockfd flags : ℤ} (h : SendmsgGathers d sockfd flags) :
    d.name.length < 2 ^ 31 := by
  by_contra hge
  have hlt := d.name_lt
  have hneg : ¬ 0 ≤ wrapInt d.name.length := by
    rw [wrapInt_eq_sub (by omega) (by omega)]
    omega
  obtain ⟨-, -, -, -, -, hname, -, -⟩ := h.sent (uniformEnv 1) ⟨fun _ ↦ none, fun _ ↦ false⟩
  have hbytes : (storedBlock 2 d.name).bytes (uniformEnv 1) = d.name := by
    rw [Block.bytes, storedBlock, List.map_map]
    exact List.map_id _
  change takenBytes _ (storedBlock 2 d.name) (wrapInt d.name.length) = _ at hname
  rw [takenBytes, if_neg hneg, cString, hbytes] at hname
  -- a name that is its own string has no zero, and takes the byte behind it
  have hnonzero : ∀ b ∈ d.name, decide (b ≠ 0) = true := by
    intro b hb
    rw [← hname] at hb
    exact List.mem_takeWhile_imp (p := fun b ↦ decide (b ≠ 0)) hb
  rw [List.takeWhile_append_of_pos hnonzero] at hname
  have hlen := congrArg List.length hname
  rw [List.length_append] at hlen
  exact absurd hlen (by simp [uniformEnv])

/-- Control data is never sent. -/
theorem SendmsgGathers.no_control {sockfd flags : ℤ} (h : SendmsgGathers d sockfd flags) :
    d.control = [] := by
  by_contra hne
  have hlt := d.control_lt
  have hlen : d.hdr.controllen ≠ 0 := by
    intro hzero
    have hnat := congrArg BitVec.toNat hzero
    change (BitVec.ofNat 64 d.control.length).toNat = 0 at hnat
    rw [BitVec.toNat_ofNat, Nat.mod_eq_of_lt hlt] at hnat
    exact hne (List.length_eq_zero_iff.1 hnat)
  obtain ⟨-, l, log, control, hcontrol, -, -, hcarried⟩ :=
    h.sent (uniformEnv 0) ⟨fun _ ↦ none, fun _ ↦ false⟩
  rw [pyBytes, bind_apply, ask_apply, Outcome.andThen_done] at hcontrol
  dsimp only at hcontrol
  rw [if_neg hlen] at hcontrol
  have hnot : control ≠ .str [] ∧ control ≠ .none := by
    rcases hcarried with rfl | ⟨hnil, -⟩
    · exact ⟨fun h ↦ hne (PyVal.str.inj h), fun h ↦ by cases h⟩
    · exact absurd hnil hne
  split at hcontrol
  · rcases hn : d.flags.toNat with - | n
    · rw [hn] at hcontrol
      cases hcontrol
      exact hnot.1 rfl
    · rw [hn, bind_apply, loadOwn_of_unmapped n.succ_ne_zero rfl] at hcontrol
      cases hcontrol
  · cases hcontrol

/-- **`lind_sendmsg`** sends the message exactly where all its buffers are empty, and there are so
many that their number comes out as none; where there is no control data; and where an `int` holds
the length of the name. -/
theorem sendmsg_gathers_iff (d : Message) (sockfd flags : ℤ) :
    SendmsgGathers d sockfd flags ↔ (d.pieces ≠ [] ∧ 2 ^ 32 ∣ d.pieces.length ∧
      ∀ piece ∈ d.pieces, piece = []) ∧ d.control = [] ∧ d.name.length < 2 ^ 31 := by
  constructor
  · intro h
    obtain ⟨hcount, hpayload⟩ := h.payload
    have hpos : 0 < d.pieces.length :=
      (h Env.blank ⟨fun _ ↦ none, fun _ ↦ false⟩).1 0 List.mem_cons_self
    exact ⟨⟨List.ne_nil_of_length_pos hpos, (cInt_ofInt_natCast_eq_zero_iff _).1 hcount,
      List.flatten_eq_nil_iff.1 hpayload⟩, h.no_control, h.name_fits⟩
  · rintro ⟨⟨hne, hdvd, hempty⟩, hcontrol, hname⟩ env m
    obtain ⟨piece, rest, hpieces⟩ := List.exists_cons_of_ne_nil hne
    obtain rfl : piece = [] := hempty piece (by rw [hpieces]; exact List.mem_cons_self)
    have hfirst : iovLen env d.hdr.iov 0 = 0 := iovLen_vector env hpieces
    have hcount : cInt d.hdr.iovlen = 0 := (cInt_ofInt_natCast_eq_zero_iff _).2 hdvd
    have hsent : takenBytes env d.hdr.name d.hdr.namelen = d.name := by
      show takenBytes env (storedBlock 2 d.name) (wrapInt d.name.length) = _
      rw [wrapInt_eq_self (by omega) (by omega), takenBytes, if_pos (Int.natCast_nonneg _),
        sentBytes_storedBlock]
    have hmessage : strayMessage env 0 d.hdr.iovlen = d.pieces.flatten := by
      rw [strayMessage, hcount, List.flatten_eq_nil_iff.2 hempty]
      rfl
    have hnull : pyBytes (.stray d.hdr.controllen) d.flags (env, m) [] = .done .none [] := by
      show pyBytes (.stray (BitVec.ofNat 64 d.control.length)) _ _ _ = _
      rw [hcontrol]
      rfl
    refine ⟨fun i hi ↦ ?_, _, [], msgRequest_eq_done_iff.2 ⟨0, [], .none,
      packIov_eq_zero _ _ hfirst, hnull, rfl⟩, rfl, ?_, ?_, .inr ⟨hcontrol, rfl⟩⟩
    · rw [loopIndices, hfirst] at hi
      rw [List.mem_singleton.1 hi, hpieces]
      exact Nat.succ_pos _
    · rw [← hsent]
      rfl
    · rw [← hmessage]
      rfl

end Gathering

/-- A message of two buffers, without name and control data. -/
def twoBuffers : Message where
  name := []
  pieces := [[1, 2], [3]]
  control := []
  bases i := 4096 + BitVec.ofNat 64 (16 * i)
  flags := 0
  name_lt := by decide
  vector_lt := by decide
  control_lt := by decide
  total_lt := by decide

/-- Two bytes are sent, which are none of the message. -/
theorem not_sendmsg_gathers : ¬ SendmsgGathers twoBuffers 3 0 := fun h ↦
  absurd h.payload.2 (by decide)

end ReferenceMonitor
