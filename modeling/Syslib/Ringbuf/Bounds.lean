import Syslib.Ringbuf.Queue

namespace Syslib.Ringbuf

open RingQueue Runs

/-- These bytes were accepted, and no read has delivered them. -/
def Log.unread (log : Log) : Nat := log.accepted.length - log.delivered.length

/-- The read asks for all bytes of a buffer whose unread bytes run over the end. -/
def RingBufImpl.Drains (rbi : RingBufImpl) (readlen : Nat) : Prop :=
  rbi.wOffset < rbi.rOffset ∧ readlen = rbi.size - rbi.rOffset + rbi.wOffset

theorem Log.Consistent.unread_eq {log : Log} (consistent : log.Consistent) : log.unread =
    if log.ring.rOffset ≤ log.ring.wOffset then log.ring.wOffset - log.ring.rOffset
    else log.ring.size - log.ring.rOffset + log.ring.wOffset := by
  rw [Log.unread, consistent.queue, List.length_append, Nat.add_sub_cancel_left, held_length]

/-- Both branches of the read compare with the unread bytes, the wrapped one with `<`. -/
theorem rbufReadBlock_succeeds {log : Log} (consistent : log.Consistent) {readlen : Nat}
    (short : readlen < 2 ^ 63) :
    (∃ next out, rbufReadBlock log.ring readlen = some (next, some out)) ↔
      if log.ring.rOffset ≤ log.ring.wOffset then readlen ≤ log.unread else readlen < log.unread := by
  rw [consistent.unread_eq]
  obtain ⟨⟨addr, size, r, w, bytes⟩, accepted, delivered⟩ := log
  obtain ⟨mapped, positive, readInside, writeInside, -⟩ := consistent
  simp only at mapped positive readInside writeInside ⊢
  by_cases order : r ≤ w
  · by_cases few : w - r < readlen
    · simp [rbufReadBlock, mapped, order, few]
    · simp [rbufReadBlock, mapped, order, few, memcpyOut_natCast]
      omega
  · have left : toUnsigned ((r : Int) + readlen) = r + readlen := by
      exact_mod_cast @toUnsigned_natCast (r + readlen) (by omega)
    have right : addUnsigned w size = w + size := Nat.mod_eq_of_lt (by omega)
    have remain := toLong_sub positive readInside
    by_cases room : r + readlen < w + size
    · have enough : readlen < size - r + w := by omega
      by_cases straight : readlen ≤ size - r
      · simp [rbufReadBlock, mapped, order, left, right, room, remain, straight, memcpyOut_natCast,
          enough]
      · have rest : (readlen : Int) - ((size - r : Nat) : Int) =
            ((readlen - (size - r) : Nat) : Int) := by omega
        simp [rbufReadBlock, mapped, order, left, right, room, remain, straight, rest,
          memcpyOut_natCast, enough]
    · have few : ¬ readlen < size - r + w := by omega
      simp [rbufReadBlock, mapped, order, left, right, room, few]

/-- A negative size passes the unsigned check of `rbuf_create`, and nothing has been written to such a buffer. -/
structure RingBufImpl.Negative (rbi : RingBufImpl) : Prop where
  mapped : rbi.addrBegin ≠ 0
  large : 2 ^ 63 ≤ rbi.size
  word : rbi.size < 2 ^ 64
  unread : rbi.rOffset = 0
  unwritten : rbi.wOffset = 0

theorem rbufCreate_negative {addr : Nat} {size : Int} {zoneRestored objAllocated : Bool}
    {memory : Nat → UInt8} {ring : RingBufImpl}
    (created : rbufCreate addr size zoneRestored objAllocated memory = some ring)
    (least : -2 ^ 63 ≤ size) (negative : size ≤ 0) : ring.Negative := by
  unfold rbufCreate at created
  split_ifs at created with refused
  cases created
  rw [ringBufImplSize, not_or] at refused
  simp only [toUnsigned] at refused
  refine ⟨refused.1, ?_, ?_, rfl, rfl⟩
  · simp only [toUnsigned]
    omega
  · simp only [toUnsigned]
    omega

/-- The first part of a write has a negative length. -/
theorem RingBufImpl.Negative.write {rbi : RingBufImpl} (negative : rbi.Negative) (data : List UInt8)
    (long : data.length < 2 ^ 63) : rbufWriteBlock rbi data = none := by
  obtain ⟨addr, size, r, w, bytes⟩ := rbi
  obtain ⟨mapped, large, word, unread, unwritten⟩ := negative
  simp only at mapped large word unread unwritten
  subst unread unwritten
  have left : toUnsigned (((0 : Nat) : Int) + data.length) = data.length := by
    rw [Nat.cast_zero, zero_add]
    exact toUnsigned_natCast (by omega)
  have right : addUnsigned 0 size = size := by rw [addUnsigned, Nat.zero_add, Nat.mod_eq_of_lt word]
  have remain : toLong ((size : Int) - ((0 : Nat) : Int)) < 0 := by
    rw [toLong, Int.bmod_def]
    omega
  have short : ¬ toLong ((size : Int) - ((0 : Nat) : Int)) ≥ data.length := by omega
  have room : data.length < size := by omega
  simp only [rbufWriteBlock, mapped, Nat.lt_irrefl, left, right, room, short, memcpyIn, remain, if_true, if_false,
    Option.bind_eq_bind, Option.bind_none]

/-- No byte is there, so only a read of none succeeds. -/
theorem RingBufImpl.Negative.read {rbi : RingBufImpl} (negative : rbi.Negative) (readlen : Nat) :
    rbufReadBlock rbi readlen = some (rbi, if readlen = 0 then some [] else none) := by
  obtain ⟨addr, size, r, w, bytes⟩ := rbi
  obtain ⟨mapped, large, word, unread, unwritten⟩ := negative
  simp only at mapped unread unwritten
  subst unread unwritten
  by_cases none_ : readlen = 0
  · simp [rbufReadBlock, mapped, none_, memcpyOut, segment_zero]
  · simp [rbufReadBlock, mapped, none_, Nat.pos_of_ne_zero none_]

/-- A run of calls that has a result leaves such a buffer as it was. -/
theorem RingBufImpl.Negative.calls {ring : RingBufImpl} (negative : ring.Negative) {calls : List Call} {log : Log}
    (meets : Meets callStep (fun call log => call.Long ∧ ¬ call.Fills log) calls ⟨ring, [], []⟩)
    (run : exec callStep calls ⟨ring, [], []⟩ = some log) : log = ⟨ring, [], []⟩ := by
  refine @exec_keeps _ _ callStep _ (fun log => log = ⟨ring, [], []⟩) ?_ calls _ log rfl meets run
  rintro call _ next rfl ⟨long, -⟩ taken
  cases call with
  | write data =>
      rw [callStep, negative.write data long] at taken
      cases taken
  | read readlen =>
      rw [callStep, negative.read readlen] at taken
      obtain rfl := Option.some.inj taken
      split_ifs <;> rfl

/-- A read finds its bytes exactly when they are unread, unless it drains a wrapped buffer. -/
theorem rbufReadBlock_complete {addr : Nat} {size : Int} {zoneRestored objAllocated : Bool}
    {memory : Nat → UInt8} {ring : RingBufImpl}
    (created : rbufCreate addr size zoneRestored objAllocated memory = some ring)
    (least : -2 ^ 63 ≤ size) (long : size < 2 ^ 63) (calls : List Call)
    (meets : Meets callStep (fun call log => call.Long ∧ ¬ call.Fills log) calls ⟨ring, [], []⟩)
    (log : Log) (run : exec callStep calls ⟨ring, [], []⟩ = some log)
    (readlen : Nat) (short : readlen < 2 ^ 63) :
    ((∃ next out, rbufReadBlock log.ring readlen = some (next, some out)) ↔ readlen ≤ log.unread) ↔
      ¬ log.ring.Drains readlen := by
  by_cases positive : 0 < size
  · obtain ⟨final, ended, consistent⟩ := exec_invariant callStep_consistent calls ⟨ring, [], []⟩
      (rbufCreate_consistent created positive long) meets
    obtain rfl := Option.some.inj (run.symm.trans ended)
    rw [rbufReadBlock_succeeds consistent short, consistent.unread_eq, RingBufImpl.Drains]
    split_ifs with order <;> omega
  · have negative := rbufCreate_negative created least (Int.not_lt.mp positive)
    obtain rfl := negative.calls meets run
    have dry : ¬ ring.Drains readlen := fun drains => by
      have order := drains.1
      rw [negative.unread] at order
      exact Nat.not_lt_zero _ order
    refine iff_of_true ?_ dry
    rw [negative.read]
    by_cases none_ : readlen = 0
    · simp [none_]
    · simp [none_, Log.unread]

/-- The last write of these calls runs over the end of the buffer. -/
def wrappedStream : List Call := [.write (List.replicate 30 1), .read 30, .write (List.replicate 20 2)]

/-- A shorter read of the wrapped stream meets the condition. -/
theorem rbufReadBlock_complete_part :
    ∃ ring, rbufCreate 4096 40 true true (fun _ => 0) = some ring ∧
      ∃ log, exec callStep wrappedStream ⟨ring, [], []⟩ = some log ∧
        (((∃ next out, rbufReadBlock log.ring 19 = some (next, some out)) ↔ 19 ≤ log.unread) ↔
          ¬ log.ring.Drains 19) :=
  ⟨⟨4096, 40, 0, 0, fun _ => 0⟩, rfl, _, rfl,
    @rbufReadBlock_complete 4096 40 true true (fun _ => 0) _ rfl (by decide) (by decide) wrappedStream
      (by decide) _ rfl 19 (by decide)⟩

/-- All twenty bytes of the wrapped stream are unread, but a read of twenty bytes is refused. -/
theorem rbufReadBlock_drain_refused :
    ∃ ring, rbufCreate 4096 40 true true (fun _ => 0) = some ring ∧
      Meets callStep (fun call log => call.Long ∧ ¬ call.Fills log) wrappedStream ⟨ring, [], []⟩ ∧
      ∃ log, exec callStep wrappedStream ⟨ring, [], []⟩ = some log ∧ 20 ≤ log.unread ∧
        ¬ ∃ next out, rbufReadBlock log.ring 20 = some (next, some out) := by
  refine ⟨⟨4096, 40, 0, 0, fun _ => 0⟩, rfl, by decide, _, rfl, by decide, ?_⟩
  rintro ⟨next, out, taken⟩
  cases taken

/-- One `memcpy` moves this many bytes between the caller and this offset of the buffer. -/
structure Copy where
  offset : Nat
  length : Int
  deriving DecidableEq, Repr

/-- These are the copies of `rbuf_write_block`; a refused write makes none. -/
def rbufWriteCopies (rbi : RingBufImpl) (datalen : Nat) : List Copy :=
  let r := rbi.rOffset
  let w := rbi.wOffset
  if rbi.addrBegin = 0 then []
  else if w < r then
    let remain := r - w
    if remain < datalen then [] else [⟨w, datalen⟩]
  else if toUnsigned (w + datalen) < addUnsigned r rbi.size then
    let remain := toLong (rbi.size - w)
    if remain ≥ datalen then [⟨w, datalen⟩] else [⟨w, remain⟩, ⟨0, datalen - remain⟩]
  else []

/-- These are the copies of `rbuf_read_block`. -/
def rbufReadCopies (rbi : RingBufImpl) (readlen : Nat) : List Copy :=
  let r := rbi.rOffset
  let w := rbi.wOffset
  if rbi.addrBegin = 0 then []
  else if r ≤ w then
    let remain := w - r
    if remain < readlen then [] else [⟨r, readlen⟩]
  else if toUnsigned (r + readlen) < addUnsigned w rbi.size then
    let remain := toLong (rbi.size - r)
    if remain ≥ readlen then [⟨r, readlen⟩] else [⟨r, remain⟩, ⟨0, readlen - remain⟩]
  else []

/-- The copies take consecutive parts of the data. -/
def copiesIn (bytes : Nat → UInt8) : List Copy → List UInt8 → Option (Nat → UInt8)
  | [], _ => some bytes
  | copy :: rest, data => do
      let bytes ← memcpyIn bytes copy.offset data copy.length
      copiesIn bytes rest (data.drop copy.length.toNat)

/-- The copies fill consecutive parts of the caller's buffer. -/
def copiesOut (bytes : Nat → UInt8) : List Copy → Option (List UInt8)
  | [] => some []
  | copy :: rest => do
      let front ← memcpyOut bytes copy.offset copy.length
      let back ← copiesOut bytes rest
      some (front ++ back)

/-- The listed copies are the ones that the write makes. -/
theorem rbufWriteBlock_copies (rbi : RingBufImpl) (data : List UInt8) :
    (rbufWriteBlock rbi data).map (fun result => result.1.bytes) =
      copiesIn rbi.bytes (rbufWriteCopies rbi data.length) data := by
  unfold rbufWriteBlock rbufWriteCopies
  dsimp only
  split_ifs
  all_goals simp [copiesIn, Option.map_bind]

/-- The listed copies are the ones that the read makes. -/
theorem rbufReadBlock_copies (rbi : RingBufImpl) (readlen : Nat) :
    (rbufReadBlock rbi readlen).map (fun result => result.2.getD []) =
      copiesOut rbi.bytes (rbufReadCopies rbi readlen) := by
  unfold rbufReadBlock rbufReadCopies
  dsimp only
  split_ifs
  all_goals simp [copiesOut, Option.map_bind]

/-- The buffer bytes that the copies move, in the order of the data. -/
def cells (copies : List Copy) : List Nat :=
  copies.flatMap fun copy => List.range' copy.offset copy.length.toNat

/-- The copies lie inside the buffer and cover this many bytes, each once. -/
structure Covers (size count : Nat) (copies : List Copy) : Prop where
  inside : ∀ copy ∈ copies, 0 ≤ copy.length ∧ copy.offset + copy.length ≤ size
  once : (cells copies).Nodup
  total : (cells copies).length = count

theorem covers_single {size offset count : Nat} (inside : offset + count ≤ size) :
    Covers size count [⟨offset, count⟩] := by
  refine ⟨?_, ?_, by simp [cells]⟩
  · intro copy member
    obtain rfl := List.mem_singleton.mp member
    simp only
    omega
  · simpa [cells] using List.nodup_range'

/-- The second copy of a wrapped transfer ends before the first one starts. -/
theorem covers_wrapped {size offset front back : Nat} (full : offset + front = size)
    (room : back ≤ offset) : Covers size (front + back) [⟨offset, front⟩, ⟨0, back⟩] := by
  refine ⟨?_, ?_, by simp [cells]⟩
  · intro copy member
    rcases List.mem_cons.mp member with rfl | member
    · simp only
      omega
    · obtain rfl := List.mem_singleton.mp member
      simp only
      omega
  · have apart : ∀ cell, cell ∈ List.range' offset front → cell ∉ List.range' 0 back := by
      intro cell first second
      rw [List.mem_range'_1] at first second
      omega
    simp only [cells, List.flatMap_cons, List.flatMap_nil, List.append_nil, Int.toNat_natCast]
    exact List.nodup_append.mpr ⟨List.nodup_range', List.nodup_range',
      fun cell first other second equal => apart cell first (equal ▸ second)⟩

/-- Copies into the buffer store the data in their bytes and leave the other bytes alone. -/
theorem copiesIn_cells {bytes after : Nat → UInt8} {copies : List Copy} {data : List UInt8}
    (once : (cells copies).Nodup) (total : (cells copies).length = data.length)
    (copied : copiesIn bytes copies data = some after) :
    (cells copies).map after = data ∧ ∀ cell ∉ cells copies, after cell = bytes cell := by
  induction copies generalizing bytes data with
  | nil =>
      obtain rfl := Option.some.inj copied
      exact ⟨(List.length_eq_zero_iff.mp total.symm).symm, fun _ _ => rfl⟩
  | cons copy rest ih =>
      obtain ⟨middle, first, later⟩ := Option.bind_eq_some_iff.mp copied
      have stored : store bytes copy.offset (data.take copy.length.toNat) = middle := by
        unfold memcpyIn at first
        split_ifs at first
        exact Option.some.inj first
      have split : cells (copy :: rest) = List.range' copy.offset copy.length.toNat ++ cells rest := rfl
      rw [split] at once total ⊢
      obtain ⟨-, onceRest, apart⟩ := List.nodup_append.mp once
      rw [List.length_append, List.length_range'] at total
      obtain ⟨moved, kept⟩ := ih onceRest (by rw [List.length_drop]; omega) later
      have taken : (data.take copy.length.toNat).length = copy.length.toNat := by
        rw [List.length_take]
        omega
      constructor
      · have front : (List.range' copy.offset copy.length.toNat).map after =
            data.take copy.length.toNat := by
          have same : (List.range' copy.offset copy.length.toNat).map after =
              (List.range' copy.offset copy.length.toNat).map middle := by
            apply List.map_congr_left
            intro cell inside
            exact kept cell fun again => apart cell inside cell again rfl
          have read := segment_store bytes copy.offset (data.take copy.length.toNat)
          rw [stored, taken, segment_eq] at read
          rw [same, read]
        rw [List.map_append, front, moved, List.take_append_drop]
      · intro cell outside
        rw [List.mem_append, not_or, List.mem_range'_1] at outside
        rw [kept cell outside.2, ← stored]
        exact store_outside bytes copy.offset cell _ (by rw [taken]; omega)

/-- Copies out of the buffer deliver their bytes. -/
theorem copiesOut_cells {bytes : Nat → UInt8} {copies : List Copy} {out : List UInt8}
    (copied : copiesOut bytes copies = some out) : out = (cells copies).map bytes := by
  induction copies generalizing out with
  | nil => exact (Option.some.inj copied).symm
  | cons copy rest ih =>
      obtain ⟨front, first, later⟩ := Option.bind_eq_some_iff.mp copied
      obtain ⟨back, second, joined⟩ := Option.bind_eq_some_iff.mp later
      unfold memcpyOut at first
      split_ifs at first
      rw [← Option.some.inj joined, ih second, ← Option.some.inj first, segment_eq, ← List.map_append]
      rfl

/-- This is `rbuf_reset` on a buffer that exists. -/
def rbufReset (rbi : RingBufImpl) : RingBufImpl × Int := ({ rbi with rOffset := 0, wOffset := 0 }, 0)

/-- The buffer is mapped, and both offsets are inside it. -/
structure RingBufImpl.Inside (rbi : RingBufImpl) (size : Nat) : Prop where
  mapped : rbi.addrBegin ≠ 0
  fixed : rbi.size = size
  long : size < 2 ^ 63
  readInside : rbi.rOffset ≤ size
  writeInside : rbi.wOffset ≤ size

/-- A write copies inside the buffer; it changes its bytes and the write offset, or nothing. -/
structure WriteBounded (rbi : RingBufImpl) (data : List UInt8) (next : RingBufImpl) (rslt : Int) :
    Prop where
  inside : ∀ copy ∈ rbufWriteCopies rbi data.length,
    0 ≤ copy.length ∧ copy.offset + copy.length ≤ rbi.size
  refused : rslt ≠ 0 → rslt = -1 ∧ next = rbi ∧ rbufWriteCopies rbi data.length = []
  accepted : rslt = 0 → Covers rbi.size data.length (rbufWriteCopies rbi data.length) ∧
    next = { rbi with wOffset := next.wOffset, bytes := next.bytes } ∧
    (cells (rbufWriteCopies rbi data.length)).map next.bytes = data ∧
    ∀ cell ∉ cells (rbufWriteCopies rbi data.length), next.bytes cell = rbi.bytes cell

/-- A read copies inside the buffer; it changes the read offset, or nothing. -/
structure ReadBounded (rbi : RingBufImpl) (readlen : Nat) (next : RingBufImpl)
    (out : Option (List UInt8)) : Prop where
  inside : ∀ copy ∈ rbufReadCopies rbi readlen,
    0 ≤ copy.length ∧ copy.offset + copy.length ≤ rbi.size
  refused : out = none → next = rbi ∧ rbufReadCopies rbi readlen = []
  accepted : ∀ data, out = some data → Covers rbi.size readlen (rbufReadCopies rbi readlen) ∧
    next = { rbi with rOffset := next.rOffset } ∧
    data = (cells (rbufReadCopies rbi readlen)).map rbi.bytes

/-- A write refuses without a copy, or it moves the write offset behind the bytes it covers. -/
theorem rbufWriteBlock_cases {rbi : RingBufImpl} {size : Nat} (within : rbi.Inside size)
    (data : List UInt8) (long : data.length < 2 ^ 63) :
    rbufWriteBlock rbi data = some (rbi, -1) ∧ rbufWriteCopies rbi data.length = [] ∨
      ∃ bytes w, rbufWriteBlock rbi data = some ({ rbi with wOffset := w, bytes := bytes }, 0) ∧
        w ≤ size ∧ Covers size data.length (rbufWriteCopies rbi data.length) := by
  obtain ⟨addr, total, r, w, bytes⟩ := rbi
  obtain ⟨mapped, fixed, small, readInside, writeInside⟩ := within
  simp only at mapped fixed readInside writeInside
  subst fixed
  by_cases wrapped : w < r
  · by_cases short : r - w < data.length
    · left
      simp [rbufWriteBlock, rbufWriteCopies, mapped, wrapped, short]
    · right
      refine ⟨store bytes w data, w + data.length, ?_, by omega, ?_⟩
      · simp [rbufWriteBlock, mapped, wrapped, short, memcpyIn_natCast]
      · have copies : rbufWriteCopies ⟨addr, total, r, w, bytes⟩ data.length = [⟨w, data.length⟩] := by
          simp [rbufWriteCopies, mapped, wrapped, short]
        rw [copies]
        exact covers_single (by omega)
  · have left_ : toUnsigned ((w : Int) + data.length) = w + data.length := by
      exact_mod_cast @toUnsigned_natCast (w + data.length) (by omega)
    have right_ : addUnsigned r total = r + total := Nat.mod_eq_of_lt (by omega)
    have remain := toLong_sub small writeInside
    by_cases room : w + data.length < r + total
    · right
      by_cases straight : data.length ≤ total - w
      · refine ⟨store bytes w data, w + data.length, ?_, by omega, ?_⟩
        · simp [rbufWriteBlock, mapped, wrapped, left_, right_, room, remain, straight, memcpyIn_natCast]
        · have copies : rbufWriteCopies ⟨addr, total, r, w, bytes⟩ data.length =
              [⟨w, data.length⟩] := by
            simp [rbufWriteCopies, mapped, wrapped, left_, right_, room, remain, straight]
          rw [copies]
          exact covers_single (by omega)
      · have rest : (data.length : Int) - ((total - w : Nat) : Int) =
            ((data.length - (total - w) : Nat) : Int) := by omega
        refine ⟨store (store bytes w (data.take (total - w))) 0 (data.drop (total - w)),
          data.length - (total - w), ?_, by omega, ?_⟩
        · have whole : (data.drop (total - w)).take (data.length - (total - w)) =
              data.drop (total - w) := List.take_of_length_le (by simp)
          simp [rbufWriteBlock, mapped, wrapped, left_, right_, room, remain, straight, rest,
            memcpyIn_natCast, whole]
        · have copies : rbufWriteCopies ⟨addr, total, r, w, bytes⟩ data.length =
              [⟨w, (total - w : Nat)⟩, ⟨0, (data.length - (total - w) : Nat)⟩] := by
            simp [rbufWriteCopies, mapped, wrapped, left_, right_, room, remain, straight, rest]
          have covered := @covers_wrapped total w (total - w) (data.length - (total - w))
            (by omega) (by omega)
          rw [Nat.add_sub_cancel' (by omega)] at covered
          rw [copies]
          exact covered
    · left
      simp [rbufWriteBlock, rbufWriteCopies, mapped, wrapped, left_, right_, room]

/-- A read refuses without a copy, or it moves the read offset behind the bytes it covers. -/
theorem rbufReadBlock_cases {rbi : RingBufImpl} {size : Nat} (within : rbi.Inside size)
    (readlen : Nat) (long : readlen < 2 ^ 63) :
    rbufReadBlock rbi readlen = some (rbi, none) ∧ rbufReadCopies rbi readlen = [] ∨
      ∃ out r, rbufReadBlock rbi readlen = some ({ rbi with rOffset := r }, some out) ∧
        r ≤ size ∧ Covers size readlen (rbufReadCopies rbi readlen) := by
  obtain ⟨addr, total, r, w, bytes⟩ := rbi
  obtain ⟨mapped, fixed, small, readInside, writeInside⟩ := within
  simp only at mapped fixed readInside writeInside
  subst fixed
  by_cases order : r ≤ w
  · by_cases short : w - r < readlen
    · left
      simp [rbufReadBlock, rbufReadCopies, mapped, order, short]
    · right
      refine ⟨segment bytes r readlen, r + readlen, ?_, by omega, ?_⟩
      · simp [rbufReadBlock, mapped, order, short, memcpyOut_natCast]
      · have copies : rbufReadCopies ⟨addr, total, r, w, bytes⟩ readlen = [⟨r, readlen⟩] := by
          simp [rbufReadCopies, mapped, order, short]
        rw [copies]
        exact covers_single (by omega)
  · have left_ : toUnsigned ((r : Int) + readlen) = r + readlen := by
      exact_mod_cast @toUnsigned_natCast (r + readlen) (by omega)
    have right_ : addUnsigned w total = w + total := Nat.mod_eq_of_lt (by omega)
    have remain := toLong_sub small readInside
    by_cases room : r + readlen < w + total
    · right
      by_cases straight : readlen ≤ total - r
      · refine ⟨segment bytes r readlen, r + readlen, ?_, by omega, ?_⟩
        · simp [rbufReadBlock, mapped, order, left_, right_, room, remain, straight, memcpyOut_natCast]
        · have copies : rbufReadCopies ⟨addr, total, r, w, bytes⟩ readlen = [⟨r, readlen⟩] := by
            simp [rbufReadCopies, mapped, order, left_, right_, room, remain, straight]
          rw [copies]
          exact covers_single (by omega)
      · have rest : (readlen : Int) - ((total - r : Nat) : Int) =
            ((readlen - (total - r) : Nat) : Int) := by omega
        refine ⟨segment bytes r (total - r) ++ segment bytes 0 (readlen - (total - r)),
          readlen - (total - r), ?_, by omega, ?_⟩
        · simp [rbufReadBlock, mapped, order, left_, right_, room, remain, straight, rest,
            memcpyOut_natCast]
        · have copies : rbufReadCopies ⟨addr, total, r, w, bytes⟩ readlen =
              [⟨r, (total - r : Nat)⟩, ⟨0, (readlen - (total - r) : Nat)⟩] := by
            simp [rbufReadCopies, mapped, order, left_, right_, room, remain, straight, rest]
          have covered := @covers_wrapped total r (total - r) (readlen - (total - r))
            (by omega) (by omega)
          rw [Nat.add_sub_cancel' (by omega)] at covered
          rw [copies]
          exact covered
    · left
      simp [rbufReadBlock, rbufReadCopies, mapped, order, left_, right_, room]

theorem rbufWriteBlock_bounded {rbi : RingBufImpl} {size : Nat} (within : rbi.Inside size)
    (data : List UInt8) (long : data.length < 2 ^ 63) :
    ∃ next rslt, rbufWriteBlock rbi data = some (next, rslt) ∧ WriteBounded rbi data next rslt ∧
      next.Inside size := by
  rcases rbufWriteBlock_cases within data long with ⟨taken, copies⟩ | ⟨bytes, w, taken, inside, covers⟩
  · refine ⟨rbi, -1, taken, ⟨?_, fun _ => ⟨rfl, rfl, copies⟩, fun zero => absurd zero (by decide)⟩, within⟩
    intro copy member
    rw [copies] at member
    exact absurd member List.not_mem_nil
  · have copied := rbufWriteBlock_copies rbi data
    rw [taken, Option.map_some] at copied
    obtain ⟨moved, kept⟩ := copiesIn_cells covers.once covers.total copied.symm
    rw [← within.fixed] at covers
    exact ⟨_, 0, taken, ⟨covers.inside, fun failed => absurd rfl failed,
      fun _ => ⟨covers, rfl, moved, kept⟩⟩, { within with writeInside := inside }⟩

theorem rbufReadBlock_bounded {rbi : RingBufImpl} {size : Nat} (within : rbi.Inside size)
    (readlen : Nat) (long : readlen < 2 ^ 63) :
    ∃ next out, rbufReadBlock rbi readlen = some (next, out) ∧ ReadBounded rbi readlen next out ∧
      next.Inside size := by
  rcases rbufReadBlock_cases within readlen long with ⟨taken, copies⟩ | ⟨out, r, taken, inside, covers⟩
  · refine ⟨rbi, none, taken, ⟨?_, fun _ => ⟨rfl, copies⟩, fun _ found => nomatch found⟩, within⟩
    intro copy member
    rw [copies] at member
    exact absurd member List.not_mem_nil
  · have copied := rbufReadBlock_copies rbi readlen
    rw [taken, Option.map_some, Option.getD_some] at copied
    have moved := copiesOut_cells copied.symm
    rw [← within.fixed] at covers
    refine ⟨_, some out, taken, ⟨covers.inside, fun failed => (nomatch failed), ?_⟩,
      { within with readInside := inside }⟩
    intro data found
    cases found
    exact ⟨covers, rfl, moved⟩

/-- The calls on an existing buffer are its writes, its reads and its resets. -/
inductive Access where
  | block (call : Call)
  | reset

def accessStep : Access → RingBufImpl → Option RingBufImpl
  | .block (.write data), ring => (rbufWriteBlock ring data).map Prod.fst
  | .block (.read readlen), ring => (rbufReadBlock ring readlen).map Prod.fst
  | .reset, ring => some (rbufReset ring).1

/-- The lengths fit a `long` behind their offset. -/
def Access.Fits : Access → RingBufImpl → Prop
  | .block call, ring => call.Fits ⟨ring, [], []⟩
  | .reset, _ => True

instance Access.Fits.decidable : ∀ (access : Access) (ring : RingBufImpl), Decidable (access.Fits ring)
  | .block call, ring => inferInstanceAs (Decidable (call.Fits ⟨ring, [], []⟩))
  | .reset, _ => inferInstanceAs (Decidable True)

theorem rbufReset_inside {rbi : RingBufImpl} {size : Nat} (within : rbi.Inside size) :
    (rbufReset rbi).1.Inside size :=
  { within with readInside := Nat.zero_le _, writeInside := Nat.zero_le _ }

theorem accessStep_inside {size : Nat} (access : Access) (ring : RingBufImpl)
    (within : ring.Inside size) (fits : access.Fits ring) :
    ∃ next, accessStep access ring = some next ∧ next.Inside size := by
  cases access with
  | block call =>
      cases call with
      | write data =>
          obtain ⟨next, rslt, taken, -, kept⟩ := rbufWriteBlock_bounded within data
            (@Call.Fits.long (.write data) ⟨ring, [], []⟩ fits)
          exact ⟨next, by simp [accessStep, taken], kept⟩
      | read readlen =>
          obtain ⟨next, out, taken, -, kept⟩ := rbufReadBlock_bounded within readlen
            (@Call.Fits.long (.read readlen) ⟨ring, [], []⟩ fits)
          exact ⟨next, by simp [accessStep, taken], kept⟩
  | reset => exact ⟨_, rfl, rbufReset_inside within⟩

/-- No sequence of calls copies outside the buffer or changes more than its own offset and bytes. -/
theorem rbufAccesses_bounded {addr : Nat} {size : Int} {zoneRestored objAllocated : Bool}
    {memory : Nat → UInt8} {ring : RingBufImpl}
    (created : rbufCreate addr size zoneRestored objAllocated memory = some ring)
    (positive : 0 < size) (long : size < 2 ^ 63) (accesses : List Access)
    (meets : Meets accessStep Access.Fits accesses ring) :
    ∃ reached, exec accessStep accesses ring = some reached ∧ reached.Inside size.toNat ∧
      (∀ data : List UInt8, reached.wOffset + data.length < 2 ^ 63 →
        ∃ next rslt, rbufWriteBlock reached data = some (next, rslt) ∧
          WriteBounded reached data next rslt ∧ next.Inside size.toNat) ∧
      (∀ readlen : Nat, reached.rOffset + readlen < 2 ^ 63 →
        ∃ next out, rbufReadBlock reached readlen = some (next, out) ∧
          ReadBounded reached readlen next out ∧ next.Inside size.toNat) ∧
      (rbufReset reached).1.Inside size.toNat := by
  have within : ring.Inside size.toNat := by
    unfold rbufCreate at created
    split_ifs at created with unmapped
    cases created
    refine ⟨fun zero => unmapped (Or.inl zero), ?_, by omega, Nat.zero_le _, Nat.zero_le _⟩
    simp only [toUnsigned]
    omega
  obtain ⟨reached, run, kept⟩ := exec_invariant accessStep_inside accesses ring within meets
  refine ⟨reached, run, kept, ?_, ?_, rbufReset_inside kept⟩
  · intro data fits
    exact rbufWriteBlock_bounded kept data (by omega)
  · intro readlen fits
    exact rbufReadBlock_bounded kept readlen (by omega)

/-- A reset and a filling write are among these calls. -/
theorem rbufAccesses_bounded_full :
    ∃ ring, rbufCreate 4096 40 true true (fun _ => 0) = some ring ∧
      ∃ reached, exec accessStep [.block (.write [1, 2, 3]), .block (.read 3), .reset,
          .block (.write (List.replicate 39 4))] ring = some reached ∧
        reached.Inside 40 := by
  obtain ⟨reached, run, kept, -⟩ := @rbufAccesses_bounded 4096 40 true true (fun _ => 0) _ rfl
    (by decide) (by decide) [.block (.write [1, 2, 3]), .block (.read 3), .reset,
      .block (.write (List.replicate 39 4))] (by decide)
  exact ⟨_, rfl, reached, run, kept⟩

/-- The size `-8` passes, and the first write copies a negative number of bytes. -/
theorem rbufAccesses_negative :
    ∃ ring, rbufCreate 4096 (-8) true true (fun _ => 0) = some ring ∧
      Access.Fits (.block (.write [1])) ring ∧ ⟨0, -8⟩ ∈ rbufWriteCopies ring 1 ∧
      (accessStep (.block (.write [1])) ring).isNone :=
  ⟨⟨4096, 2 ^ 64 - 8, 0, 0, fun _ => 0⟩, rfl, by decide, by decide, by decide⟩

end Syslib.Ringbuf
