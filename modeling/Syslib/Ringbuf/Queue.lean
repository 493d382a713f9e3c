import Syslib.Ringbuf.Model

namespace Syslib.Ringbuf

open RingQueue Runs

/-- The offsets stay inside the buffer and encode the accepted bytes that are not delivered yet. -/
structure Log.Consistent (log : Log) : Prop where
  mapped : log.ring.addrBegin ≠ 0
  positive : log.ring.size < 2 ^ 63
  readInside : log.ring.rOffset ≤ log.ring.size
  writeInside : log.ring.wOffset ≤ log.ring.size
  queue : log.accepted = log.delivered ++
    held log.ring.bytes log.ring.size log.ring.rOffset log.ring.wOffset

/-- The lengths fit a `long` behind their offset. -/
def Call.Fits : Call → Log → Prop
  | .write data, log => log.ring.wOffset + data.length < 2 ^ 63
  | .read readlen, log => log.ring.rOffset + readlen < 2 ^ 63

/-- The lengths are `long` values that are not negative. -/
def Call.Long : Call → Prop
  | .write data => data.length < 2 ^ 63
  | .read readlen => readlen < 2 ^ 63

/-- A wrapped write that ends exactly at the read offset makes the full buffer look empty. -/
def Call.Fills : Call → Log → Prop
  | .write data, log => log.ring.wOffset < log.ring.rOffset ∧
      data.length = log.ring.rOffset - log.ring.wOffset
  | .read _, _ => False

instance : ∀ (call : Call) (log : Log), Decidable (call.Fits log)
  | .write _, _ => inferInstanceAs (Decidable (_ < _))
  | .read _, _ => inferInstanceAs (Decidable (_ < _))

instance Call.Long.decidable : ∀ call : Call, Decidable call.Long
  | .write _ => inferInstanceAs (Decidable (_ < _))
  | .read _ => inferInstanceAs (Decidable (_ < _))

instance : ∀ (call : Call) (log : Log), Decidable (call.Fills log)
  | .write _, _ => inferInstanceAs (Decidable (_ ∧ _))
  | .read _, _ => inferInstanceAs (Decidable False)

theorem Call.Fits.long {call : Call} {log : Log} (fits : call.Fits log) : call.Long := by
  cases call with
  | write data => exact Nat.lt_of_le_of_lt (Nat.le_add_left _ _) fits
  | read readlen => exact Nat.lt_of_le_of_lt (Nat.le_add_left _ _) fits

theorem toUnsigned_natCast {value : Nat} (fits : value < 2 ^ 64) :
    toUnsigned (value : Int) = value := by
  unfold toUnsigned
  omega

theorem toLong_sub {size offset : Nat} (fits : size < 2 ^ 63) (inside : offset ≤ size) :
    toLong ((size : Int) - offset) = ((size - offset : Nat) : Int) := by
  unfold toLong
  rw [Int.bmod_eq_of_le (by omega) (by omega)]
  omega

theorem memcpyIn_natCast (bytes : Nat → UInt8) (offset : Nat) (data : List UInt8) (length : Nat) :
    memcpyIn bytes offset data length = some (store bytes offset (data.take length)) := by
  simp [memcpyIn]

theorem memcpyOut_natCast (bytes : Nat → UInt8) (offset length : Nat) :
    memcpyOut bytes offset length = some (segment bytes offset length) := by
  simp [memcpyOut]

/-- A write either refuses and changes nothing or appends its data to the queue. -/
theorem rbufWriteBlock_consistent (log : Log) (data : List UInt8) (consistent : log.Consistent)
    (long : data.length < 2 ^ 63) (open_ : ¬ (Call.write data).Fills log) :
    ∃ next, callStep (.write data) log = some next ∧ next.Consistent := by
  obtain ⟨⟨addr, size, r, w, bytes⟩, accepted, delivered⟩ := log
  obtain ⟨mapped, positive, readInside, writeInside, queue⟩ := consistent
  simp only [Call.Fills] at *
  by_cases wrapped : w < r
  · by_cases short : r - w < data.length
    · refine ⟨⟨⟨addr, size, r, w, bytes⟩, accepted, delivered⟩, ?_, mapped, positive, readInside,
        writeInside, queue⟩
      simp [callStep, rbufWriteBlock, mapped, wrapped, short]
    · have gap : w + data.length < r := by omega
      refine ⟨⟨⟨addr, size, r, w + data.length, store bytes w data⟩, accepted ++ data, delivered⟩,
        ?_, mapped, positive, readInside, by simp only; omega, ?_⟩
      · simp [callStep, rbufWriteBlock, mapped, wrapped, short, memcpyIn_natCast]
      · simp only [queue, List.append_assoc]
        rw [held_store_wrapped bytes data gap]
  · have order : r ≤ w := by omega
    have left : toUnsigned ((w : Int) + data.length) = w + data.length := by
      exact_mod_cast @toUnsigned_natCast (w + data.length) (by omega)
    have right : addUnsigned r size = r + size := Nat.mod_eq_of_lt (by omega)
    have remain := toLong_sub positive writeInside
    by_cases room : w + data.length < r + size
    · by_cases straight : data.length ≤ size - w
      · refine ⟨⟨⟨addr, size, r, w + data.length, store bytes w data⟩, accepted ++ data, delivered⟩,
          ?_, mapped, positive, readInside, by simp only; omega, ?_⟩
        · simp [callStep, rbufWriteBlock, mapped, wrapped, left, right, room, remain, straight,
            memcpyIn_natCast]
        · simp only [queue, List.append_assoc]
          rw [held_store_unwrapped bytes data order]
      · have rest : (data.length : Int) - ((size - w : Nat) : Int) =
            ((data.length - (size - w) : Nat) : Int) := by omega
        refine ⟨⟨⟨addr, size, r, data.length - (size - w),
          store (store bytes w (data.take (size - w))) 0 (data.drop (size - w))⟩,
          accepted ++ data, delivered⟩, ?_, mapped, positive, readInside, by simp only; omega, ?_⟩
        · have whole : (data.drop (size - w)).take (data.length - (size - w)) =
              data.drop (size - w) := List.take_of_length_le (by simp)
          simp [callStep, rbufWriteBlock, mapped, wrapped, left, right, room, remain, straight,
            rest, memcpyIn_natCast, whole]
        · have split := @held_store_split _ bytes size r w
            (data.take (size - w)) (data.drop (size - w)) order (by simp; omega) (by simp; omega)
          rw [List.take_append_drop, List.length_drop] at split
          simp only [queue, List.append_assoc]
          rw [split]
    · refine ⟨⟨⟨addr, size, r, w, bytes⟩, accepted, delivered⟩, ?_, mapped, positive, readInside,
        writeInside, queue⟩
      simp [callStep, rbufWriteBlock, mapped, wrapped, left, right, room]

/-- A read either refuses and changes nothing or removes its bytes from the front of the queue. -/
theorem rbufReadBlock_consistent (log : Log) (readlen : Nat) (consistent : log.Consistent)
    (long : readlen < 2 ^ 63) :
    ∃ next, callStep (.read readlen) log = some next ∧ next.Consistent := by
  obtain ⟨⟨addr, size, r, w, bytes⟩, accepted, delivered⟩ := log
  obtain ⟨mapped, positive, readInside, writeInside, queue⟩ := consistent
  simp only at *
  have refused : Log.Consistent ⟨⟨addr, size, r, w, bytes⟩, accepted, delivered⟩ :=
    ⟨mapped, positive, readInside, writeInside, queue⟩
  by_cases order : r ≤ w
  · by_cases short : w - r < readlen
    · refine ⟨_, ?_, refused⟩
      simp [callStep, rbufReadBlock, mapped, order, short]
    · refine ⟨⟨⟨addr, size, r + readlen, w, bytes⟩, accepted, delivered ++ segment bytes r readlen⟩,
        ?_, mapped, positive, by simp only; omega, writeInside, ?_⟩
      · simp [callStep, rbufReadBlock, mapped, order, short, memcpyOut_natCast]
      · simp only [queue, List.append_assoc]
        rw [held_take_unwrapped bytes size readlen (by omega)]
  · have wrapped : w < r := by omega
    have left : toUnsigned ((r : Int) + readlen) = r + readlen := by
      exact_mod_cast @toUnsigned_natCast (r + readlen) (by omega)
    have right : addUnsigned w size = w + size := Nat.mod_eq_of_lt (by omega)
    have remain := toLong_sub positive readInside
    by_cases room : r + readlen < w + size
    · by_cases straight : readlen ≤ size - r
      · refine ⟨⟨⟨addr, size, r + readlen, w, bytes⟩, accepted,
          delivered ++ segment bytes r readlen⟩, ?_, mapped, positive, by simp only; omega,
          writeInside, ?_⟩
        · simp [callStep, rbufReadBlock, mapped, order, left, right, room, remain, straight,
            memcpyOut_natCast]
        · simp only [queue, List.append_assoc]
          rw [held_take_wrapped bytes readlen wrapped (by omega)]
      · have rest : (readlen : Int) - ((size - r : Nat) : Int) =
            ((readlen - (size - r) : Nat) : Int) := by omega
        refine ⟨⟨⟨addr, size, readlen - (size - r), w, bytes⟩, accepted, delivered ++
          (segment bytes r (size - r) ++ segment bytes 0 (readlen - (size - r)))⟩, ?_, mapped,
          positive, by simp only; omega, writeInside, ?_⟩
        · simp [callStep, rbufReadBlock, mapped, order, left, right, room, remain, straight,
            rest, memcpyOut_natCast]
        · simp only [queue, List.append_assoc]
          rw [held_take_split bytes (readlen - (size - r)) wrapped (by omega), List.append_assoc]
    · refine ⟨_, ?_, refused⟩
      simp [callStep, rbufReadBlock, mapped, order, left, right, room]

theorem callStep_consistent (call : Call) (log : Log) (consistent : log.Consistent)
    (allowed : call.Long ∧ ¬ call.Fills log) :
    ∃ next, callStep call log = some next ∧ next.Consistent := by
  cases call with
  | write data => exact rbufWriteBlock_consistent log data consistent allowed.1 allowed.2
  | read readlen => exact rbufReadBlock_consistent log readlen consistent allowed.1

/-- A buffer of positive size starts with an empty queue. -/
theorem rbufCreate_consistent {addr : Nat} {size : Int} {zoneRestored objAllocated : Bool}
    {memory : Nat → UInt8} {ring : RingBufImpl}
    (created : rbufCreate addr size zoneRestored objAllocated memory = some ring)
    (positive : 0 < size) (long : size < 2 ^ 63) : Log.Consistent ⟨ring, [], []⟩ := by
  unfold rbufCreate at created
  split_ifs at created with unmapped
  cases created
  refine ⟨fun zero => unmapped (Or.inl zero), ?_, Nat.zero_le _, Nat.zero_le _, by simp⟩
  simp only [toUnsigned]
  omega

/-- While no write fills the gap up to the read offset, the delivered bytes are a prefix of the accepted ones. -/
theorem rbufCalls_inOrder {addr : Nat} {size : Int} {zoneRestored objAllocated : Bool}
    {memory : Nat → UInt8} {ring : RingBufImpl}
    (created : rbufCreate addr size zoneRestored objAllocated memory = some ring)
    (positive : 0 < size) (long : size < 2 ^ 63) (calls : List Call)
    (meets : Meets callStep (fun call log => call.Fits log ∧ ¬ call.Fills log) calls ⟨ring, [], []⟩) :
    ∃ log, exec callStep calls ⟨ring, [], []⟩ = some log ∧ log.delivered <+: log.accepted := by
  have keeps : ∀ call log, Log.Consistent log → call.Fits log ∧ ¬ call.Fills log →
      ∃ next, callStep call log = some next ∧ next.Consistent := by
    intro call log consistent allowed
    exact callStep_consistent call log consistent ⟨allowed.1.long, allowed.2⟩
  obtain ⟨log, run, consistent⟩ := exec_invariant keeps calls ⟨ring, [], []⟩
    (rbufCreate_consistent created positive long) meets
  exact ⟨log, run, ⟨_, consistent.queue.symm⟩⟩

/-- Two writes and a read of an ordinary stream meet the condition of the prefix law. -/
theorem rbufCalls_inOrder_stream :
    ∃ ring, rbufCreate 4096 40 true true (fun _ => 0) = some ring ∧
      ∃ log, exec callStep [.write [1, 2], .read 1, .write [3]] ⟨ring, [], []⟩ = some log ∧
        log.delivered <+: log.accepted :=
  ⟨⟨4096, 40, 0, 0, fun _ => 0⟩, rfl,
    @rbufCalls_inOrder 4096 40 true true (fun _ => 0) _ rfl (by decide) (by decide) _
      (by decide)⟩

/-- The fourth write ends at the read offset, and the fifth one is then accepted over unread bytes. -/
def overrun : List Call :=
  [.write (List.replicate 30 1), .read 30, .write (List.replicate 35 2),
    .write (List.replicate 5 3), .write (List.replicate 20 4), .read 10]

/-- A filling write lets a later write overwrite bytes that no read has delivered. -/
theorem rbufCalls_overrun_lost :
    ∃ ring, rbufCreate 4096 40 true true (fun _ => 0) = some ring ∧
      Meets callStep Call.Fits overrun ⟨ring, [], []⟩ ∧
      ∃ log, exec callStep overrun ⟨ring, [], []⟩ = some log ∧ ¬ log.delivered <+: log.accepted :=
  ⟨⟨4096, 40, 0, 0, fun _ => 0⟩, rfl, by decide, _, rfl, by decide⟩

end Syslib.Ringbuf
