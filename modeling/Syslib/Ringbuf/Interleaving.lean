import Syslib.Ringbuf.Offsets

namespace Syslib.Ringbuf

open RingQueue Runs

/-- The writing process stands between two of its accesses to the shared record. -/
inductive Writer where
  | idle
  | loaded (data : List UInt8) (r : Nat)
  | copying (data : List UInt8) (todo : List (Nat × UInt8)) (w : Nat)

/-- The reading process copies into its own memory `buf`. -/
inductive Reader where
  | idle
  | loaded (readlen : Nat) (buf : Nat → UInt8) (r : Nat)
  | copying (readlen : Nat) (todo : List (Nat × Nat)) (buf : Nat → UInt8) (r : Nat)

/-- A call that returned, with the bytes that a successful read delivered. -/
inductive Outcome where
  | wrote (data : List UInt8) (rslt : Int)
  | read (readlen : Nat) (out : Option (List UInt8))
  deriving DecidableEq

def Outcome.accepted : Outcome → List UInt8
  | .wrote data rslt => if rslt = 0 then data else []
  | .read _ _ => []

def Outcome.delivered : Outcome → List UInt8
  | .wrote _ _ => []
  | .read _ out => out.getD []

def Outcome.ofWriter : Outcome → Bool
  | .wrote _ _ => true
  | .read _ _ => false

/-- The record and the bytes are shared; the outcomes stand in the order of the returns. -/
structure Shared where
  ring : RingBufImpl
  writer : Writer
  reader : Reader
  outcomes : List Outcome

/-- Both processes use a record that no call has touched. -/
def Shared.start (ring : RingBufImpl) : Shared := ⟨ring, .idle, .idle, []⟩

/-- The cells that the writer still has to store, and those that the reader still has to load. -/
def Writer.targets : Writer → List Nat
  | .copying _ todo _ => todo.map Prod.fst
  | _ => []

def Reader.sources : Reader → List Nat
  | .copying _ todo _ _ => todo.map Prod.fst
  | _ => []

/-- The bytes accepted and delivered by the calls that returned. -/
def Shared.log (s : Shared) : Log :=
  ⟨s.ring, s.outcomes.flatMap Outcome.accepted, s.outcomes.flatMap Outcome.delivered⟩

/-- One access of one process; the accesses of both reach the memory in one order. -/
inductive Turn where
  | writeCall (data : List UInt8)
  | writeLoad
  | writeByte (item : Nat × UInt8)
  | writeStore
  | readCall (readlen : Nat) (buf : Nat → UInt8)
  | readLoad
  | readByte (item : Nat × Nat)
  | readStore

def Turn.ofWriter : Turn → Bool
  | .writeCall _ | .writeLoad | .writeByte _ | .writeStore => true
  | _ => false

/-- Both calls load the read offset first; `memcpy` moves its bytes in any order. -/
def turnStep : Turn → Shared → Option Shared
  | .writeCall data, s =>
      match s.writer with
      | .idle => some { s with writer := .loaded data s.ring.rOffset }
      | _ => none
  | .writeLoad, s =>
      match s.writer with
      | .loaded data r => do
          -- the branches and the copies depend on the loaded offset
          let seen := { s.ring with rOffset := r }
          let (next, rslt) ← rbufWriteBlock seen data
          if rslt = 0 then
            some { s with
              writer := .copying data ((cells (rbufWriteCopies seen data.length)).zip data) next.wOffset }
          else some { s with writer := .idle, outcomes := s.outcomes ++ [.wrote data rslt] }
      | _ => none
  | .writeByte item, s =>
      match s.writer with
      | .copying data todo w =>
          if todo.contains item then
            some { s with
              ring := { s.ring with bytes := Function.update s.ring.bytes item.1 item.2 }
              writer := .copying data (todo.erase item) w }
          else none
      | _ => none
  | .writeStore, s =>
      match s.writer with
      | .copying data [] w =>
          some { s with
            ring := { s.ring with wOffset := w }
            writer := .idle
            outcomes := s.outcomes ++ [.wrote data 0] }
      | _ => none
  | .readCall readlen buf, s =>
      match s.reader with
      | .idle => some { s with reader := .loaded readlen buf s.ring.rOffset }
      | _ => none
  | .readLoad, s =>
      match s.reader with
      | .loaded readlen buf r => do
          let seen := { s.ring with rOffset := r }
          let (next, out) ← rbufReadBlock seen readlen
          if out.isSome then
            some { s with
              reader := .copying readlen (cells (rbufReadCopies seen readlen)).zipIdx buf next.rOffset }
          else some { s with reader := .idle, outcomes := s.outcomes ++ [.read readlen none] }
      | _ => none
  | .readByte item, s =>
      match s.reader with
      | .copying readlen todo buf r =>
          if todo.contains item then
            some { s with
              reader := .copying readlen (todo.erase item)
                (Function.update buf item.2 (s.ring.bytes item.1)) r }
          else none
      | _ => none
  | .readStore, s =>
      match s.reader with
      | .copying readlen [] buf r =>
          some { s with
            ring := { s.ring with rOffset := r }
            reader := .idle
            outcomes := s.outcomes ++ [.read readlen (some (segment buf 0 readlen))] }
      | _ => none

/-- The lengths are `long` values, and no stored write offset meets the read offset from below. -/
def Turn.Allowed (turn : Turn) (s : Shared) : Prop :=
  match turn with
  | .writeCall data => data.length < 2 ^ 63
  | .writeStore =>
      match s.writer with
      | .copying data _ _ => ¬ (Call.write data).Fills s.log
      | _ => True
  | .readCall readlen _ => readlen < 2 ^ 63
  | _ => True

instance Turn.Allowed.decidable (turn : Turn) (s : Shared) : Decidable (turn.Allowed s) := by
  unfold Turn.Allowed
  cases turn <;> cases s.writer <;> infer_instance

/-- The writer has seen a past read offset, and its finished copies are in their cells. -/
def Writer.Sound (ring : RingBufImpl) : Writer → Prop
  | .idle => True
  | .loaded data r => data.length < 2 ^ 63 ∧ r ≤ ring.size ∧ Behind ring.size ring.wOffset r ring.rOffset
  | .copying data todo w => data.length < 2 ^ 63 ∧
      (∃ r ≤ ring.size, Behind ring.size ring.wOffset r ring.rOffset ∧
        writeTo ring.size r ring.wOffset data.length = some w) ∧
      (∀ item ∈ todo, item ∈ (stretch ring.size ring.wOffset data.length).zip data) ∧
      ∀ item ∈ (stretch ring.size ring.wOffset data.length).zip data,
        item ∈ todo ∨ ring.bytes item.1 = item.2

/-- The reader has seen a past write offset, and its finished copies are still in their cells. -/
def Reader.Sound (ring : RingBufImpl) : Reader → Prop
  | .idle => True
  | .loaded readlen _ r => readlen < 2 ^ 63 ∧ r = ring.rOffset
  | .copying readlen todo buf r => readlen < 2 ^ 63 ∧
      (∃ w ≤ ring.size, Ahead ring.size ring.rOffset w ring.wOffset ∧
        readTo ring.size ring.rOffset w readlen = some r) ∧
      (∀ item ∈ todo, item ∈ (stretch ring.size ring.rOffset readlen).zipIdx) ∧
      ∀ item ∈ (stretch ring.size ring.rOffset readlen).zipIdx,
        item ∈ todo ∨ buf item.2 = ring.bytes item.1

structure Shared.Sound (s : Shared) : Prop where
  log : s.log.Consistent
  writer : s.writer.Sound s.ring
  reader : s.reader.Sound s.ring

theorem Log.Consistent.within {log : Log} (consistent : log.Consistent) : log.ring.Inside log.ring.size :=
  ⟨consistent.mapped, rfl, consistent.positive, consistent.readInside, consistent.writeInside⟩

variable {s next : Shared} {rbi : RingBufImpl} {data : List UInt8} {size readlen w r : Nat}

section Whole

/-- A write whose data already lies in the cells only moves the offset. -/
theorem rbufWriteBlock_again (within : rbi.Inside size) (long : data.length < 2 ^ 63)
    (taken : writeTo size rbi.rOffset rbi.wOffset data.length = some w)
    (copied : (stretch size rbi.wOffset data.length).map rbi.bytes = data) :
    rbufWriteBlock rbi data = some ({ rbi with wOffset := w }, 0) := by
  obtain ⟨answer, moved⟩ := rbufWriteBlock_offset within data long
  obtain ⟨next, rslt, run, bounded, -⟩ := rbufWriteBlock_bounded within data long
  rw [taken] at answer moved
  rw [run] at answer
  obtain ⟨offset, rfl⟩ := Prod.mk.inj (Option.some.inj answer)
  obtain ⟨-, same, stored, kept⟩ := bounded.accepted rfl
  rw [moved] at stored kept
  simp only [Option.isSome_some, if_true] at stored kept
  have bytes : next.bytes = rbi.bytes := by
    funext cell
    by_cases member : cell ∈ stretch size rbi.wOffset data.length
    · exact List.map_inj_left.mp (stored.trans copied.symm) cell member
    · exact kept cell member
  simp only at offset
  rw [run, same, bytes, offset]

theorem rbufWriteBlock_refused (within : rbi.Inside size) (long : data.length < 2 ^ 63)
    (refused : writeTo size rbi.rOffset rbi.wOffset data.length = none) :
    rbufWriteBlock rbi data = some (rbi, -1) := by
  obtain ⟨answer, -⟩ := rbufWriteBlock_offset within data long
  obtain ⟨next, rslt, run, bounded, -⟩ := rbufWriteBlock_bounded within data long
  rw [refused, run] at answer
  obtain ⟨-, rfl⟩ := Prod.mk.inj (Option.some.inj answer)
  obtain ⟨-, rfl, -⟩ := bounded.refused (by decide)
  exact run

/-- A read delivers the bytes of its cells. -/
theorem rbufReadBlock_taken (within : rbi.Inside size) (long : readlen < 2 ^ 63)
    (taken : readTo size rbi.rOffset rbi.wOffset readlen = some r) :
    rbufReadBlock rbi readlen =
      some ({ rbi with rOffset := r }, some ((stretch size rbi.rOffset readlen).map rbi.bytes)) := by
  obtain ⟨answer, moved⟩ := rbufReadBlock_offset within readlen long
  obtain ⟨next, out, run, bounded, -⟩ := rbufReadBlock_bounded within readlen long
  rw [taken] at answer moved
  rw [run] at answer
  obtain ⟨offset, found⟩ := Prod.mk.inj (Option.some.inj answer)
  obtain ⟨bytes, rfl⟩ := Option.isSome_iff_exists.mp found
  obtain ⟨-, same, rfl⟩ := bounded.accepted bytes rfl
  simp only [moved, Option.isSome_some, if_true] at run
  simp only at offset
  rw [run, same, offset]

theorem rbufReadBlock_refused (within : rbi.Inside size) (long : readlen < 2 ^ 63)
    (refused : readTo size rbi.rOffset rbi.wOffset readlen = none) :
    rbufReadBlock rbi readlen = some (rbi, none) := by
  obtain ⟨answer, -⟩ := rbufReadBlock_offset within readlen long
  obtain ⟨next, out, run, bounded, -⟩ := rbufReadBlock_bounded within readlen long
  rw [refused, run] at answer
  obtain ⟨-, none_⟩ := Prod.mk.inj (Option.some.inj answer)
  obtain rfl := Option.not_isSome_iff_eq_none.mp (by simpa using none_)
  obtain ⟨rfl, -⟩ := bounded.refused rfl
  exact run

/-- An accepted write appends its data to the queue. -/
theorem Log.Consistent.write {log : Log} (consistent : log.Consistent) (long : data.length < 2 ^ 63)
    (open_ : ¬ (Call.write data).Fills log)
    (taken : writeTo log.ring.size log.ring.rOffset log.ring.wOffset data.length = some w) :
    ∃ ring, rbufWriteBlock log.ring data = some (ring, 0) ∧ ring.size = log.ring.size ∧
      ring.rOffset = log.ring.rOffset ∧ ring.wOffset = w ∧
      cells (rbufWriteCopies log.ring data.length) = stretch log.ring.size log.ring.wOffset data.length ∧
      Log.Consistent ⟨ring, log.accepted ++ data, log.delivered⟩ := by
  obtain ⟨answer, copies⟩ := rbufWriteBlock_offset consistent.within data long
  obtain ⟨ring, rslt, run, bounded, -⟩ := rbufWriteBlock_bounded consistent.within data long
  obtain ⟨next, step, after⟩ := rbufWriteBlock_consistent log data consistent long open_
  rw [taken, run] at answer
  obtain ⟨offset, rfl⟩ := Prod.mk.inj (Option.some.inj answer)
  obtain ⟨-, same, -⟩ := bounded.accepted rfl
  rw [taken] at copies
  simp only [callStep, run, Option.bind_eq_bind, Option.bind_some, if_true, Option.some.injEq] at step
  refine ⟨ring, run, ?_, ?_, offset, copies, step ▸ after⟩
  · rw [same]
  · rw [same]

/-- An accepted read takes the oldest bytes of the queue. -/
theorem Log.Consistent.read {log : Log} (consistent : log.Consistent) (long : readlen < 2 ^ 63)
    (taken : readTo log.ring.size log.ring.rOffset log.ring.wOffset readlen = some r) :
    ∃ out, rbufReadBlock log.ring readlen = some ({ log.ring with rOffset := r }, some out) ∧
      out = (stretch log.ring.size log.ring.rOffset readlen).map log.ring.bytes ∧
      out = (log.accepted.drop log.delivered.length).take readlen ∧
      Log.Consistent ⟨{ log.ring with rOffset := r }, log.accepted, log.delivered ++ out⟩ := by
  have run := rbufReadBlock_taken consistent.within long taken
  obtain ⟨next, step, after⟩ := rbufReadBlock_consistent log readlen consistent long
  simp only [callStep, run, Option.bind_eq_bind, Option.bind_some, Option.getD_some, Option.some.injEq] at step
  subst step
  refine ⟨_, run, rfl, ?_, after⟩
  have queue := after.queue
  simp only [List.append_assoc] at queue
  rw [queue, List.drop_left, List.take_left' (by rw [List.length_map, length_stretch])]

end Whole

section Copies

variable {α β : Type} {list : List α}

theorem map_eq_of_zip {data : List β} {f : α → β} (same : list.length = data.length)
    (copied : ∀ item ∈ list.zip data, f item.1 = item.2) : list.map f = data := by
  induction list generalizing data with
  | nil => exact (List.eq_nil_of_length_eq_zero same.symm).symm
  | cons first rest ih =>
      cases data with
      | nil => cases same
      | cons byte more =>
          have head := copied (first, byte) List.mem_cons_self
          have tail := ih (Nat.succ.inj same) fun item inside => copied item (List.mem_cons_of_mem _ inside)
          rw [List.map_cons, tail, head]

theorem segment_of_zipIdx {buf : Nat → β} {f : α → β}
    (copied : ∀ item ∈ list.zipIdx, buf item.2 = f item.1) : segment buf 0 list.length = list.map f := by
  apply List.ext_getElem
  · simp
  · intro index _ inside
    rw [List.length_map] at inside
    have item := copied (list[index], index) (List.mk_mem_zipIdx_iff_getElem?.mpr (List.getElem?_eq_getElem inside))
    simp only [RingQueue.segment, List.getElem_map, List.getElem_range, Nat.zero_add]
    exact item

end Copies

section Turns

theorem Log.Consistent.setByte {log : Log} (consistent : log.Consistent) {cell : Nat} {byte : UInt8}
    (free : ¬ InUse log.ring.size log.ring.rOffset log.ring.wOffset cell) :
    Log.Consistent { log with ring := { log.ring with bytes := Function.update log.ring.bytes cell byte } } := by
  refine ⟨consistent.mapped, consistent.positive, consistent.readInside, consistent.writeInside, ?_⟩
  rw [consistent.queue]
  refine congrArg _ (held_congr fun other used => Function.update_of_ne ?_ _ _).symm
  rintro rfl
  exact free used

/-- The writer goes on with the reader's progress. -/
theorem Writer.Sound.read {writer : Writer} (sound : writer.Sound rbi)
    (behind : Behind rbi.size rbi.wOffset rbi.rOffset r) : writer.Sound { rbi with rOffset := r } := by
  cases writer with
  | idle => trivial
  | loaded data seen => exact ⟨sound.1, sound.2.1, sound.2.2.trans behind⟩
  | copying data todo w =>
      obtain ⟨long, ⟨seen, bounded, gone, taken⟩, copies, copied⟩ := sound
      exact ⟨long, ⟨seen, bounded, gone.trans behind, taken⟩, copies, copied⟩

/-- The reader goes on with the writer's progress. -/
theorem Reader.Sound.write {reader : Reader} (sound : reader.Sound rbi)
    (ahead : Ahead rbi.size rbi.rOffset rbi.wOffset w) : reader.Sound { rbi with wOffset := w } := by
  cases reader with
  | idle => trivial
  | loaded readlen buf r => exact sound
  | copying readlen todo buf r =>
      obtain ⟨long, ⟨seen, bounded, gone, taken⟩, copies, copied⟩ := sound
      exact ⟨long, ⟨seen, bounded, gone.trans ahead, taken⟩, copies, copied⟩

/-- The cells that the reader copies from are in use. -/
theorem Reader.Sound.inUse {todo : List (Nat × Nat)} {buf : Nat → UInt8}
    (sound : (Reader.copying readlen todo buf r).Sound rbi) {cell : Nat}
    (member : cell ∈ stretch rbi.size rbi.rOffset readlen) : InUse rbi.size rbi.rOffset rbi.wOffset cell := by
  obtain ⟨-, ⟨seen, bounded, gone, taken⟩, -⟩ := sound
  exact gone.inUse bounded (readTo_inUse bounded taken member)

/-- The cells that the writer copies into are not in use. -/
theorem Writer.Sound.free {todo : List (Nat × UInt8)} (sound : (Writer.copying data todo w).Sound rbi) {cell : Nat}
    (member : cell ∈ stretch rbi.size rbi.wOffset data.length) :
    ¬ InUse rbi.size rbi.rOffset rbi.wOffset cell := by
  obtain ⟨-, ⟨seen, bounded, gone, taken⟩, -⟩ := sound
  exact fun used => writeTo_free bounded taken member (gone.inUse used)

/-- A byte in a free cell is not seen by the reader. -/
theorem Reader.Sound.setByte {reader : Reader} (sound : reader.Sound rbi) {cell : Nat} {byte : UInt8}
    (free : ¬ InUse rbi.size rbi.rOffset rbi.wOffset cell) :
    reader.Sound { rbi with bytes := Function.update rbi.bytes cell byte } := by
  cases reader with
  | idle => trivial
  | loaded readlen buf r => exact sound
  | copying readlen todo buf r =>
      have used := fun {cell} => @Reader.Sound.inUse rbi readlen r todo buf sound cell
      obtain ⟨long, seen, copies, copied⟩ := sound
      refine ⟨long, seen, copies, fun item inside => (copied item inside).imp_right fun same => ?_⟩
      have apart : item.1 ≠ cell := by
        rintro rfl
        exact free (used (List.fst_mem_of_mem_zipIdx inside))
      rw [same]
      exact (Function.update_of_ne apart _ _).symm

/-- The reader finishes one of its copies. -/
theorem Reader.Sound.copyByte {todo : List (Nat × Nat)} {buf : Nat → UInt8}
    (sound : (Reader.copying readlen todo buf r).Sound rbi) {item : Nat × Nat} (inside : item ∈ todo) :
    (Reader.copying readlen (todo.erase item) (Function.update buf item.2 (rbi.bytes item.1)) r).Sound rbi := by
  obtain ⟨long, seen, copies, copied⟩ := sound
  refine ⟨long, seen, fun other member => copies other (List.mem_of_mem_erase member), ?_⟩
  intro other member
  by_cases same : other = item
  · subst same
    exact Or.inr (Function.update_self _ _ _)
  · refine (copied other member).imp (fun old => (List.mem_erase_of_ne same).mpr old) fun old => ?_
    have apart : other.2 ≠ item.2 := by
      intro again
      have first := List.mem_zipIdx_iff_getElem?.mp member
      rw [again, List.mem_zipIdx_iff_getElem?.mp (copies item inside)] at first
      exact same (Prod.ext (Option.some.inj first).symm again)
    exact (Function.update_of_ne apart _ _).trans old

/-- The writer finishes one of its copies. -/
theorem Writer.Sound.setByte {todo : List (Nat × UInt8)} (sound : (Writer.copying data todo w).Sound rbi)
    {item : Nat × UInt8} (inside : item ∈ todo) :
    (Writer.copying data (todo.erase item) w).Sound
      { rbi with bytes := Function.update rbi.bytes item.1 item.2 } := by
  obtain ⟨long, ⟨seen, bounded, gone, taken⟩, copies, copied⟩ := sound
  refine ⟨long, ⟨seen, bounded, gone, taken⟩, fun other member => copies other (List.mem_of_mem_erase member), ?_⟩
  intro other member
  by_cases same : other = item
  · subst same
    exact Or.inr (Function.update_self _ _ _)
  · refine (copied other member).imp (fun old => (List.mem_erase_of_ne same).mpr old) fun old => ?_
    have apart : other.1 ≠ item.1 := by
      have once := writeTo_nodup bounded taken
      rw [← List.map_fst_zip (length_stretch.le : _ ≤ data.length)] at once
      exact fun again => same (List.inj_on_of_nodup_map once member (copies item inside) again)
    exact (Function.update_of_ne apart _ _).trans old

/-- A load of the write offset decides the write over the loaded read offset. -/
theorem writeLoad_cases (sound : s.Sound) (step : turnStep .writeLoad s = some next) :
    ∃ data r, s.writer = .loaded data r ∧
      (writeTo s.ring.size r s.ring.wOffset data.length = none ∧
          next = { s with writer := .idle, outcomes := s.outcomes ++ [.wrote data (-1)] } ∨
        ∃ w, writeTo s.ring.size r s.ring.wOffset data.length = some w ∧
          next = { s with
            writer := .copying data ((stretch s.ring.size s.ring.wOffset data.length).zip data) w }) := by
  obtain ⟨ring, writer, reader, outcomes⟩ := s
  cases writer with
  | idle => cases step
  | copying _ _ _ => cases step
  | loaded data r =>
      obtain ⟨long, bounded, -⟩ := sound.writer
      have within := sound.log.within
      have seen : ({ ring with rOffset := r } : RingBufImpl).Inside ring.size :=
        { within with readInside := bounded }
      refine ⟨data, r, rfl, ?_⟩
      simp only
      cases taken : writeTo ring.size r ring.wOffset data.length with
      | none =>
          left
          have run := rbufWriteBlock_refused seen long taken
          simp only [turnStep, run, Option.bind_eq_bind, Option.bind_some] at step
          exact ⟨rfl, (Option.some.inj step).symm⟩
      | some w =>
          right
          obtain ⟨answer, copies⟩ := rbufWriteBlock_offset seen data long
          obtain ⟨final, rslt, run, -⟩ := rbufWriteBlock_bounded seen data long
          rw [taken] at answer copies
          rw [run] at answer
          obtain ⟨offset, rfl⟩ := Prod.mk.inj (Option.some.inj answer)
          simp only at offset
          simp only [turnStep, run, Option.bind_eq_bind, Option.bind_some, if_true, copies, offset,
            Option.isSome_some] at step
          exact ⟨w, rfl, (Option.some.inj step).symm⟩

/-- A store of the write offset ends a write that the present offsets accept as well. -/
theorem writeStore_cases (sound : s.Sound) (step : turnStep .writeStore s = some next) :
    ∃ data w, s.writer = .copying data [] w ∧
      data.length < 2 ^ 63 ∧
      writeTo s.ring.size s.ring.rOffset s.ring.wOffset data.length = some w ∧
      (stretch s.ring.size s.ring.wOffset data.length).map s.ring.bytes = data ∧
      (¬ (Call.write data).Fills s.log → Ahead s.ring.size s.ring.rOffset s.ring.wOffset w) ∧
      next = { s with
        ring := { s.ring with wOffset := w }
        writer := .idle
        outcomes := s.outcomes ++ [.wrote data 0] } := by
  obtain ⟨ring, writer, reader, outcomes⟩ := s
  cases writer with
  | idle => cases step
  | loaded _ _ => cases step
  | copying data todo w =>
      cases todo with
      | cons _ _ => cases step
      | nil =>
          obtain ⟨long, ⟨seen, bounded, gone, taken⟩, -, copied⟩ := sound.writer
          have full := map_eq_of_zip length_stretch fun item inside =>
            (copied item inside).resolve_left List.not_mem_nil
          exact ⟨data, w, rfl, long, gone.writeTo bounded taken, full,
            gone.ahead bounded sound.log.writeInside taken, (Option.some.inj step).symm⟩

/-- A load of the write offset decides the read. -/
theorem readLoad_cases (sound : s.Sound) (step : turnStep .readLoad s = some next) :
    ∃ readlen buf, s.reader = .loaded readlen buf s.ring.rOffset ∧
      (readTo s.ring.size s.ring.rOffset s.ring.wOffset readlen = none ∧
          next = { s with reader := .idle, outcomes := s.outcomes ++ [.read readlen none] } ∨
        ∃ r, readTo s.ring.size s.ring.rOffset s.ring.wOffset readlen = some r ∧
          next = { s with
            reader := .copying readlen (stretch s.ring.size s.ring.rOffset readlen).zipIdx buf r }) := by
  obtain ⟨ring, writer, reader, outcomes⟩ := s
  cases reader with
  | idle => cases step
  | copying _ _ _ _ => cases step
  | loaded readlen buf r =>
      obtain ⟨long, same⟩ := sound.reader
      have within := sound.log.within
      obtain rfl : r = ring.rOffset := same
      refine ⟨readlen, buf, rfl, ?_⟩
      simp only [Shared.log] at within ⊢
      cases taken : readTo ring.size ring.rOffset ring.wOffset readlen with
      | none =>
          left
          have run := rbufReadBlock_refused within long taken
          simp only [turnStep, run, Option.bind_eq_bind, Option.bind_some] at step
          exact ⟨rfl, (Option.some.inj step).symm⟩
      | some r =>
          right
          obtain ⟨-, copies⟩ := rbufReadBlock_offset within readlen long
          have run := rbufReadBlock_taken within long taken
          rw [taken] at copies
          simp only [turnStep, run, Option.bind_eq_bind, Option.bind_some, if_true, copies,
            Option.isSome_some] at step
          exact ⟨r, rfl, (Option.some.inj step).symm⟩

/-- A store of the read offset ends a read that the present offsets accept as well. -/
theorem readStore_cases (sound : s.Sound) (step : turnStep .readStore s = some next) :
    ∃ readlen r out, readlen < 2 ^ 63 ∧
      readTo s.ring.size s.ring.rOffset s.ring.wOffset readlen = some r ∧
      out = (stretch s.ring.size s.ring.rOffset readlen).map s.ring.bytes ∧
      Behind s.ring.size s.ring.wOffset s.ring.rOffset r ∧
      next = { s with
        ring := { s.ring with rOffset := r }
        reader := .idle
        outcomes := s.outcomes ++ [.read readlen (some out)] } := by
  obtain ⟨ring, writer, reader, outcomes⟩ := s
  cases reader with
  | idle => cases step
  | loaded _ _ _ => cases step
  | copying readlen todo buf r =>
      cases todo with
      | cons _ _ => cases step
      | nil =>
          obtain ⟨long, ⟨seen, bounded, gone, taken⟩, -, copied⟩ := sound.reader
          have full := segment_of_zipIdx fun item inside =>
            (copied item inside).resolve_left List.not_mem_nil
          rw [length_stretch] at full
          exact ⟨readlen, r, _, long, gone.readTo bounded taken, full,
            gone.behind bounded sound.log.readInside taken, (Option.some.inj step).symm⟩

/-- Each access of each process keeps the queue and both copies sound. -/
theorem turnStep_sound (turn : Turn) (s next : Shared) (sound : s.Sound) (allowed : turn.Allowed s)
    (step : turnStep turn s = some next) : next.Sound := by
  cases turn with
  | writeCall data =>
      obtain ⟨ring, writer, reader, outcomes⟩ := s
      cases writer with
      | loaded _ _ => cases step
      | copying _ _ _ => cases step
      | idle =>
          obtain rfl := Option.some.inj step
          have inside := sound.log.readInside
          exact ⟨sound.log, ⟨allowed, inside, behind_refl inside⟩, sound.reader⟩
  | writeLoad =>
      obtain ⟨data, r, at_, ⟨refused, rfl⟩ | ⟨w, taken, rfl⟩⟩ := writeLoad_cases sound step
      · have log := sound.log
        refine ⟨?_, trivial, sound.reader⟩
        simpa [Shared.log, Outcome.accepted, Outcome.delivered] using log
      · have loaded := sound.writer
        rw [at_] at loaded
        obtain ⟨long, bounded, behind⟩ := loaded
        exact ⟨sound.log, ⟨long, ⟨r, bounded, behind, taken⟩, fun _ inside => inside, fun _ inside => .inl inside⟩,
          sound.reader⟩
  | writeByte item =>
      obtain ⟨ring, writer, reader, outcomes⟩ := s
      cases writer with
      | idle => cases step
      | loaded _ _ => cases step
      | copying data todo w =>
          simp only [turnStep, Option.ite_none_right_eq_some, Option.some.injEq, List.contains_iff_mem] at step
          obtain ⟨inside, rfl⟩ := step
          have copies := sound.writer.2.2.1 item inside
          have free := Writer.Sound.free sound.writer (List.of_mem_zip copies).1
          exact ⟨sound.log.setByte free, Writer.Sound.setByte sound.writer inside, sound.reader.setByte free⟩
  | writeStore =>
      obtain ⟨data, w, at_, long, taken, copied, ahead, rfl⟩ := writeStore_cases sound step
      have open_ : ¬ (Call.write data).Fills s.log := by
        simpa [Turn.Allowed, at_] using allowed
      obtain ⟨ring, run, -, -, -, -, after⟩ := sound.log.write long open_ taken
      obtain rfl : _ = ring := (Prod.mk.inj (Option.some.inj
        ((rbufWriteBlock_again sound.log.within long taken copied).symm.trans run))).1
      refine ⟨?_, trivial, sound.reader.write (ahead open_)⟩
      simpa [Shared.log, Outcome.accepted, Outcome.delivered] using after
  | readCall readlen buf =>
      obtain ⟨ring, writer, reader, outcomes⟩ := s
      cases reader with
      | loaded _ _ _ => cases step
      | copying _ _ _ _ => cases step
      | idle =>
          obtain rfl := Option.some.inj step
          exact ⟨sound.log, sound.writer, ⟨allowed, rfl⟩⟩
  | readLoad =>
      obtain ⟨readlen, buf, at_, ⟨refused, rfl⟩ | ⟨r, taken, rfl⟩⟩ := readLoad_cases sound step
      · have log := sound.log
        refine ⟨?_, sound.writer, trivial⟩
        simpa [Shared.log, Outcome.accepted, Outcome.delivered] using log
      · have loaded := sound.reader
        rw [at_] at loaded
        have inside := sound.log.writeInside
        exact ⟨sound.log, sound.writer, ⟨loaded.1, ⟨_, inside, ahead_refl inside, taken⟩, fun _ inside => inside,
          fun _ inside => .inl inside⟩⟩
  | readByte item =>
      obtain ⟨ring, writer, reader, outcomes⟩ := s
      cases reader with
      | idle => cases step
      | loaded _ _ _ => cases step
      | copying readlen todo buf r =>
          simp only [turnStep, Option.ite_none_right_eq_some, Option.some.injEq, List.contains_iff_mem] at step
          obtain ⟨inside, rfl⟩ := step
          exact ⟨sound.log, sound.writer, Reader.Sound.copyByte sound.reader inside⟩
  | readStore =>
      obtain ⟨readlen, r, out, long, taken, bytes, behind, rfl⟩ := readStore_cases sound step
      obtain ⟨out', run, same, -, after⟩ := sound.log.read long taken
      obtain rfl := bytes.trans same.symm
      refine ⟨?_, sound.writer.read behind, trivial⟩
      simpa [Shared.log, Outcome.accepted, Outcome.delivered] using after

theorem start_sound {addr : Nat} {size : Int} {zoneRestored objAllocated : Bool} {memory : Nat → UInt8}
    {ring : RingBufImpl} (created : rbufCreate addr size zoneRestored objAllocated memory = some ring)
    (positive : 0 < size) (long : size < 2 ^ 63) : (Shared.start ring).Sound :=
  ⟨rbufCreate_consistent created positive long, trivial, trivial⟩

theorem Shared.Sound.targets_free (sound : s.Sound) {cell : Nat} (member : cell ∈ s.writer.targets) :
    cell < s.ring.size ∧ ¬ InUse s.ring.size s.ring.rOffset s.ring.wOffset cell := by
  obtain ⟨ring, writer, reader, outcomes⟩ := s
  cases writer with
  | idle => cases member
  | loaded _ _ => cases member
  | copying data todo w =>
      obtain ⟨item, inside, rfl⟩ := List.mem_map.mp member
      have free := @Writer.Sound.free ring data w todo sound.writer item.1
      obtain ⟨-, ⟨seen, bounded, -, taken⟩, copies, -⟩ := sound.writer
      have stretched := (List.of_mem_zip (copies item inside)).1
      exact ⟨writeTo_bounded bounded sound.log.writeInside taken stretched, free stretched⟩

theorem Shared.Sound.sources_inUse (sound : s.Sound) {cell : Nat} (member : cell ∈ s.reader.sources) :
    cell < s.ring.size ∧ InUse s.ring.size s.ring.rOffset s.ring.wOffset cell := by
  obtain ⟨ring, writer, reader, outcomes⟩ := s
  cases reader with
  | idle => cases member
  | loaded _ _ _ => cases member
  | copying readlen todo buf r =>
      obtain ⟨item, inside, rfl⟩ := List.mem_map.mp member
      have copies := sound.reader.2.2.1 item inside
      have used := Reader.Sound.inUse sound.reader (List.fst_mem_of_mem_zipIdx copies)
      exact ⟨used.bounded sound.log.writeInside, used⟩

/-- A process that stands inside a call goes on, whatever the other one does. -/
theorem Shared.Sound.enabled (sound : s.Sound) (side : Bool) :
    ∃ turn : Turn, turn.ofWriter = side ∧ (turnStep turn s).isSome := by
  obtain ⟨ring, writer, reader, outcomes⟩ := s
  have within := sound.log.within
  cases side with
  | true =>
      cases writer with
      | idle => exact ⟨.writeCall [], rfl, rfl⟩
      | loaded data r =>
          have seen : ({ ring with rOffset := r } : RingBufImpl).Inside ring.size :=
            { within with readInside := sound.writer.2.1 }
          obtain ⟨next, rslt, run, -⟩ := rbufWriteBlock_bounded seen data sound.writer.1
          refine ⟨.writeLoad, rfl, ?_⟩
          simp only [turnStep, run, Option.bind_eq_bind, Option.bind_some]
          split <;> rfl
      | copying data todo w =>
          cases todo with
          | nil => exact ⟨.writeStore, rfl, rfl⟩
          | cons item rest => exact ⟨.writeByte item, rfl, by simp [turnStep]⟩
  | false =>
      cases reader with
      | idle => exact ⟨.readCall 0 (fun _ => 0), rfl, rfl⟩
      | loaded readlen buf r =>
          obtain ⟨long, same⟩ := sound.reader
          obtain rfl : r = ring.rOffset := same
          obtain ⟨next, out, run, -⟩ := rbufReadBlock_bounded within readlen long
          refine ⟨.readLoad, rfl, ?_⟩
          simp only [Shared.log] at run
          simp only [turnStep, run, Option.bind_eq_bind, Option.bind_some]
          split <;> rfl
      | copying readlen todo buf r =>
          cases todo with
          | nil => exact ⟨.readStore, rfl, rfl⟩
          | cons item rest => exact ⟨.readByte item, rfl, by simp [turnStep]⟩

/-- Whatever order the accesses of the two processes come in, the reader gets a prefix of the accepted
bytes, no cell is stored and loaded at the same time, and neither process waits for the other. -/
theorem turns_inOrder {addr : Nat} {size : Int} {zoneRestored objAllocated : Bool} {memory : Nat → UInt8}
    {ring : RingBufImpl} (created : rbufCreate addr size zoneRestored objAllocated memory = some ring)
    (positive : 0 < size) (long : size < 2 ^ 63) (turns : List Turn) (final : Shared)
    (meets : Meets turnStep Turn.Allowed turns (Shared.start ring))
    (run : exec turnStep turns (Shared.start ring) = some final) :
    final.log.delivered <+: final.log.accepted ∧
      final.writer.targets.Disjoint final.reader.sources ∧
      (∀ cell ∈ final.writer.targets ++ final.reader.sources, cell < final.ring.size) ∧
      ∀ side, ∃ turn : Turn, turn.ofWriter = side ∧ (turnStep turn final).isSome := by
  have sound := exec_keeps turnStep_sound turns _ final (start_sound created positive long) meets run
  refine ⟨⟨_, sound.log.queue.symm⟩, ?_, ?_, sound.enabled⟩
  · intro cell target source
    exact (sound.targets_free target).2 (sound.sources_inUse source).2
  · intro cell member
    obtain target | source := List.mem_append.mp member
    · exact (sound.targets_free target).1
    · exact (sound.sources_inUse source).1

/-- The reader starts after the first write, and its copy runs between the accesses of the second one. -/
def overlapping : List Turn :=
  [.writeCall [1, 2], .writeLoad, .writeByte (1, 2), .writeByte (0, 1), .writeStore,
    .writeCall [3], .readCall 2 (fun _ => 0), .writeLoad, .readLoad, .readByte (1, 1), .writeByte (2, 3),
    .readByte (0, 0), .writeStore, .readStore]

theorem turns_inOrder_overlapping : ∃ ring, rbufCreate 4096 40 true true (fun _ => 0) = some ring ∧
    ∃ final, exec turnStep overlapping (Shared.start ring) = some final ∧
      final.log.delivered <+: final.log.accepted :=
  ⟨_, rfl, _, rfl, (@turns_inOrder 4096 40 true true (fun _ => 0) _ rfl (by decide) (by decide) overlapping _
    (by decide) rfl).1⟩

end Turns

end Syslib.Ringbuf
