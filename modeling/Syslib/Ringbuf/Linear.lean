import Syslib.Ringbuf.Interleaving

namespace Syslib.Ringbuf

open RingQueue Runs

/-- A ring under whole calls, one after another. -/
structure Serial where
  ring : RingBufImpl
  outcomes : List Outcome

def Serial.log (serial : Serial) : Log :=
  ⟨serial.ring, serial.outcomes.flatMap Outcome.accepted, serial.outcomes.flatMap Outcome.delivered⟩

def wholeStep : Call → Serial → Option Serial
  | .write data, serial => do
      let (ring, rslt) ← rbufWriteBlock serial.ring data
      some ⟨ring, serial.outcomes ++ [.wrote data rslt]⟩
  | .read readlen, serial => do
      let (ring, out) ← rbufReadBlock serial.ring readlen
      some ⟨ring, serial.outcomes ++ [.read readlen out]⟩

/-- The calls of one process that returned, in the order of the returns. -/
def ofSide (writer : Bool) (outcomes : List Outcome) : List Outcome :=
  outcomes.filter (·.ofWriter = writer)

@[simp] theorem ofSide_append (writer : Bool) (first second : List Outcome) :
    ofSide writer (first ++ second) = ofSide writer first ++ ofSide writer second :=
  List.filter_append ..

@[simp] theorem ofSide_wrote (writer : Bool) (data : List UInt8) (rslt : Int) :
    ofSide writer [.wrote data rslt] = if writer then [.wrote data rslt] else [] := by
  cases writer <;> rfl

@[simp] theorem ofSide_read (writer : Bool) (readlen : Nat) (out : Option (List UInt8)) :
    ofSide writer [.read readlen out] = if writer then [] else [.read readlen out] := by
  cases writer <;> rfl

/-- A write that loaded a read offset without room for its data fails later, so it may count from its
first access on. -/
def Writer.pending (ring : RingBufImpl) : Writer → List Outcome
  | .loaded data r => if writeTo ring.size r ring.wOffset data.length = none then [.wrote data (-1)] else []
  | _ => []

/-- The whole calls gave each process the results of its turns, and they left the same queue. -/
structure Serial.Matches (serial : Serial) (s : Shared) : Prop where
  consistent : serial.log.Consistent
  size : serial.ring.size = s.ring.size
  rOffset : serial.ring.rOffset = s.ring.rOffset
  wOffset : serial.ring.wOffset = s.ring.wOffset
  reads : ofSide false serial.outcomes = ofSide false s.outcomes
  writes : ofSide true serial.outcomes = ofSide true s.outcomes ++ s.writer.pending s.ring

theorem accepted_ofSide (outcomes : List Outcome) :
    outcomes.flatMap Outcome.accepted = (ofSide true outcomes).flatMap Outcome.accepted := by
  induction outcomes with
  | nil => rfl
  | cons first rest ih =>
      cases first with
      | wrote data rslt => simp [ofSide, Outcome.ofWriter, ih]
      | read readlen out => simp [ofSide, Outcome.ofWriter, Outcome.accepted, ih]

theorem delivered_ofSide (outcomes : List Outcome) :
    outcomes.flatMap Outcome.delivered = (ofSide false outcomes).flatMap Outcome.delivered := by
  induction outcomes with
  | nil => rfl
  | cons first rest ih =>
      cases first with
      | wrote data rslt => simp [ofSide, Outcome.ofWriter, Outcome.delivered, ih]
      | read readlen out => simp [ofSide, Outcome.ofWriter, ih]

variable {s next : Shared} {serial : Serial}

theorem Writer.pending_accepted (ring : RingBufImpl) (writer : Writer) :
    (writer.pending ring).flatMap Outcome.accepted = [] := by
  cases writer with
  | idle => rfl
  | copying _ _ _ => rfl
  | loaded data r =>
      simp only [Writer.pending]
      split_ifs <;> simp [Outcome.accepted]

theorem Serial.Matches.accepted (agrees : serial.Matches s) : serial.log.accepted = s.log.accepted := by
  simp only [Serial.log, Shared.log]
  rw [accepted_ofSide, agrees.writes, List.flatMap_append, Writer.pending_accepted, List.append_nil,
    ← accepted_ofSide]

theorem Serial.Matches.delivered (agrees : serial.Matches s) : serial.log.delivered = s.log.delivered := by
  simp only [Serial.log, Shared.log]
  rw [delivered_ofSide, agrees.reads, ← delivered_ofSide]

theorem start_matches {ring : RingBufImpl} (sound : (Shared.start ring).Sound) :
    Serial.Matches ⟨ring, []⟩ (Shared.start ring) :=
  ⟨sound.log, rfl, rfl, rfl, rfl, rfl⟩

/-- The matching ring refuses a write with the same offsets. -/
theorem Serial.Matches.refuseWrite (agrees : serial.Matches s) {data : List UInt8} (long : data.length < 2 ^ 63)
    (refused : writeTo s.ring.size s.ring.rOffset s.ring.wOffset data.length = none) :
    wholeStep (.write data) serial = some ⟨serial.ring, serial.outcomes ++ [.wrote data (-1)]⟩ := by
  have run := @rbufWriteBlock_refused serial.ring data _ agrees.consistent.within long (by
    rw [← refused, ← agrees.rOffset, ← agrees.wOffset, ← agrees.size]; rfl)
  simp [wholeStep, run]

theorem Serial.Matches.refuseRead (agrees : serial.Matches s) {readlen : Nat} (long : readlen < 2 ^ 63)
    (refused : readTo s.ring.size s.ring.rOffset s.ring.wOffset readlen = none) :
    wholeStep (.read readlen) serial = some ⟨serial.ring, serial.outcomes ++ [.read readlen none]⟩ := by
  have run := @rbufReadBlock_refused serial.ring _ readlen agrees.consistent.within long (by
    rw [← refused, ← agrees.rOffset, ← agrees.wOffset, ← agrees.size]; rfl)
  simp [wholeStep, run]

/-- A failing write counts at its first access; a write that stores its offset and a read count at their last one. -/
theorem turnStep_linear (turn : Turn) (s next : Shared) (serial : Serial) (both : s.Sound ∧ serial.Matches s)
    (allowed : turn.Allowed s) (step : turnStep turn s = some next) :
    ∃ point : List Call, point.length ≤ 1 ∧
      ∃ after, exec wholeStep point serial = some after ∧ next.Sound ∧ after.Matches next := by
  obtain ⟨sound, agrees⟩ := both
  have kept := turnStep_sound turn s next sound allowed step
  cases turn with
  | writeCall data =>
      obtain ⟨ring, writer, reader, outcomes⟩ := s
      cases writer with
      | loaded _ _ => cases step
      | copying _ _ _ => cases step
      | idle =>
          obtain rfl := Option.some.inj step
          have writes := agrees.writes
          simp only [Writer.pending, List.append_nil] at writes
          cases taken : writeTo ring.size ring.rOffset ring.wOffset data.length with
          | none =>
              refine ⟨[.write data], le_rfl, ⟨serial.ring, serial.outcomes ++ [.wrote data (-1)]⟩, ?_, kept, ?_⟩
              · rw [exec_cons, agrees.refuseWrite allowed taken]
                rfl
              · have consistent := agrees.consistent
                refine ⟨?_, agrees.size, agrees.rOffset, agrees.wOffset, ?_, ?_⟩
                · simpa [Serial.log, Outcome.accepted, Outcome.delivered] using consistent
                · simpa using agrees.reads
                · simp [Writer.pending, taken, writes]
          | some w =>
              refine ⟨[], Nat.zero_le _, serial, rfl, kept, agrees.consistent, agrees.size, agrees.rOffset,
                agrees.wOffset, agrees.reads, ?_⟩
              simpa [Writer.pending, taken] using writes
  | writeLoad =>
      obtain ⟨data, r, at_, ⟨refused, rfl⟩ | ⟨w, taken, rfl⟩⟩ := writeLoad_cases sound step
      · have writes := agrees.writes
        rw [at_] at writes
        refine ⟨[], Nat.zero_le _, serial, rfl, kept, agrees.consistent, agrees.size, agrees.rOffset,
          agrees.wOffset, ?_, ?_⟩
        · simpa using agrees.reads
        · rw [writes]
          simp [Writer.pending, refused]
      · have writes := agrees.writes
        rw [at_] at writes
        refine ⟨[], Nat.zero_le _, serial, rfl, kept, agrees.consistent, agrees.size, agrees.rOffset,
          agrees.wOffset, agrees.reads, ?_⟩
        simpa [Writer.pending, taken] using writes
  | writeByte item =>
      obtain ⟨ring, writer, reader, outcomes⟩ := s
      cases writer with
      | idle => cases step
      | loaded _ _ => cases step
      | copying data todo w =>
          simp only [turnStep, Option.ite_none_right_eq_some, Option.some.injEq, List.contains_iff_mem] at step
          obtain ⟨-, rfl⟩ := step
          exact ⟨[], Nat.zero_le _, serial, rfl, kept, agrees.consistent, agrees.size, agrees.rOffset,
            agrees.wOffset, agrees.reads, agrees.writes⟩
  | writeStore =>
      obtain ⟨data, w, at_, long, taken, copied, ahead, rfl⟩ := writeStore_cases sound step
      have open_ : ¬ (Call.write data).Fills serial.log := by
        rw [Turn.Allowed, at_] at allowed
        simp only [Call.Fills, Serial.log, agrees.rOffset, agrees.wOffset]
        exact allowed
      obtain ⟨ring, run, size, rOffset, wOffset, -, after⟩ := agrees.consistent.write long open_ (w := w) (by
        rw [← taken, ← agrees.rOffset, ← agrees.wOffset, ← agrees.size]; rfl)
      have writes := agrees.writes
      rw [at_] at writes
      refine ⟨[.write data], le_rfl, ⟨ring, serial.outcomes ++ [.wrote data 0]⟩, ?_, kept, ?_, size.trans agrees.size,
        rOffset.trans agrees.rOffset, wOffset, ?_, ?_⟩
      · simp only [Serial.log] at run
        simp [exec_cons, wholeStep, run]
      · simpa [Serial.log, Outcome.accepted, Outcome.delivered] using after
      · simpa using agrees.reads
      · simpa [Writer.pending] using writes
  | readCall readlen buf =>
      obtain ⟨ring, writer, reader, outcomes⟩ := s
      cases reader with
      | loaded _ _ _ => cases step
      | copying _ _ _ _ => cases step
      | idle =>
          obtain rfl := Option.some.inj step
          exact ⟨[], Nat.zero_le _, serial, rfl, kept, agrees.consistent, agrees.size, agrees.rOffset,
            agrees.wOffset, agrees.reads, agrees.writes⟩
  | readLoad =>
      obtain ⟨readlen, buf, at_, ⟨refused, rfl⟩ | ⟨r, taken, rfl⟩⟩ := readLoad_cases sound step
      · have long : readlen < 2 ^ 63 := by
          have loaded := sound.reader
          rw [at_] at loaded
          exact loaded.1
        have consistent := agrees.consistent
        refine ⟨[.read readlen], le_rfl, ⟨serial.ring, serial.outcomes ++ [.read readlen none]⟩, ?_, kept, ?_,
          agrees.size, agrees.rOffset, agrees.wOffset, ?_, ?_⟩
        · rw [exec_cons, agrees.refuseRead long refused]
          rfl
        · simpa [Serial.log, Outcome.accepted, Outcome.delivered] using consistent
        · simpa using agrees.reads
        · simpa using agrees.writes
      · exact ⟨[], Nat.zero_le _, serial, rfl, kept, agrees.consistent, agrees.size, agrees.rOffset,
          agrees.wOffset, agrees.reads, agrees.writes⟩
  | readByte item =>
      obtain ⟨ring, writer, reader, outcomes⟩ := s
      cases reader with
      | idle => cases step
      | loaded _ _ _ => cases step
      | copying readlen todo buf r =>
          simp only [turnStep, Option.ite_none_right_eq_some, Option.some.injEq, List.contains_iff_mem] at step
          obtain ⟨-, rfl⟩ := step
          exact ⟨[], Nat.zero_le _, serial, rfl, kept, agrees.consistent, agrees.size, agrees.rOffset,
            agrees.wOffset, agrees.reads, agrees.writes⟩
  | readStore =>
      obtain ⟨readlen, r, out, long, taken, bytes, -, rfl⟩ := readStore_cases sound step
      obtain ⟨first, -, same, oldest, -⟩ := sound.log.read long taken
      obtain ⟨again, run, -, front, after⟩ := agrees.consistent.read long (r := r) (by
        rw [← taken, ← agrees.rOffset, ← agrees.wOffset, ← agrees.size]; rfl)
      -- both queues have the same oldest bytes, wherever they lie
      have equal : again = out := by
        rw [front, agrees.accepted, agrees.delivered, ← oldest, same, bytes]
        rfl
      subst equal
      refine ⟨[.read readlen], le_rfl, ⟨{ serial.ring with rOffset := r }, serial.outcomes ++ [.read readlen (some again)]⟩,
        ?_, kept, ?_, agrees.size, rfl, agrees.wOffset, ?_, ?_⟩
      · simp only [Serial.log] at run
        simp [exec_cons, wholeStep, run]
      · simpa [Serial.log, Outcome.accepted, Outcome.delivered] using after
      · simpa using agrees.reads
      · -- a loaded write keeps its fate, since its own process owns the write offset
        simpa [Writer.pending] using agrees.writes

/-- Each interleaving acts as one order of whole calls. At every moment this order has the calls that
returned, with their results, and of the running ones at most a write that cannot succeed any more. -/
theorem turns_linearize {addr : Nat} {size : Int} {zoneRestored objAllocated : Bool} {memory : Nat → UInt8}
    {ring : RingBufImpl} (created : rbufCreate addr size zoneRestored objAllocated memory = some ring)
    (positive : 0 < size) (long : size < 2 ^ 63) (turns : List Turn) (final : Shared)
    (meets : Meets turnStep Turn.Allowed turns (Shared.start ring))
    (run : exec turnStep turns (Shared.start ring) = some final) :
    ∃ points : List (List Call), points.length = turns.length ∧ (∀ point ∈ points, point.length ≤ 1) ∧
      ∀ count mid, exec turnStep (turns.take count) (Shared.start ring) = some mid →
        ∃ serial, exec wholeStep (points.take count).flatten ⟨ring, []⟩ = some serial ∧ serial.Matches mid := by
  have start := start_sound created positive long
  obtain ⟨points, same, short, prefixes⟩ :=
    exec_simulates turnStep_linear turns (Shared.start ring) final ⟨ring, []⟩ ⟨start, start_matches start⟩ meets run
  refine ⟨points, same, short, fun count mid reached => ?_⟩
  obtain ⟨serial, whole, -, agrees⟩ := prefixes count mid reached
  exact ⟨serial, whole, agrees⟩

theorem turns_linearize_overlapping : ∃ ring, rbufCreate 4096 40 true true (fun _ => 0) = some ring ∧
    ∃ points : List (List Call), points.length = 14 ∧
      ∃ serial, exec wholeStep points.flatten ⟨ring, []⟩ = some serial ∧
        ofSide false serial.outcomes = [.read 2 (some [1, 2])] := by
  refine ⟨_, rfl, ?_⟩
  obtain ⟨points, same, -, prefixes⟩ := @turns_linearize 4096 40 true true (fun _ => 0) _ rfl (by decide) (by decide)
    overlapping _ (by decide) rfl
  obtain ⟨serial, whole, agrees⟩ := prefixes 14 _ rfl
  have all : points.take 14 = points := List.take_of_length_le same.le
  rw [all] at whole
  exact ⟨points, same, serial, whole, agrees.reads⟩

end Syslib.Ringbuf
