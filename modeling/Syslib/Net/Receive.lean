import Syslib.Net.Graceful

namespace Syslib.Net

open RingQueue

/-- A `recv` call stores some bytes, or it returns zero, or it fails with an `errno`. -/
inductive RecvResult where
  | data (bytes : List UInt8)
  | closed
  | fails (errno : Nat)
  deriving DecidableEq, Repr

/-- Linux gives this number to `EWOULDBLOCK` as well. -/
def ewouldblock : Nat := eagain

/-- The loop keeps the receive buffer, the count of its bytes, and the chunks passed to the callback. -/
structure RecvState where
  recvBuf : Nat → UInt8
  bytesRecv : Nat
  chunks : List (List UInt8)

/-- The callback gets the front of the buffer. -/
def RecvState.pass (state : RecvState) : RecvState :=
  { state with
    bytesRecv := 0
    chunks := state.chunks ++ [segment state.recvBuf 0 state.bytesRecv] }

/-- The count of a `recv` call goes into an `int`. -/
def recvCount (bytes : List UInt8) : Int := toInt bytes.length

/-- The loop ends with the `errno` that is tested; a zero leaves the `stale` one of the thread. -/
def recvRounds (recvBufLen stale : Nat) : List RecvResult → RecvState → Option (RecvState × Nat)
  | [.closed], state => some (state, stale)
  | [.fails errno], state => some (state, errno)
  | .data bytes :: rest, state =>
      -- `recv` stores between one byte and the requested number
      if bytes = [] ∨ recvBufLen - state.bytesRecv < bytes.length then none
      else
        let state := { state with recvBuf := store state.recvBuf state.bytesRecv bytes }
        if recvCount bytes ≤ 0 then if rest = [] then some (state, stale) else none
        else
          let state := { state with
            bytesRecv := addUnsignedInt state.bytesRecv (recvCount bytes).toNat }
          if state.bytesRecv ≥ recvBufLen then recvRounds recvBufLen stale rest state.pass
          else recvRounds recvBufLen stale rest state
  | _, _ => none

/-- The results are those of all the `recv` calls; the answer pairs the chunks with the decision to close. -/
def netOnRecvBytes (recvBuf : Option (Nat → UInt8)) (recvBufLen stale : Nat)
    (results : List RecvResult) : Option (List (List UInt8) × Bool) :=
  match recvBuf with
  | none => some ([], true)
  | some bytes =>
      if recvBufLen = 0 then some ([], true)
      else do
        let (state, errno) ← recvRounds recvBufLen stale results ⟨bytes, 0, []⟩
        if errno ≠ ewouldblock ∧ errno ≠ eagain then some (state.chunks, true)
        else if state.bytesRecv > 0 then some (state.pass.chunks, false)
        else some (state.chunks, false)

/-- These are the bytes that the `recv` calls returned. -/
def received (results : List RecvResult) : List UInt8 :=
  results.flatMap fun
    | .data bytes => bytes
    | _ => []

/-- The `recv` calls ended with zero or with another failure than `EAGAIN` or `EWOULDBLOCK`. -/
def Parted (results : List RecvResult) : Prop :=
  .closed ∈ results ∨ ∃ errno, .fails errno ∈ results ∧ errno ≠ eagain ∧ errno ≠ ewouldblock

/-- No count of a `recv` call exceeds the largest `int`. -/
def Short (results : List RecvResult) : Prop :=
  ∀ bytes, .data bytes ∈ results → bytes.length < 2 ^ 31

/-- The calls end for lack of data, or the buffer is empty at an end that the tested `errno` shows. -/
structure Whole (recvBufLen stale : Nat) (results : List RecvResult) : Prop where
  short : Short results
  shown : .closed ∈ results → stale ≠ eagain
  full : Parted results → (received results).length % recvBufLen = 0

/-- The bytes in the buffer that no callback has got yet. -/
def RecvState.pending (state : RecvState) : List UInt8 := segment state.recvBuf 0 state.bytesRecv

/-- The rounds keep the received bytes in order; only a count that is no `int` loses bytes. -/
structure Rounds (recvBufLen stale : Nat) (results : List RecvResult) (state final : RecvState)
    (errno : Nat) : Prop where
  kept : Short results → final.chunks.flatten ++ final.pending =
    state.chunks.flatten ++ state.pending ++ received results
  lost : ¬ Short results → (final.chunks.flatten ++ final.pending).length <
    (state.chunks.flatten ++ state.pending ++ received results).length
  below : final.bytesRecv < recvBufLen
  count : Short results →
    final.bytesRecv = (state.bytesRecv + (received results).length) % recvBufLen
  ended : Short results →
    ((.closed ∈ results ∧ errno = stale) ∨ (.closed ∉ results ∧ .fails errno ∈ results)) ∧
      ∀ other, .fails other ∈ results → other = errno

@[simp] theorem RecvState.pass_flatten (state : RecvState) :
    state.pass.chunks.flatten = state.chunks.flatten ++ state.pending := by
  simp [RecvState.pass, RecvState.pending]

@[simp] theorem RecvState.pass_pending (state : RecvState) : state.pass.pending = [] := rfl

theorem recvCount_short {bytes : List UInt8} (short : bytes.length < 2 ^ 31) :
    recvCount bytes = bytes.length := by
  unfold recvCount toInt
  rw [Int.bmod_eq_of_le (by omega) (by omega)]

theorem recvCount_long {bytes : List UInt8} (long : 2 ^ 31 ≤ bytes.length)
    (small : bytes.length < 2 ^ 32) : recvCount bytes ≤ 0 := by
  unfold recvCount toInt
  rw [Int.bmod_def]
  split_ifs <;> omega

/-- A stored chunk follows the pending bytes. -/
theorem pending_store (state : RecvState) (bytes : List UInt8) :
    segment (store state.recvBuf state.bytesRecv bytes) 0 (state.bytesRecv + bytes.length) =
      state.pending ++ bytes := by
  rw [segment_append, segment_store_disjoint _ 0 _ _ _ (by omega), Nat.zero_add, segment_store]
  rfl

/-- The last result ends the loop, and nothing was received after it. -/
theorem rounds_end {recvBufLen stale errno : Nat} {result : RecvResult} {state : RecvState}
    (room : state.bytesRecv < recvBufLen)
    (last : result = .closed ∧ errno = stale ∨ result = .fails errno) :
    Rounds recvBufLen stale [result] state state errno := by
  have silent : received [result] = [] := by
    rcases last with ⟨rfl, -⟩ | rfl <;> rfl
  have short : Short [result] := by
    intro bytes member
    rcases last with ⟨rfl, -⟩ | rfl <;> simp at member
  constructor
  · intro _
    rw [silent, List.append_nil]
  · exact fun long => absurd short long
  · exact room
  · intro _
    rw [silent, List.length_nil, Nat.add_zero, Nat.mod_eq_of_lt room]
  · intro _
    rcases last with ⟨rfl, rfl⟩ | rfl <;> simp

/-- The rounds after one chunk complete the rounds with it. -/
theorem Rounds.data {recvBufLen stale errno : Nat} {bytes : List UInt8} {rest : List RecvResult}
    {state next final : RecvState} (rounds : Rounds recvBufLen stale rest next final errno)
    (short : bytes.length < 2 ^ 31)
    (taken : next.chunks.flatten ++ next.pending = state.chunks.flatten ++ state.pending ++ bytes)
    (count : next.bytesRecv = (state.bytesRecv + bytes.length) % recvBufLen) :
    Rounds recvBufLen stale (.data bytes :: rest) state final errno := by
  have joined : received (.data bytes :: rest) = bytes ++ received rest := rfl
  have later : Short (.data bytes :: rest) ↔ Short rest := by
    constructor
    · intro all other member
      exact all other (List.mem_cons_of_mem _ member)
    · intro all other member
      rcases List.mem_cons.mp member with same | member
      · obtain rfl := RecvResult.data.inj same
        exact short
      · exact all other member
  constructor
  · intro all
    rw [rounds.kept (later.mp all), taken, joined, List.append_assoc]
  · intro long
    have lost := rounds.lost fun all => long (later.mpr all)
    rwa [taken, List.append_assoc, ← joined] at lost
  · exact rounds.below
  · intro all
    rw [rounds.count (later.mp all), count, joined, List.length_append, Nat.mod_add_mod, Nat.add_assoc]
  · intro all
    simpa using rounds.ended (later.mp all)

theorem recvRounds_rounds {recvBufLen stale errno : Nat} (fits : recvBufLen < 2 ^ 32)
    {results : List RecvResult} {state final : RecvState} (room : state.bytesRecv < recvBufLen)
    (ran : recvRounds recvBufLen stale results state = some (final, errno)) :
    Rounds recvBufLen stale results state final errno := by
  induction results generalizing state with
  | nil => cases ran
  | cons result rest ih =>
      cases result with
      | closed =>
          cases rest with
          | nil =>
              obtain ⟨rfl, rfl⟩ := Prod.mk.inj (Option.some.inj ran)
              exact rounds_end room (Or.inl ⟨rfl, rfl⟩)
          | cons other more => cases ran
      | fails code =>
          cases rest with
          | nil =>
              obtain ⟨rfl, rfl⟩ := Prod.mk.inj (Option.some.inj ran)
              exact rounds_end room (Or.inr rfl)
          | cons other more => cases ran
      | data bytes =>
          rw [recvRounds] at ran
          dsimp only at ran
          split_ifs at ran with refused long alone full
          · -- the count is no `int`, so the bytes stay uncounted
            obtain ⟨rfl, rfl⟩ := Prod.mk.inj (Option.some.inj ran)
            subst alone
            have filled : bytes ≠ [] := fun empty => refused (Or.inl empty)
            have positive := List.length_pos_iff.mpr filled
            have big : ¬ Short [.data bytes] := by
              intro short
              rw [recvCount_short (short bytes List.mem_cons_self)] at long
              omega
            have same : segment (store state.recvBuf state.bytesRecv bytes) 0 state.bytesRecv =
                state.pending := segment_store_disjoint _ 0 _ _ _ (by omega)
            refine ⟨fun short => absurd short big, ?_, room, fun short => absurd short big,
              fun short => absurd short big⟩
            intro _
            rw [RecvState.pending, same]
            simp only [received, List.flatMap_cons, List.flatMap_nil, List.append_nil, List.length_append]
            omega
          all_goals
            have short : bytes.length < 2 ^ 31 := by
              by_contra big
              exact long (recvCount_long (by omega) (by omega))
            simp only [recvCount_short short, Int.toNat_natCast] at ran full
            have sum : addUnsignedInt state.bytesRecv bytes.length = state.bytesRecv + bytes.length :=
              Nat.mod_eq_of_lt (by omega)
            simp only [sum] at ran full
          · have exact_ : state.bytesRecv + bytes.length = recvBufLen := by omega
            refine (ih (by simp only [RecvState.pass]; omega) ran).data short ?_ ?_
            · rw [RecvState.pass_flatten, RecvState.pass_pending, List.append_nil, List.append_assoc,
                ← pending_store]
              rfl
            · rw [exact_, Nat.mod_self]
              rfl
          · refine (ih (by simp only; omega) ran).data short ?_ ?_
            · rw [List.append_assoc, ← pending_store]
              rfl
            · exact (Nat.mod_eq_of_lt (by simp only; omega)).symm

/-- The answer keeps the length of a chunk alone. -/
def RecvResult.answer : RecvResult → RecvAnswer
  | .data bytes => .data (bytes.length - 1)
  | .closed => .closed
  | .fails errno => .fails errno

/-- The rounds deliver the lengths that `recvLoop` counts. -/
theorem recvRounds_lengths {recvBufLen stale errno : Nat} (fits : recvBufLen < 2 ^ 32)
    {results : List RecvResult} (short : Short results) {state final : RecvState}
    (room : state.bytesRecv < recvBufLen)
    (ran : recvRounds recvBufLen stale results state = some (final, errno)) :
    recvLoop recvBufLen stale (results.map RecvResult.answer) state.bytesRecv
        (state.chunks.map List.length) = ⟨final.chunks.map List.length, final.bytesRecv, errno⟩ := by
  induction results generalizing state with
  | nil => cases ran
  | cons result rest ih =>
      cases result with
      | closed =>
          cases rest with
          | nil =>
              obtain ⟨rfl, rfl⟩ := Prod.mk.inj (Option.some.inj ran)
              rfl
          | cons other more => cases ran
      | fails code =>
          cases rest with
          | nil =>
              obtain ⟨rfl, rfl⟩ := Prod.mk.inj (Option.some.inj ran)
              rfl
          | cons other more => cases ran
      | data bytes =>
          have small := short bytes List.mem_cons_self
          have later : Short rest := fun other member => short other (List.mem_cons_of_mem _ member)
          rw [recvRounds] at ran
          dsimp only at ran
          simp only [recvCount_short small, Int.toNat_natCast] at ran
          split_ifs at ran with refused none_ alone full
          · exact absurd (List.length_eq_zero_iff.mp (by omega)) (not_or.mp refused).1
          all_goals
            have sum : addUnsignedInt state.bytesRecv bytes.length = state.bytesRecv + bytes.length :=
              Nat.mod_eq_of_lt (by omega)
            have count : min (bytes.length - 1 + 1) (recvBufLen - state.bytesRecv) = bytes.length := by
              omega
            rw [List.map_cons, RecvResult.answer, recvLoop]
            simp only [sum, count] at ran full ⊢
          · rw [if_pos full, ← ih later (by simp only [RecvState.pass]; omega) ran]
            simp [RecvState.pass]
          · rw [if_neg full, ← ih later (by simp only; omega) ran]

/-- The chunks have the lengths that the model of lengths gives, with the same decision to close. -/
theorem netOnRecvBytes_lengths {recvBufLen : Nat} (positive : 0 < recvBufLen) (fits : recvBufLen < 2 ^ 32)
    {recvBuf : Nat → UInt8} {stale : Nat} {results : List RecvResult} (short : Short results)
    {chunks : List (List UInt8)} {closes : Bool}
    (ran : netOnRecvBytes (some recvBuf) recvBufLen stale results = some (chunks, closes)) :
    netOnRecv ⟨true, recvBufLen⟩ (results.map RecvResult.answer) stale = (chunks.map List.length, closes) := by
  simp only [netOnRecvBytes, positive.ne', if_false, ewouldblock, and_self] at ran
  obtain ⟨⟨final, errno⟩, looped, ending⟩ := Option.bind_eq_some_iff.mp ran
  have lengths := recvRounds_lengths fits short positive looped
  rw [List.map_nil] at lengths
  rw [netOnRecv, if_neg (by simp [positive.ne']), lengths]
  split_ifs at ending with failed more <;> obtain ⟨rfl, rfl⟩ := Prod.mk.inj (Option.some.inj ending)
  · simp [failed]
  · simp [failed, more, RecvState.pass]
  · simp [failed, more]

/-- The chunks are the received stream, and the decision to close shows how it ended, exactly for whole streams. -/
theorem netOnRecvBytes_stream {recvBufLen : Nat} (positive : 0 < recvBufLen) (fits : recvBufLen < 2 ^ 32)
    (recvBuf : Nat → UInt8) (stale : Nat) (results : List RecvResult) {chunks : List (List UInt8)}
    {closes : Bool}
    (ran : netOnRecvBytes (some recvBuf) recvBufLen stale results = some (chunks, closes)) :
    chunks.flatten = received results ∧ (closes = true ↔ Parted results) ↔
      Whole recvBufLen stale results := by
  simp only [netOnRecvBytes, positive.ne', if_false, ewouldblock, and_self] at ran
  obtain ⟨⟨final, errno⟩, looped, ending⟩ := Option.bind_eq_some_iff.mp ran
  have rounds := recvRounds_rounds fits positive looped
  have split : chunks = final.chunks ∧ closes = true ∧ errno ≠ eagain ∨
      chunks.flatten = final.chunks.flatten ++ final.pending ∧ closes = false ∧ errno = eagain := by
    split_ifs at ending with failed more <;> obtain ⟨rfl, rfl⟩ := Prod.mk.inj (Option.some.inj ending)
    · exact Or.inl ⟨rfl, rfl, failed⟩
    · exact Or.inr ⟨final.pass_flatten, rfl, not_not.mp failed⟩
    · have none_left : final.bytesRecv = 0 := Nat.eq_zero_of_not_pos more
      exact Or.inr ⟨by simp [RecvState.pending, none_left], rfl, not_not.mp failed⟩
  clear ending ran looped
  by_cases short : Short results
  · have kept := rounds.kept short
    have count := rounds.count short
    obtain ⟨last, only⟩ := rounds.ended short
    simp only [RecvState.pending, segment_zero, List.flatten_nil, List.nil_append, Nat.zero_add] at kept count
    rcases split with ⟨rfl, rfl, failed⟩ | ⟨whole, rfl, rfl⟩
    · have parted : Parted results := by
        rcases last with ⟨closed, -⟩ | ⟨-, fails⟩
        · exact Or.inl closed
        · exact Or.inr ⟨errno, fails, failed, failed⟩
      have shown : .closed ∈ results → stale ≠ eagain := by
        intro closed
        rcases last with ⟨-, rfl⟩ | ⟨open_, -⟩
        · exact failed
        · exact absurd closed open_
      have drained : final.chunks.flatten = received results ↔ final.bytesRecv = 0 := by
        rw [← kept]
        constructor
        · intro same
          have lengths := congrArg List.length same
          rw [List.length_append, segment_length] at lengths
          omega
        · intro zero
          rw [zero, segment_zero, List.append_nil]
      constructor
      · rintro ⟨all, -⟩
        exact ⟨short, shown, fun _ => count ▸ drained.mp all⟩
      · intro held
        exact ⟨drained.mpr (count.trans (held.full parted)), iff_of_true rfl parted⟩
    · have all : chunks.flatten = received results := whole.trans kept
      constructor
      · rintro ⟨-, decided⟩
        have stays : ¬ Parted results := fun parted => Bool.false_ne_true (decided.mpr parted)
        exact ⟨short, fun closed => absurd (Or.inl closed) stays, fun parted => absurd parted stays⟩
      · intro held
        refine ⟨all, iff_of_false Bool.false_ne_true ?_⟩
        rintro (closed | ⟨other, fails, failed, -⟩)
        · rcases last with ⟨-, same⟩ | ⟨open_, -⟩
          · exact held.shown closed same.symm
          · exact open_ closed
        · exact failed (only other fails)
  · have lost := rounds.lost short
    simp only [RecvState.pending, segment_zero, List.flatten_nil, List.nil_append] at lost
    constructor
    · rintro ⟨all, -⟩
      rcases split with ⟨rfl, -⟩ | ⟨whole, -⟩
      · rw [List.length_append, all] at lost
        omega
      · rw [RecvState.pending, all] at whole
        rw [← whole] at lost
        exact absurd lost (lt_irrefl _)
    · intro held
      exact absurd held.short short

/-- Two full buffers and a rest arrive before `EAGAIN`. -/
theorem netOnRecvBytes_stream_rest :
    [[1, 2], [3, 4], [5]].flatten = received [.data [1, 2], .data [3], .data [4], .data [5], .fails eagain] ∧
      (false = true ↔ Parted [.data [1, 2], .data [3], .data [4], .data [5], .fails eagain]) ↔
        Whole 2 0 [.data [1, 2], .data [3], .data [4], .data [5], .fails eagain] :=
  netOnRecvBytes_stream (by decide) (by decide) (fun _ => 0) 0 _ rfl

/-- The peer closes after one byte: an old `errno` drops the byte, or it hides the close. -/
theorem netOnRecvBytes_dropped :
    netOnRecvBytes (some fun _ => 0) 16 0 [.data [7], .closed] = some ([], true) ∧
      received [.data [7], .closed] = [7] ∧
      netOnRecvBytes (some fun _ => 0) 16 eagain [.data [7], .closed] = some ([[7]], false) ∧
      Parted [.data [7], .closed] :=
  ⟨rfl, rfl, rfl, Or.inl (by simp)⟩

end Syslib.Net
