import Syslib.Net.Receive

namespace Syslib.Net

open RingQueue Runs

/-- A connection has a session at each end. -/
inductive Peer where
  | connector
  | acceptor
  deriving DecidableEq, Repr

def Peer.other : Peer → Peer
  | .connector => .acceptor
  | .acceptor => .connector

/-- The session adds the number of bytes that its `recv` calls returned and the chunks that `func_recv` got. -/
structure Endpoint where
  log : SendLog
  taken : Nat
  chunks : List (List UInt8)
  closed : Bool

abbrev Connection := Peer → Endpoint

/-- The network carries what `send` has accepted and `recv` has not returned. -/
def Connection.inFlight (conn : Connection) (peer : Peer) : List UInt8 :=
  (conn peer.other).log.passed.drop (conn peer).taken

/-- The application or the loop sends at one end, or the loop reports one end readable. -/
inductive ConnEvent where
  | send (peer : Peer) (call : SendCall)
  | recv (peer : Peer) (recvBuf : Nat → UInt8) (stale : Nat) (results : List RecvResult)

/-- After `_net_close` the session gets no more events. -/
def connStep (recvBufLen : Peer → Nat) (event : ConnEvent) (conn : Connection) : Option Connection :=
  match event with
  | .send peer call =>
      if (conn peer).closed then some conn
      else do
        let log ← sendStep call (conn peer).log
        some (Function.update conn peer { conn peer with log })
  | .recv peer recvBuf stale results =>
      if (conn peer).closed then some conn
      else do
        let (chunks, closes) ← netOnRecvBytes (some recvBuf) (recvBufLen peer) stale results
        some (Function.update conn peer { conn peer with
          taken := (conn peer).taken + (received results).length
          chunks := (conn peer).chunks ++ chunks
          closed := closes })

/-- The `recv` calls return the bytes in flight in their order. -/
def ConnEvent.Allowed (recvBufLen : Peer → Nat) (event : ConnEvent) (conn : Connection) : Prop :=
  match event with
  | .send peer call => (conn peer).closed = false → call.Allowed (conn peer).log
  | .recv peer recvBuf stale results => (conn peer).closed = false →
      (netOnRecvBytes (some recvBuf) (recvBufLen peer) stale results).isSome ∧
        received results <+: conn.inFlight peer

instance ConnEvent.decidableAllowed (recvBufLen : Peer → Nat) (event : ConnEvent) (conn : Connection) :
    Decidable (event.Allowed recvBufLen conn) := by
  cases event <;> unfold ConnEvent.Allowed <;> infer_instance

def freshEndpoint (size : Nat) (bytes : Nat → UInt8) : Endpoint :=
  ⟨⟨freshSession size bytes, [], []⟩, 0, [], false⟩

def freshConnection (sendBufLen : Peer → Nat) (bytes : Peer → Nat → UInt8) : Connection := fun peer =>
  freshEndpoint (sendBufLen peer) (bytes peer)

/-- Each `recv` call gets at most the size of the buffer. -/
theorem recvRounds_short {recvBufLen stale errno : Nat} (fits : recvBufLen < 2 ^ 31)
    {results : List RecvResult} {state final : RecvState}
    (ran : recvRounds recvBufLen stale results state = some (final, errno)) : Short results := by
  induction results generalizing state with
  | nil => cases ran
  | cons result rest ih =>
      intro bytes member
      rcases List.mem_cons.mp member with rfl | later
      · rw [recvRounds] at ran
        dsimp only at ran
        split_ifs at ran with refused <;> omega
      · cases result with
        | closed => cases rest <;> [cases later; cases ran]
        | fails errno => cases rest <;> [cases later; cases ran]
        | data first =>
            rw [recvRounds] at ran
            dsimp only at ran
            split_ifs at ran with refused long alone full
            · rw [alone] at later
              cases later
            · exact ih ran bytes later
            · exact ih ran bytes later

/-- A chunk is nonempty and fits into the buffer. -/
def Sized (recvBufLen : Nat) (chunk : List UInt8) : Prop := 0 < chunk.length ∧ chunk.length ≤ recvBufLen

instance (recvBufLen : Nat) (chunk : List UInt8) : Decidable (Sized recvBufLen chunk) :=
  inferInstanceAs (Decidable (_ ∧ _))

theorem recvRounds_sized {recvBufLen stale errno : Nat} (positive : 0 < recvBufLen) (fits : recvBufLen < 2 ^ 31)
    {results : List RecvResult} {state final : RecvState} (room : state.bytesRecv < recvBufLen)
    (sized : ∀ chunk ∈ state.chunks, Sized recvBufLen chunk)
    (ran : recvRounds recvBufLen stale results state = some (final, errno)) :
    ∀ chunk ∈ final.chunks, Sized recvBufLen chunk := by
  induction results generalizing state with
  | nil => cases ran
  | cons result rest ih =>
      cases result with
      | closed =>
          cases rest with
          | nil => exact (Prod.mk.inj (Option.some.inj ran)).1 ▸ sized
          | cons other more => cases ran
      | fails errno =>
          cases rest with
          | nil => exact (Prod.mk.inj (Option.some.inj ran)).1 ▸ sized
          | cons other more => cases ran
      | data bytes =>
          have small := recvRounds_short fits ran bytes List.mem_cons_self
          rw [recvRounds] at ran
          dsimp only at ran
          simp only [recvCount_short small, Int.toNat_natCast] at ran
          split_ifs at ran with refused none_ alone full
          · exact (Prod.mk.inj (Option.some.inj ran)).1 ▸ sized
          all_goals
            have sum : addUnsignedInt state.bytesRecv bytes.length = state.bytesRecv + bytes.length :=
              Nat.mod_eq_of_lt (by omega)
            simp only [sum] at ran full
          · refine ih (by simpa [RecvState.pass] using positive) ?_ ran
            intro chunk member
            rcases List.mem_append.mp member with old | new
            · exact sized chunk old
            · rw [List.mem_singleton.mp new, Sized, segment_length]
              simp only
              omega
          · refine ih ?_ ?_ ran
            · simp only
              omega
            · exact sized

/-- The callbacks get the received bytes in order, and all of them while the session stays open. -/
theorem netOnRecvBytes_delivers {recvBufLen : Nat} (positive : 0 < recvBufLen) (fits : recvBufLen < 2 ^ 31)
    {recvBuf : Nat → UInt8} {stale : Nat} {results : List RecvResult} {chunks : List (List UInt8)}
    {closes : Bool} (ran : netOnRecvBytes (some recvBuf) recvBufLen stale results = some (chunks, closes)) :
    chunks.flatten <+: received results ∧ (closes = false → chunks.flatten = received results) ∧
      ∀ chunk ∈ chunks, Sized recvBufLen chunk := by
  simp only [netOnRecvBytes, positive.ne', if_false, ewouldblock, and_self] at ran
  obtain ⟨⟨final, errno⟩, looped, ending⟩ := Option.bind_eq_some_iff.mp ran
  have rounds := recvRounds_rounds (by omega) positive looped
  have kept := rounds.kept (recvRounds_short fits looped)
  have sized := recvRounds_sized positive fits positive (by simp) looped
  simp only [RecvState.pending, segment_zero, List.flatten_nil, List.nil_append] at kept
  split_ifs at ending with failed more <;> obtain ⟨rfl, rfl⟩ := Prod.mk.inj (Option.some.inj ending)
  · exact ⟨⟨_, kept⟩, by simp, sized⟩
  · have whole : final.pass.chunks.flatten = received results := by
      rw [RecvState.pass_flatten, RecvState.pending, kept]
    refine ⟨whole ▸ List.prefix_refl _, fun _ => whole, fun chunk member => ?_⟩
    rcases List.mem_append.mp member with old | new
    · exact sized chunk old
    · rw [List.mem_singleton.mp new, Sized, segment_length]
      exact ⟨more, rounds.below.le⟩
  · have none_left : final.bytesRecv = 0 := Nat.eq_zero_of_not_pos more
    rw [none_left, segment_zero, List.append_nil] at kept
    exact ⟨kept ▸ List.prefix_refl _, fun _ => kept, sized⟩

/-- What one direction of the connection carries. -/
structure Carries (recvBufLen : Nat) (log : SendLog) (reader : Endpoint) : Prop where
  consistent : log.Consistent
  inside : reader.taken ≤ log.passed.length
  delivered : reader.chunks.flatten <+: log.passed.take reader.taken
  whole : reader.closed = false → reader.chunks.flatten = log.passed.take reader.taken
  sized : ∀ chunk ∈ reader.chunks, Sized recvBufLen chunk

theorem SendLog.drained_passed {log next : SendLog} {accepted : List UInt8} {result : Drain × TryEnd}
    (drained : log.drained accepted result = some next) : next.passed = log.passed ++ result.1.passed := by
  obtain ⟨drain, ending⟩ := result
  cases ending with
  | keeps => exact (congrArg SendLog.passed (Option.some.inj drained)).symm
  | closes rslt => cases drained

/-- A send never takes back a byte. -/
theorem sendStep_grows {call : SendCall} {log next : SendLog} (step : sendStep call log = some next) :
    log.passed <+: next.passed := by
  cases call with
  | netOnSend answers => exact ⟨_, (SendLog.drained_passed step).symm⟩
  | netSend data answers =>
      obtain ⟨answer, -, ending⟩ := Option.bind_eq_some_iff.mp step
      cases answer with
      | error sei => exact Option.some.inj ending ▸ List.prefix_refl _
      | ok result => exact ⟨_, (SendLog.drained_passed ending).symm⟩

theorem Carries.grow {recvBufLen : Nat} {log next : SendLog} {reader : Endpoint}
    (carries : Carries recvBufLen log reader) (grows : log.passed <+: next.passed) (consistent : next.Consistent) :
    Carries recvBufLen next reader := by
  obtain ⟨more, joined⟩ := grows
  have inside := carries.inside
  have same : next.passed.take reader.taken = log.passed.take reader.taken := by
    rw [← joined, List.take_append_of_le_length inside]
  refine ⟨consistent, ?_, same ▸ carries.delivered, same ▸ carries.whole, carries.sized⟩
  rw [← joined, List.length_append]
  omega

/-- A reception takes the bytes that come next. -/
theorem Carries.take {recvBufLen : Nat} (positive : 0 < recvBufLen) (fits : recvBufLen < 2 ^ 31) {log : SendLog}
    {reader : Endpoint} (carries : Carries recvBufLen log reader) (open_ : reader.closed = false)
    {recvBuf : Nat → UInt8} {stale : Nat} {results : List RecvResult} {chunks : List (List UInt8)} {closes : Bool}
    (ran : netOnRecvBytes (some recvBuf) recvBufLen stale results = some (chunks, closes))
    (next : received results <+: log.passed.drop reader.taken) :
    Carries recvBufLen log { reader with
      taken := reader.taken + (received results).length, chunks := reader.chunks ++ chunks, closed := closes } := by
  obtain ⟨front, all, sized⟩ := netOnRecvBytes_delivers positive fits ran
  have inside := next.length_le
  have bound := carries.inside
  have taken : log.passed.take (reader.taken + (received results).length) =
      reader.chunks.flatten ++ received results := by
    rw [List.take_add, carries.whole open_, ← List.prefix_iff_eq_take.mp next]
  rw [List.length_drop] at inside
  refine ⟨carries.consistent, by simp only; omega, ?_, fun stays => ?_, fun chunk member => ?_⟩
  · simp only [List.flatten_append, taken]
    exact (List.prefix_append_right_inj _).mpr front
  · simp only [List.flatten_append, taken, all stays]
  · exact (List.mem_append.mp member).elim (carries.sized chunk) (sized chunk)

variable {recvBufLen : Peer → Nat} {conn : Connection}

/-- Both directions are carried. -/
def Connected (recvBufLen : Peer → Nat) (conn : Connection) : Prop :=
  ∀ peer, Carries (recvBufLen peer) (conn peer.other).log (conn peer)

theorem Peer.other_ne (peer : Peer) : peer.other ≠ peer := by
  cases peer <;> decide

@[simp] theorem Peer.other_other (peer : Peer) : peer.other.other = peer := by
  cases peer <;> rfl

theorem Peer.eq_other {peer second : Peer} (different : second ≠ peer) : second = peer.other := by
  cases peer <;> cases second <;> first | rfl | exact absurd rfl different

theorem connStep_connected (positive : ∀ peer, 0 < recvBufLen peer) (fits : ∀ peer, recvBufLen peer < 2 ^ 31)
    (event : ConnEvent) (conn : Connection) (connected : Connected recvBufLen conn)
    (allowed : event.Allowed recvBufLen conn) :
    ∃ next, connStep recvBufLen event conn = some next ∧ Connected recvBufLen next := by
  cases event with
  | send peer call =>
      by_cases closed : (conn peer).closed = true
      · exact ⟨conn, if_pos closed, connected⟩
      · have outgoing := connected peer.other
        rw [Peer.other_other] at outgoing
        obtain ⟨log, step, consistent⟩ := sendStep_consistent call (conn peer).log outgoing.consistent
          (allowed (by simpa using closed))
        refine ⟨_, by rw [connStep, if_neg closed, step]; rfl, fun reader => ?_⟩
        by_cases same : reader = peer
        · subst same
          have incoming := connected reader
          rw [Function.update_self, Function.update_of_ne reader.other_ne]
          exact ⟨incoming.consistent, incoming.inside, incoming.delivered, incoming.whole, incoming.sized⟩
        · rw [Peer.eq_other same, Peer.other_other, Function.update_self, Function.update_of_ne peer.other_ne]
          exact outgoing.grow (sendStep_grows step) consistent
  | recv peer recvBuf stale results =>
      by_cases closed : (conn peer).closed = true
      · exact ⟨conn, if_pos closed, connected⟩
      · have open_ : (conn peer).closed = false := by simpa using closed
        obtain ⟨answered, flown⟩ := allowed open_
        obtain ⟨⟨chunks, closes⟩, ran⟩ := Option.isSome_iff_exists.mp answered
        refine ⟨_, by rw [connStep, if_neg closed, ran]; rfl, fun reader => ?_⟩
        by_cases same : reader = peer
        · subst same
          rw [Function.update_self, Function.update_of_ne reader.other_ne]
          exact (connected reader).take (positive reader) (fits reader) open_ ran flown
        · have outgoing := connected reader
          rw [Peer.eq_other same, Peer.other_other] at outgoing ⊢
          rw [Function.update_self, Function.update_of_ne peer.other_ne]
          exact outgoing

/-- One generous answer passes the stretch from the start. -/
theorem sendFromStart_all {sei : SesImpl} {bytes : Nat → UInt8} (stored : sei.sendBuf = some bytes) {more : Nat}
    (generous : sei.wOffset - sei.rOffset ≤ more + 1) (rest : List SendAnswer) (passed : List UInt8) :
    (sendFromStart (.accepts more :: rest) sei passed).passed =
      passed ++ segment bytes sei.rOffset (sei.wOffset - sei.rOffset) := by
  by_cases done : sei.wOffset - sei.rOffset = 0
  · simp [sendFromStart, done]
  · have count : min (more + 1) (sei.wOffset - sei.rOffset) = sei.wOffset - sei.rOffset := by omega
    simp [sendFromStart, done, sendCall, count, SesImpl.front, stored]

theorem sendToEnd_done {sei : SesImpl} (atEnd : sei.rOffset = sei.sendBufLen) (answers : List SendAnswer)
    (passed : List UInt8) : sendToEnd answers sei passed = ⟨sei, passed, answers, none⟩ := by
  have none_left : toInt ((sei.sendBufLen : Int) - sei.rOffset) = 0 := by
    rw [atEnd, Int.sub_self]
    rfl
  rw [sendToEnd.eq_def]
  dsimp only
  rw [if_pos none_left.le]

/-- Two generous answers empty the ring. -/
theorem sendAll_empties {sei : SesImpl} {queue : List UInt8} (holds : sei.Holds queue) :
    (sendAll [.accepts sei.sendBufLen, .accepts sei.sendBufLen] sei).passed = queue := by
  obtain ⟨short, inside, writeInside, bytes, stored, content⟩ := holds
  rw [content]
  by_cases order : sei.rOffset ≤ sei.wOffset
  · rw [held_unwrapped bytes order, sendAll, if_pos order, sendFromStart_all stored (by omega)]
    rfl
  · rw [held_wrapped bytes (Nat.lt_of_not_le order), sendAll, if_neg order]
    by_cases done : sei.rOffset = sei.sendBufLen
    · rw [sendToEnd_done done]
      dsimp only
      rw [sendFromStart_all (by exact stored) (by simp only; omega), done]
      simp
    · have called : sendCall sei (sei.sendBufLen - sei.rOffset) (.accepts sei.sendBufLen) =
          .ok (sei.sendBufLen - sei.rOffset) := by
        have count : min (sei.sendBufLen + 1) (sei.sendBufLen - sei.rOffset) = sei.sendBufLen - sei.rOffset := by
          omega
        simp [sendCall, stored, count]
      rw [sendToEnd_ok short inside (by omega) called, sendToEnd_done (by simp only; omega)]
      dsimp only
      rw [sendFromStart_all (by exact stored) (by simp only; omega)]
      simp [SesImpl.front, stored]

/-- The bytes arrive one by one, and then there are no more. -/
def drip (bytes : List UInt8) : List RecvResult := bytes.map (fun byte => .data [byte]) ++ [.fails eagain]

theorem received_drip (bytes : List UInt8) : received (drip bytes) = bytes := by
  simp [received, drip, List.flatMap_map, List.flatMap_append]

theorem recvRounds_drip {recvBufLen : Nat} (fits : recvBufLen < 2 ^ 31) (stale : Nat) (bytes : List UInt8)
    {state : RecvState} (room : state.bytesRecv < recvBufLen) :
    ∃ final, recvRounds recvBufLen stale (drip bytes) state = some (final, eagain) := by
  induction bytes generalizing state with
  | nil => exact ⟨state, rfl⟩
  | cons byte rest ih =>
      have sum : addUnsignedInt state.bytesRecv 1 = state.bytesRecv + 1 := Nat.mod_eq_of_lt (by omega)
      have fitting : ¬ ([byte] = [] ∨ recvBufLen - state.bytesRecv < [byte].length) := by
        simp only [reduceCtorEq, List.length_singleton, false_or]
        omega
      have first : drip (byte :: rest) = .data [byte] :: drip rest := rfl
      rw [first, recvRounds]
      dsimp only
      rw [if_neg fitting, recvCount_short (by simp), if_neg (by simp)]
      simp only [List.length_singleton, Nat.cast_one, Int.toNat_one, sum]
      split_ifs with full
      · exact ih (by simp only [RecvState.pass]; omega)
      · exact ih (by simp only; omega)

theorem netOnRecvBytes_drip {recvBufLen : Nat} (positive : 0 < recvBufLen) (fits : recvBufLen < 2 ^ 31)
    (recvBuf : Nat → UInt8) (stale : Nat) (bytes : List UInt8) :
    ∃ chunks, netOnRecvBytes (some recvBuf) recvBufLen stale (drip bytes) = some (chunks, false) := by
  obtain ⟨final, looped⟩ := @recvRounds_drip recvBufLen fits stale bytes ⟨recvBuf, 0, []⟩ positive
  rw [netOnRecvBytes, if_neg positive.ne', looped]
  simp only [Option.bind_eq_bind, Option.bind_some, ewouldblock, ne_eq, not_true_eq_false, and_self, if_false]
  split_ifs
  · exact ⟨_, rfl⟩
  · exact ⟨_, rfl⟩

/-- Two answers of the network that take all that the ring holds. -/
def SesImpl.generous (sei : SesImpl) : List SendAnswer := [.accepts sei.sendBufLen, .accepts sei.sendBufLen]

theorem SesImpl.generous_patient (sei : SesImpl) : ∀ answer ∈ sei.generous, answer.patient := by
  simp [SesImpl.generous, SendAnswer.patient]

/-- A drain with generous answers passes all accepted bytes. -/
theorem sendStep_drains {log : SendLog} (consistent : log.Consistent) :
    ∃ next, sendStep (.netOnSend log.sei.generous) log = some next ∧ next.accepted = log.accepted ∧
      next.passed = log.accepted := by
  obtain ⟨normal, queue, split, holds⟩ := consistent
  obtain ⟨next, step, accepted, -⟩ :=
    netTrySendAll_keeps log.sei.generous log _ queue normal log.sei.generous_patient holds split
  have emptied : (sendAll log.sei.generous log.sei).passed = queue := sendAll_empties holds
  have drained : (netTrySendAll log.sei.generous log.sei).1.passed = queue := by
    unfold netTrySendAll
    dsimp only
    split
    · exact emptied
    · split_ifs <;> exact emptied
  exact ⟨next, step, accepted, by rw [SendLog.drained_passed step, drained, split]⟩

/-- A reception of all bytes in flight gives the callbacks everything that was passed on. -/
theorem Connected.receives (positive : ∀ peer, 0 < recvBufLen peer) (fits : ∀ peer, recvBufLen peer < 2 ^ 31)
    (connected : Connected recvBufLen conn) {peer : Peer} (reads : (conn peer).closed = false)
    (recvBuf : Nat → UInt8) (stale : Nat) :
    (ConnEvent.recv peer recvBuf stale (drip (conn.inFlight peer))).Allowed recvBufLen conn ∧
      ∃ next, connStep recvBufLen (.recv peer recvBuf stale (drip (conn.inFlight peer))) conn = some next ∧
        next peer.other = conn peer.other ∧ (next peer).chunks.flatten = (conn peer.other).log.passed := by
  obtain ⟨chunks, ran⟩ := netOnRecvBytes_drip (positive peer) (fits peer) recvBuf stale (conn.inFlight peer)
  have all := ((netOnRecvBytes_delivers (positive peer) (fits peer) ran).2.1 rfl).trans (received_drip _)
  obtain ⟨fresh, stepped, joined⟩ : ∃ fresh : Endpoint,
      connStep recvBufLen (.recv peer recvBuf stale (drip (conn.inFlight peer))) conn =
        some (Function.update conn peer fresh) ∧ fresh.chunks = (conn peer).chunks ++ chunks := by
    rw [connStep, if_neg (by simp [reads]), ran]
    exact ⟨_, rfl, rfl⟩
  refine ⟨fun _ => ⟨by rw [ran]; rfl, by rw [received_drip]⟩, _, stepped, Function.update_of_ne peer.other_ne _ _, ?_⟩
  rw [Function.update_self, joined, List.flatten_append, (connected peer).whole reads, all, Connection.inFlight,
    List.take_append_drop]

/-- One drain and one reception bring a direction to rest. -/
theorem Connected.settles (positive : ∀ peer, 0 < recvBufLen peer) (fits : ∀ peer, recvBufLen peer < 2 ^ 31)
    (connected : Connected recvBufLen conn) {peer : Peer} (reads : (conn peer).closed = false)
    (sends : (conn peer.other).closed = false) (recvBuf : Nat → UInt8) (stale : Nat) :
    ∃ answers results final, Meets (connStep recvBufLen) (ConnEvent.Allowed recvBufLen)
        [.send peer.other (.netOnSend answers), .recv peer recvBuf stale results] conn ∧
      exec (connStep recvBufLen) [.send peer.other (.netOnSend answers), .recv peer recvBuf stale results] conn =
        some final ∧
      (final peer.other).log.accepted = (conn peer.other).log.accepted ∧
      (final peer).chunks.flatten = (conn peer.other).log.accepted := by
  obtain ⟨log, step, accepted, passed⟩ := sendStep_drains (connected peer).consistent
  have patient : (ConnEvent.send peer.other (.netOnSend (conn peer.other).log.sei.generous)).Allowed
      recvBufLen conn := fun _ => SesImpl.generous_patient _
  let sent : Connection := Function.update conn peer.other { conn peer.other with log }
  have sending : connStep recvBufLen (.send peer.other (.netOnSend (conn peer.other).log.sei.generous)) conn =
      some sent := by
    rw [connStep, if_neg (by simp [sends]), step]
    rfl
  have writer : sent peer.other = { conn peer.other with log } := Function.update_self _ _ _
  have reader : sent peer = conn peer := Function.update_of_ne peer.other_ne.symm _ _
  obtain ⟨next, taken, still⟩ := connStep_connected positive fits _ conn connected patient
  obtain rfl := Option.some.inj (sending.symm.trans taken)
  obtain ⟨allowed, final, receiving, kept, flattened⟩ :=
    still.receives positive fits (reader ▸ reads) recvBuf stale
  refine ⟨_, drip (sent.inFlight peer), final, ⟨patient, fun next again => ?_⟩, ?_, ?_, ?_⟩
  · obtain rfl := Option.some.inj (sending.symm.trans again)
    exact ⟨allowed, fun _ _ => trivial⟩
  · rw [exec_cons, sending, Option.bind_some, exec_cons, receiving]
    rfl
  · rw [kept, writer, accepted]
  · rw [flattened, writer, passed]

/-- What the application at each end has got. -/
structure Delivered (recvBufLen : Peer → Nat) (conn : Connection) : Prop where
  ordered : ∀ peer, (conn peer).chunks.flatten <+: (conn peer.other).log.accepted
  sized : ∀ peer, ∀ chunk ∈ (conn peer).chunks, Sized (recvBufLen peer) chunk
  whole : ∀ peer, (conn peer).closed = false → ∃ cells, (conn peer.other).log.sei.sendBuf = some cells ∧
    (conn peer.other).log.accepted = (conn peer).chunks.flatten ++ conn.inFlight peer ++
      held cells (conn peer.other).log.sei.sendBufLen (conn peer.other).log.sei.rOffset
        (conn peer.other).log.sei.wOffset

theorem Connected.delivered (connected : Connected recvBufLen conn) : Delivered recvBufLen conn := by
  refine ⟨fun peer => ?_, fun peer => (connected peer).sized, fun peer open_ => ?_⟩
  · obtain ⟨-, queue, split, -⟩ := (connected peer).consistent
    rw [split]
    exact ((connected peer).delivered.trans (List.take_prefix _ _)).trans (List.prefix_append _ _)
  · obtain ⟨-, queue, split, -, -, -, cells, stored, content⟩ := (connected peer).consistent
    refine ⟨cells, stored, ?_⟩
    rw [(connected peer).whole open_, Connection.inFlight, List.take_append_drop, split, content]

theorem freshConnection_connected {sendBufLen : Peer → Nat} (short : ∀ peer, sendBufLen peer < 2 ^ 31)
    (bytes : Peer → Nat → UInt8) : Connected recvBufLen (freshConnection sendBufLen bytes) := by
  intro peer
  refine ⟨⟨rfl, [], rfl, short _, Nat.zero_le _, Nat.zero_le _, _, rfl, ?_⟩, Nat.zero_le _, ?_, fun _ => rfl, ?_⟩
  · simp [freshConnection, freshEndpoint, freshSession]
  · exact List.nil_prefix
  · simp [freshConnection, freshEndpoint]

/-- In every order of sends and receptions each end gets the bytes accepted at the other end, and while both
ends are open one drain and one reception can deliver all that is left. -/
theorem connection_delivers (positive : ∀ peer, 0 < recvBufLen peer) (fits : ∀ peer, recvBufLen peer < 2 ^ 31)
    {sendBufLen : Peer → Nat} (short : ∀ peer, sendBufLen peer < 2 ^ 31) (bytes : Peer → Nat → UInt8)
    (events : List ConnEvent) (meets : Meets (connStep recvBufLen) (ConnEvent.Allowed recvBufLen) events
      (freshConnection sendBufLen bytes)) :
    ∃ conn, exec (connStep recvBufLen) events (freshConnection sendBufLen bytes) = some conn ∧
      Delivered recvBufLen conn ∧
      ∀ peer, (conn peer).closed = false → (conn peer.other).closed = false → ∀ recvBuf stale,
        ∃ answers results final, Meets (connStep recvBufLen) (ConnEvent.Allowed recvBufLen)
            [.send peer.other (.netOnSend answers), .recv peer recvBuf stale results] conn ∧
          exec (connStep recvBufLen) [.send peer.other (.netOnSend answers), .recv peer recvBuf stale results] conn =
            some final ∧
          (final peer.other).log.accepted = (conn peer.other).log.accepted ∧
          (final peer).chunks.flatten = (conn peer.other).log.accepted := by
  obtain ⟨conn, run, connected⟩ := exec_invariant (connStep_connected positive fits) events _
    (freshConnection_connected short bytes) meets
  exact ⟨conn, run, connected.delivered, fun peer reads sends => connected.settles positive fits reads sends⟩

/-- Both ends speak, the second end wraps its ring, and the first one closes for an error. -/
def exchange : List ConnEvent :=
  [.send .connector (.netSend [1, 2, 3] [.accepts 1]), .recv .acceptor (fun _ => 0) 0 [.data [1], .fails eagain],
    .send .acceptor (.netSend [4, 5, 6, 7, 8] [.accepts 3]), .send .acceptor (.netSend [9, 10, 11, 12] []),
    .send .connector (.netOnSend [.accepts 0]), .recv .acceptor (fun _ => 0) 0 [.data [2], .data [3], .fails eagain],
    .recv .connector (fun _ => 0) 0 [.data [4, 5], .data [6, 7], .fails 104]]

theorem connection_delivers_exchange :
    ∃ conn, exec (connStep fun _ => 2) exchange (freshConnection (fun _ => 8) fun _ _ => 0) = some conn ∧
      Delivered (fun _ => 2) conn ∧
      ∀ peer, (conn peer).closed = false → (conn peer.other).closed = false → ∀ recvBuf stale,
        ∃ answers results final, Meets (connStep fun _ => 2) (ConnEvent.Allowed fun _ => 2)
            [.send peer.other (.netOnSend answers), .recv peer recvBuf stale results] conn ∧
          exec (connStep fun _ => 2) [.send peer.other (.netOnSend answers), .recv peer recvBuf stale results] conn =
            some final ∧
          (final peer.other).log.accepted = (conn peer.other).log.accepted ∧
          (final peer).chunks.flatten = (conn peer.other).log.accepted :=
  connection_delivers (fun _ => by decide) (fun _ => by decide) (fun _ => by decide) (fun _ _ => 0) exchange
    (by decide +kernel)

end Syslib.Net
