import Syslib.Net.SendRing

namespace Syslib.Net

open RingQueue Runs

/-- A `recv` call returns some bytes, or zero without a new `errno`, or it fails. -/
inductive RecvAnswer where
  | data (more : Nat)
  | closed
  | fails (errno : Nat)
  deriving DecidableEq, Repr

/-- These are the fields of `struct _ses_impl` that receiving reads. -/
structure Receiver where
  recvBuf : Bool
  recvBufLen : Nat
  deriving DecidableEq, Repr

/-- The reception keeps the lengths given to the callback, the bytes still to give, and `errno`. -/
structure Reception where
  delivered : List Nat
  bytesRecv : Nat
  errno : Nat
  deriving DecidableEq, Repr

/-- The loop gives each full buffer to the callback; `stale` is the `errno` that a zero leaves. -/
def recvLoop (recvBufLen stale : Nat) : List RecvAnswer → Nat → List Nat → Reception
  | [], bytesRecv, delivered => ⟨delivered, bytesRecv, eagain⟩
  | .closed :: _, bytesRecv, delivered => ⟨delivered, bytesRecv, stale⟩
  | .fails errno :: _, bytesRecv, delivered => ⟨delivered, bytesRecv, errno⟩
  | .data more :: rest, bytesRecv, delivered =>
      let bytesRecv := bytesRecv + min (more + 1) (recvBufLen - bytesRecv)
      if bytesRecv ≥ recvBufLen then recvLoop recvBufLen stale rest 0 (delivered ++ [bytesRecv])
      else recvLoop recvBufLen stale rest bytesRecv delivered

/-- The result pairs the lengths given to the callback with the decision to call `_net_close`. -/
def netOnRecv (receiver : Receiver) (recvs : List RecvAnswer) (stale : Nat) : List Nat × Bool :=
  if receiver.recvBuf = false ∨ receiver.recvBufLen = 0 then ([], true)
  else
    let reception := recvLoop receiver.recvBufLen stale recvs 0 []
    if reception.errno ≠ eagain then (reception.delivered, true)
    else if reception.bytesRecv > 0 then (reception.delivered ++ [reception.bytesRecv], false)
    else (reception.delivered, false)

/-- A session on its way out keeps the bytes passed to `send` since it was established. -/
structure Departing where
  sei : SesImpl
  receiver : Receiver
  passed : List UInt8
  closed : Bool

def Departing.drained (ses : Departing) (answers : List SendAnswer) : Departing :=
  let (drain, ending) := netTrySendAll answers ses.sei
  { ses with sei := drain.sei, passed := ses.passed ++ drain.passed, closed := ending ≠ .keeps }

/-- This is `_net_disconn`; a session in another state is refused. -/
def netDisconn (answers : List SendAnswer) (ses : Departing) : Option Departing :=
  if ses.sei.state ≠ .normal ∧ ses.sei.state ≠ .establishing then none
  else some (Departing.drained { ses with sei := { ses.sei with state := .closing } } answers)

/-- The loop reports the descriptor writable or readable. -/
inductive LaterEvent where
  | writable (answers : List SendAnswer)
  | readable (recvs : List RecvAnswer) (stale : Nat)
  deriving DecidableEq, Repr

/-- In the closing state both events leave the state; a closed session gets no more events. -/
def laterStep (event : LaterEvent) (ses : Departing) : Option Departing :=
  if ses.closed then some ses
  else
    match event with
    | .writable answers => some (ses.drained answers)
    | .readable recvs stale => some { ses with closed := (netOnRecv ses.receiver recvs stale).2 }

/-- The `errno` that the last `recv` of the event leaves. -/
def lastErrno (stale : Nat) : List RecvAnswer → Nat
  | [] => eagain
  | .closed :: _ => stale
  | .fails errno :: _ => errno
  | .data _ :: rest => lastErrno stale rest

/-- No `send` fails for another reason than `EAGAIN`, and no `recv` leaves such an `errno` over queued bytes. -/
def LaterEvent.Allowed (event : LaterEvent) (ses : Departing) : Prop :=
  match event with
  | .writable answers => ∀ answer ∈ answers, answer.patient
  | .readable recvs stale => ses.sei.rOffset ≠ ses.sei.wOffset → lastErrno stale recvs = eagain

instance LaterEvent.decidableAllowed (event : LaterEvent) (ses : Departing) :
    Decidable (event.Allowed ses) := by
  cases event <;> unfold LaterEvent.Allowed <;> infer_instance

/-- A closed session has passed every accepted byte, and an open one still holds the others. -/
def Departing.Faithful (accepted : List UInt8) (ses : Departing) : Prop :=
  if ses.closed then ses.passed = accepted
  else ses.sei.state = .closing ∧ ses.receiver.recvBuf = true ∧ ses.receiver.recvBufLen ≠ 0 ∧
    ∃ queue, accepted = ses.passed ++ queue ∧ ses.sei.Holds queue

theorem recvLoop_errno (recvBufLen stale : Nat) (recvs : List RecvAnswer) (bytesRecv : Nat)
    (delivered : List Nat) :
    (recvLoop recvBufLen stale recvs bytesRecv delivered).errno = lastErrno stale recvs := by
  induction recvs generalizing bytesRecv delivered with
  | nil => rfl
  | cons answer rest ih =>
      cases answer with
      | closed => rfl
      | fails errno => rfl
      | data more =>
          simp only [recvLoop, lastErrno]
          split_ifs
          · exact ih _ _
          · exact ih _ _

/-- With a receive buffer only the last `errno` decides about the session. -/
theorem netOnRecv_closes {receiver : Receiver} (mapped : receiver.recvBuf = true)
    (room : receiver.recvBufLen ≠ 0) (recvs : List RecvAnswer) (stale : Nat) :
    (netOnRecv receiver recvs stale).2 = decide (lastErrno stale recvs ≠ eagain) := by
  rw [netOnRecv, if_neg (by simp [mapped, room])]
  simp only [recvLoop_errno]
  split_ifs with failed more <;> simp_all

/-- A send from the start leaves the read offset behind the write offset. -/
theorem sendFromStart_order (answers : List SendAnswer) (sei : SesImpl) (passed : List UInt8)
    (order : sei.rOffset ≤ sei.wOffset) :
    (sendFromStart answers sei passed).sei.rOffset ≤ (sendFromStart answers sei passed).sei.wOffset := by
  by_cases done : sei.wOffset - sei.rOffset = 0
  · simpa [sendFromStart, done] using order
  · cases answers with
    | nil => simpa [sendFromStart, done] using order
    | cons answer rest =>
        cases called : sendCall sei (sei.wOffset - sei.rOffset) answer with
        | error errno => simpa [sendFromStart, done, called] using order
        | ok cnt =>
            have bound := (sendCall_ok (by omega) called).2
            simp only [sendFromStart, done, called, if_false]
            omega

theorem sendAll_order (answers : List SendAnswer) (sei : SesImpl)
    (finished : (sendAll answers sei).failure = none) :
    (sendAll answers sei).sei.rOffset ≤ (sendAll answers sei).sei.wOffset := by
  by_cases order : sei.rOffset ≤ sei.wOffset
  · simp only [sendAll, order, if_true]
    exact sendFromStart_order answers sei [] order
  · simp only [sendAll, order, if_false] at finished ⊢
    cases stopped : (sendToEnd answers sei []).failure with
    | some errno =>
        simp only [stopped] at finished
        exact absurd finished (by simp)
    | none => exact sendFromStart_order _ _ _ (Nat.zero_le _)

/-- A patient drain closes the session only when the ring is empty. -/
theorem Departing.drained_faithful {ses : Departing} {accepted queue : List UInt8}
    {answers : List SendAnswer} (closing : ses.sei.state = .closing)
    (mapped : ses.receiver.recvBuf = true) (room : ses.receiver.recvBufLen ≠ 0)
    (split : accepted = ses.passed ++ queue) (holds : ses.sei.Holds queue)
    (patient : ∀ answer ∈ answers, answer.patient) : (ses.drained answers).Faithful accepted := by
  obtain ⟨state, ⟨front, rest, divided, sent, kept⟩, retry, -⟩ :=
    sendAll_passes answers ses.sei queue holds patient
  have whole : accepted = (ses.passed ++ (sendAll answers ses.sei).passed) ++ rest := by
    rw [split, divided, sent, List.nil_append, List.append_assoc]
  have open_ : netTrySendAll answers ses.sei = (sendAll answers ses.sei, .keeps) →
      (ses.drained answers).Faithful accepted := by
    intro ended
    rw [Departing.drained, ended]
    exact ⟨state.trans closing, mapped, room, rest, whole, kept⟩
  cases stopped : (sendAll answers ses.sei).failure with
  | some errno =>
      apply open_
      simp [netTrySendAll, stopped, retry errno stopped]
  | none =>
      by_cases drained : (sendAll answers ses.sei).sei.wOffset ≤ (sendAll answers ses.sei).sei.rOffset
      · have ended : netTrySendAll answers ses.sei = (sendAll answers ses.sei, .closes 0) := by
          simp [netTrySendAll, stopped, state.trans closing, drained]
        have order := sendAll_order answers ses.sei stopped
        obtain ⟨-, -, -, bytes, -, content⟩ := kept
        rw [Nat.le_antisymm order drained, held_empty] at content
        rw [Departing.drained, ended]
        simp only [Departing.Faithful, ne_eq, reduceCtorEq, not_false_eq_true, decide_true, if_true]
        rw [whole, content, List.append_nil]
      · apply open_
        simp [netTrySendAll, stopped, drained]

theorem laterStep_faithful {accepted : List UInt8} (event : LaterEvent) (ses : Departing)
    (faithful : ses.Faithful accepted) (allowed : event.Allowed ses) :
    ∃ next, laterStep event ses = some next ∧ next.Faithful accepted := by
  by_cases closed : ses.closed = true
  · exact ⟨ses, if_pos closed, faithful⟩
  · have inner := faithful
    rw [Departing.Faithful, if_neg closed] at inner
    obtain ⟨closing, mapped, room, queue, split, holds⟩ := inner
    cases event with
    | writable answers =>
        exact ⟨_, if_neg closed, Departing.drained_faithful closing mapped room split holds allowed⟩
    | readable recvs stale =>
        refine ⟨_, if_neg closed, ?_⟩
        have decision := netOnRecv_closes mapped room recvs stale
        by_cases empty : ses.sei.rOffset = ses.sei.wOffset
        · obtain ⟨short, inside, writeInside, bytes, stored, content⟩ := holds
          have none_left : queue = [] := by rw [content, empty, held_empty]
          cases ended : (netOnRecv ses.receiver recvs stale).2 with
          | true =>
              simp only [Departing.Faithful, if_true]
              rw [split, none_left, List.append_nil]
          | false =>
              exact ⟨closing, mapped, room, queue, split, short, inside, writeInside, bytes, stored,
                content⟩
        · rw [allowed empty] at decision
          simp only [Departing.Faithful, decision]
          exact ⟨closing, mapped, room, queue, split, holds⟩

/-- A disconnected session is closed only after all its accepted bytes went to `send`. -/
theorem netDisconn_graceful (size : Nat) (bytes : Nat → UInt8) (short : size < 2 ^ 31)
    (history : List SendCall)
    (sends : Meets sendStep SendCall.Allowed history ⟨freshSession size bytes, [], []⟩) {log : SendLog}
    (run : exec sendStep history ⟨freshSession size bytes, [], []⟩ = some log)
    (receiver : Receiver) (mapped : receiver.recvBuf = true) (room : receiver.recvBufLen ≠ 0)
    (answers : List SendAnswer) (patient : ∀ answer ∈ answers, answer.patient) {ses : Departing}
    (leaves : netDisconn answers ⟨log.sei, receiver, log.passed, false⟩ = some ses)
    (events : List LaterEvent) (meets : Meets laterStep LaterEvent.Allowed events ses) :
    ∃ final, exec laterStep events ses = some final ∧
      (final.closed = true → final.passed = log.accepted) := by
  have start : (⟨freshSession size bytes, [], []⟩ : SendLog).Consistent :=
    ⟨rfl, [], rfl, short, Nat.zero_le _, Nat.zero_le _, bytes, rfl, by simp [freshSession]⟩
  obtain ⟨reached, same, normal, queue, split, holds⟩ :=
    exec_invariant sendStep_consistent history _ start sends
  obtain rfl : log = reached := Option.some.inj (run.symm.trans same)
  have holds_closing : SesImpl.Holds { log.sei with state := .closing } queue :=
    ⟨holds.short, holds.readInside, holds.writeInside, holds.content⟩
  have leaving : (Departing.drained ⟨{ log.sei with state := .closing }, receiver, log.passed, false⟩
      answers).Faithful log.accepted :=
    Departing.drained_faithful rfl mapped room split holds_closing patient
  rw [netDisconn, if_neg fun refused => refused.1 normal] at leaves
  obtain rfl := Option.some.inj leaves
  obtain ⟨final, ran, faithful⟩ := exec_invariant laterStep_faithful events _ leaving meets
  refine ⟨final, ran, ?_⟩
  intro closed
  rw [Departing.Faithful, if_pos closed] at faithful
  exact faithful

/-- A readable event with another `errno` closes the session over its queued bytes. -/
theorem laterStep_cuts {ses : Departing} (open_ : ses.closed = false)
    (mapped : ses.receiver.recvBuf = true) (room : ses.receiver.recvBufLen ≠ 0)
    {recvs : List RecvAnswer} {stale : Nat} (other : lastErrno stale recvs ≠ eagain) :
    laterStep (.readable recvs stale) ses = some { ses with closed := true } := by
  rw [laterStep, if_neg (by simp [open_])]
  simp only [netOnRecv_closes mapped room, other, ne_eq, not_false_eq_true, decide_true]

/-- One message waits in the ring of a session with a receive buffer of 16 bytes. -/
def waiting : Option SendLog :=
  exec sendStep [.netSend [1, 2, 3] [.fails eagain]] ⟨freshSession 8 fun _ => 0, [], []⟩

theorem waiting_isSome : waiting.isSome := by decide

def leavingSession : Option Departing :=
  netDisconn [.accepts 0] ⟨(waiting.get waiting_isSome).sei, ⟨true, 16⟩,
    (waiting.get waiting_isSome).passed, false⟩

theorem leavingSession_isSome : leavingSession.isSome := by decide

/-- A readable event without news comes first, and then the peer takes the rest. -/
theorem netDisconn_graceful_late :
    ∃ final, exec laterStep [.readable [.closed] eagain, .writable [.accepts 1]]
        (leavingSession.get leavingSession_isSome) = some final ∧
      (final.closed = true → final.passed = (waiting.get waiting_isSome).accepted) :=
  netDisconn_graceful 8 (fun _ => 0) (by decide) [.netSend [1, 2, 3] [.fails eagain]] (by decide)
    (Option.some_get waiting_isSome).symm ⟨true, 16⟩ rfl (by decide) [.accepts 0] (by decide)
    (Option.some_get leavingSession_isSome).symm _ (by decide +kernel)

/-- Three bytes wait in the ring when the readable event after `shutdown` finds an old `errno`. -/
theorem netDisconn_cut :
    ∃ log ∈ exec sendStep [.netSend [1, 2, 3] [.fails eagain]] ⟨freshSession 8 fun _ => 0, [], []⟩,
      ∃ ses ∈ netDisconn [.fails eagain] ⟨log.sei, ⟨true, 16⟩, log.passed, false⟩,
        ∃ final ∈ exec laterStep [.readable [.closed] 0] ses,
          final.closed = true ∧ final.passed = [] ∧ log.accepted = [1, 2, 3] := by
  decide +kernel

end Syslib.Net
